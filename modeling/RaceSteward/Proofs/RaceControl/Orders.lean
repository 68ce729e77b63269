import RaceSteward.RaceControl

/-!
# What orders and messages do to race control

Only an order of a countdown arms a start, and only one that is not stale; only a forced finish
raises the epoch. Messages of the server do neither.
-/

namespace RaceSteward.RaceControl

variable {rc : RaceControl} {epoch : Nat}

theorem apply_armStart_of_lt (h : epoch < rc.epoch) : rc.apply (.armStart epoch) = (.silent, rc) :=
  if_pos h

theorem apply_armStart_of_le (h : rc.epoch ≤ epoch) :
    rc.apply (.armStart epoch) = (⟨[.whoIsOnline], none⟩, { rc with armed := true }) :=
  if_neg (Nat.not_lt.mpr h)

theorem apply_armStart_eq_silent_iff :
    rc.apply (.armStart epoch) = (.silent, rc) ↔ epoch < rc.epoch := by
  refine ⟨fun h => Nat.lt_of_not_le fun hle => ?_, apply_armStart_of_lt⟩
  rw [apply_armStart_of_le hle] at h
  cases h

theorem epoch_apply_armStart (rc : RaceControl) (epoch : Nat) :
    (rc.apply (.armStart epoch)).2.epoch = rc.epoch := by
  dsimp only [apply]
  split <;> rfl

theorem epoch_apply_forceStop (rc : RaceControl) (epoch : Nat) :
    (rc.apply (.forceStop epoch)).2.epoch = max rc.epoch epoch := rfl

theorem armed_apply_forceStop (rc : RaceControl) (epoch : Nat) :
    (rc.apply (.forceStop epoch)).2.armed = false := rfl

theorem route_clientList_of_armed (h : rc.armed = true) (list : ClientList) :
    rc.route (.clientList list) = (.publish (rc.tracker.start list.players).1,
      { rc with tracker := (rc.tracker.start list.players).2, armed := false }) :=
  if_pos h

theorem route_clientList_of_unarmed (h : rc.armed = false) (list : ClientList) :
    rc.route (.clientList list) = (.silent, rc) :=
  if_neg (Bool.eq_false_iff.mp h)

theorem route_of_event {m : Message} {e : Race.Tracker.Event} (h : eventOf m = some e)
    (rc : RaceControl) :
    rc.route m =
      (.publish (rc.tracker.observe e).1, { rc with tracker := (rc.tracker.observe e).2 }) := by
  unfold route
  split
  · cases h
  · rw [h]

theorem route_of_no_event {m : Message} (h : eventOf m = none) (hlist : ∀ list, m ≠ .clientList list)
    (rc : RaceControl) : rc.route m = (.silent, rc) := by
  unfold route
  split
  · exact absurd rfl (hlist _)
  · rw [h]

theorem epoch_route (rc : RaceControl) (m : Message) : (rc.route m).2.epoch = rc.epoch := by
  unfold route
  split
  · split <;> rfl
  · split <;> rfl

theorem armed_of_armed_route {m : Message} (h : (rc.route m).2.armed = true) : rc.armed = true := by
  unfold route at h
  split at h
  · split at h
    · cases h
    · exact h
  · split at h <;> exact h

end RaceSteward.RaceControl
