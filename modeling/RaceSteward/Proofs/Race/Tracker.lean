import RaceSteward.Race.Tracker
import RaceSteward.Proofs.Race.Roster

/-!
# What the operations of a tracker do

One equation for each operation and each of its cases, and the invariant that every operation keeps:
an idle tracker has nothing left of a race (`Tracker.sound_run`).
-/

namespace RaceSteward.Race.Tracker

/-- No race, and nothing left of one. -/
structure AtRest (t : Tracker) : Prop where
  phase : t.phase = .idle
  roster : t.roster = .empty
  decided : t.decided = []

/-- An idle tracker is at rest. -/
def Sound (t : Tracker) : Prop :=
  t.phase = .idle → t.AtRest

/-! ## Stopping and starting -/

theorem stop_of_idle {t : Tracker} (h : t.phase = .idle) : t.stop = (none, t) := by
  rw [stop, h]

theorem stop_of_recording {t : Tracker} (h : t.phase = .recording) :
    t.stop = (some ⟨t.decided ++ t.roster.players.map (Rank.dnf · .timeout)⟩,
      ⟨.idle, .empty, t.nextPlace, []⟩) := by
  rw [stop, h]
  rfl

theorem atRest_stop {t : Tracker} (h : t.Sound) : t.stop.2.AtRest := by
  cases hphase : t.phase with
  | idle => rw [stop_of_idle hphase]; exact h hphase
  | recording => rw [stop_of_recording hphase]; exact ⟨rfl, rfl, rfl⟩

theorem start_snd {t : Tracker} (h : t.Sound) (players : List Player) :
    (t.start players).2 = ⟨.recording, ⟨Roster.distinct players⟩, 1, []⟩ := by
  obtain ⟨-, hroster, hdecided⟩ := atRest_stop h
  show (⟨.recording, t.stop.2.roster.enter players, 1, t.stop.2.decided⟩ : Tracker) = _
  rw [hroster, hdecided, Roster.enter_empty]

/-! ## Deciding a player -/

/-- The tracker once the result of a player has been noted. -/
def settle (t : Tracker) (p : Player) (verdict : Verdict) : Tracker :=
  { t with
    roster := (t.roster.remove p.id).2
    nextPlace := (t.judge p verdict).2
    decided := t.decided ++ [(t.judge p verdict).1] }

theorem conclude_of_none {t : Tracker} {id : UInt32} (h : t.roster.get? id = none)
    (verdict : Verdict) : t.conclude id verdict = (none, t) := by
  simp only [conclude, Roster.remove, h]

theorem conclude_of_some {t : Tracker} {id : UInt32} {p : Player} (h : t.roster.get? id = some p)
    (verdict : Verdict) :
    t.conclude id verdict =
      if (t.settle p verdict).roster.isEmpty then (t.settle p verdict).stop
      else (none, t.settle p verdict) := by
  obtain rfl := Roster.id_of_get? h
  simp only [conclude, Roster.remove, h]
  rfl

theorem size_stop_le (t : Tracker) : t.stop.2.roster.size ≤ t.roster.size := by
  rcases hphase : t.phase with _ | _
  · exact Nat.le_of_eq (by rw [stop_of_idle hphase])
  · rw [stop_of_recording hphase]
    exact Nat.zero_le _

theorem size_settle_lt {t : Tracker} {p : Player} (hp : p ∈ t.roster.players) (verdict : Verdict) :
    (t.settle p verdict).roster.size < t.roster.size := by
  have hlength : (t.roster.players.eraseP (·.id = p.id)).length = t.roster.players.length - 1 :=
    List.length_eraseP_of_mem hp (decide_eq_true rfl)
  have hpos : 0 < t.roster.players.length := List.length_pos_of_mem hp
  show (t.roster.players.eraseP (·.id = p.id)).length < t.roster.players.length
  omega

theorem conclude_eq_self_iff {t : Tracker} {id : UInt32} {verdict : Verdict} :
    t.conclude id verdict = (none, t) ↔ t.roster.contains id = false := by
  rw [Roster.contains_eq_isSome_get?]
  rcases hget : t.roster.get? id with _ | p
  · exact ⟨fun _ => rfl, fun _ => conclude_of_none hget verdict⟩
  · refine ⟨fun hself => ?_, nofun⟩
    have hsettle := size_settle_lt (List.mem_of_find?_eq_some hget) verdict
    have hstop := size_stop_le (t.settle p verdict)
    -- somebody is taken off the roster, whether or not this ends the race
    have hlt : (t.conclude id verdict).2.roster.size < t.roster.size := by
      rw [conclude_of_some hget]
      split
      · exact Nat.lt_of_le_of_lt hstop hsettle
      · exact hsettle
    rw [hself] at hlt
    exact absurd hlt (Nat.lt_irrefl _)

/-- Whom an event concerns, and what it decides about them, if anything. -/
def Event.verdict? : Event → Option (UInt32 × Verdict)
  | .finish id => some (id, .finished)
  | .disconnect id => some (id, .out .logout)
  | .cheat id flag => if flag = 0 then none else some (id, .out .cheat)
  | .ball _ => none

theorem observe_of_none {e : Event} (h : e.verdict? = none) (t : Tracker) :
    t.observe e = (none, t) := by
  cases e with
  | finish id => cases h
  | disconnect id => cases h
  | cheat id flag =>
    by_cases hflag : flag = 0
    · rw [observe, if_pos hflag]
    · rw [Event.verdict?, if_neg hflag] at h
      cases h
  | ball id => rfl

theorem observe_of_some {e : Event} {id : UInt32} {verdict : Verdict}
    (h : e.verdict? = some (id, verdict)) (t : Tracker) : t.observe e = t.conclude id verdict := by
  cases e with
  | finish id => cases h; rfl
  | disconnect id => cases h; rfl
  | cheat id flag =>
    by_cases hflag : flag = 0
    · rw [Event.verdict?, if_pos hflag] at h
      cases h
    · rw [Event.verdict?, if_neg hflag] at h
      cases h
      rw [observe, if_neg hflag]
  | ball id => cases h

theorem observe_cases (t : Tracker) (e : Event) :
    t.observe e = (none, t) ∨
      ∃ p ∈ t.roster.players, ∃ verdict, e.verdict? = some (p.id, verdict) ∧
        t.observe e = if (t.settle p verdict).roster.isEmpty then (t.settle p verdict).stop
          else (none, t.settle p verdict) := by
  rcases he : e.verdict? with _ | ⟨id, verdict⟩
  · exact .inl (observe_of_none he t)
  · rw [observe_of_some he]
    rcases hget : t.roster.get? id with _ | p
    · exact .inl (conclude_of_none hget verdict)
    · obtain rfl := Roster.id_of_get? hget
      exact .inr ⟨p, List.mem_of_find?_eq_some hget, verdict, rfl, conclude_of_some hget verdict⟩

/-! ## An idle tracker is at rest -/

theorem sound_new : new.Sound := fun _ => ⟨rfl, rfl, rfl⟩

theorem sound_observe {t : Tracker} (h : t.Sound) (e : Event) : (t.observe e).2.Sound := by
  rcases observe_cases t e with hsame | ⟨p, hp, verdict, -, hsettled⟩
  · rw [hsame]
    exact h
  · -- an idle tracker has no player to settle
    have hsettle : (t.settle p verdict).Sound := by
      intro hidle
      rw [(h hidle).roster] at hp
      exact absurd hp List.not_mem_nil
    rw [hsettled]
    split
    · exact fun _ => atRest_stop hsettle
    · exact hsettle

theorem sound_step {t : Tracker} (h : t.Sound) (op : Op) : (t.step op).2.Sound := by
  cases op with
  | start players =>
    intro hidle
    cases hidle
  | stop => exact fun _ => atRest_stop h
  | observe e => exact sound_observe h e

theorem sound_run {t : Tracker} (h : t.Sound) (ops : List Op) : (t.run ops).2.Sound := by
  induction ops generalizing t with
  | nil => exact h
  | cons op ops ih => exact ih (sound_step h op)

/-! ## Runs of events -/

theorem run_observe_cons (t : Tracker) (e : Event) (events : List Event) :
    t.run ((e :: events).map .observe) =
      ((t.observe e).1 :: ((t.observe e).2.run (events.map .observe)).1,
        ((t.observe e).2.run (events.map .observe)).2) := rfl

theorem observe_atRest {t : Tracker} (h : t.AtRest) (e : Event) : t.observe e = (none, t) := by
  rcases observe_cases t e with hsame | ⟨p, hp, -⟩
  · exact hsame
  · rw [h.roster] at hp
    exact absurd hp List.not_mem_nil

theorem run_observe_atRest {t : Tracker} (h : t.AtRest) (events : List Event) :
    t.run (events.map .observe) = (List.replicate events.length none, t) := by
  induction events with
  | nil => rfl
  | cons e events ih =>
    rw [run_observe_cons, observe_atRest h, ih]
    rfl

end RaceSteward.Race.Tracker
