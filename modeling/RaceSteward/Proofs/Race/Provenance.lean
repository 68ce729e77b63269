import RaceSteward.Proofs.Race.Bookkeeping

/-!
# Where the names in results come from

Every result is about a player of the list that started its race, and has the nickname that the
list gives at the first entry of the id. Entering a roster, being decided and running out of time
only copy it.

* `Tracker.Drawn.run`: after any operations everyone whom the tracker knows is from the last list.
* `Tracker.Drawn.yields`: so are the results that an operation yields.
-/

namespace RaceSteward.Race

theorem Roster.exists_split_of_mem_distinct {players : List Player} {p : Player}
    (h : p ∈ distinct players) :
    ∃ earlier later, players = earlier ++ p :: later ∧ ∀ q ∈ earlier, q.id ≠ p.id := by
  induction players with
  | nil => cases h
  | cons q players ih =>
    rw [distinct_cons] at h
    rcases List.mem_cons.mp h with rfl | h
    · exact ⟨[], players, rfl, nofun⟩
    · obtain ⟨hmem, hid⟩ := List.mem_filter.mp h
      obtain ⟨earlier, later, rfl, hearlier⟩ := ih hmem
      exact ⟨q :: earlier, later, rfl,
        List.forall_mem_cons.mpr ⟨Ne.symm (of_decide_eq_true hid), hearlier⟩⟩

theorem Roster.mem_of_mem_distinct {players : List Player} {p : Player} (h : p ∈ distinct players) :
    p ∈ players := by
  obtain ⟨earlier, later, rfl, -⟩ := exists_split_of_mem_distinct h
  exact List.mem_append_right _ List.mem_cons_self

/-- The result is about a player of the list and has the nickname of the first entry of the id. -/
def Rank.IsOf (players : List Player) (r : Rank) : Prop :=
  ∃ p ∈ Roster.distinct players, r.id = p.id ∧ r.nickname = p.nickname

namespace Tracker

/-- Everyone whom the tracker knows is from this list. -/
structure Drawn (players : List Player) (t : Tracker) : Prop where
  roster : ∀ p ∈ t.roster.players, p ∈ Roster.distinct players
  decided : ∀ r ∈ t.decided, r.IsOf players

variable {players : List Player} {t : Tracker}

theorem isOf_judge {p : Player} (hp : p ∈ Roster.distinct players) (t : Tracker)
    (verdict : Verdict) : (t.judge p verdict).1.IsOf players := by
  cases verdict with
  | finished => exact ⟨p, hp, rfl, rfl⟩
  | out reason => exact ⟨p, hp, rfl, rfl⟩

theorem Drawn.stop (h : Drawn players t) :
    Drawn players t.stop.2 ∧ ∀ s ∈ t.stop.1, ∀ r ∈ s.ranks, r.IsOf players := by
  rcases hphase : t.phase with _ | _
  · rw [stop_of_idle hphase]
    exact ⟨h, nofun⟩
  · rw [stop_of_recording hphase]
    refine ⟨⟨nofun, nofun⟩, ?_⟩
    rintro s ⟨⟩ r hr
    rcases List.mem_append.mp hr with hr | hr
    · exact h.decided r hr
    · obtain ⟨p, hp, rfl⟩ := List.mem_map.mp hr
      exact ⟨p, h.roster p hp, rfl, rfl⟩

theorem Drawn.settle (h : Drawn players t) {p : Player} (hp : p ∈ t.roster.players)
    (verdict : Verdict) : Drawn players (t.settle p verdict) where
  roster q hq := h.roster q (List.mem_of_mem_eraseP hq)
  decided r hr := by
    rcases List.mem_append.mp hr with hr | hr
    · exact h.decided r hr
    · rw [List.mem_singleton.mp hr]
      exact isOf_judge (h.roster p hp) t verdict

theorem Drawn.observe (h : Drawn players t) (e : Event) :
    Drawn players (t.observe e).2 ∧ ∀ s ∈ (t.observe e).1, ∀ r ∈ s.ranks, r.IsOf players := by
  rcases observe_cases t e with hsame | ⟨p, hp, verdict, -, hsettled⟩
  · rw [hsame]
    exact ⟨h, nofun⟩
  · have hsettle := h.settle hp verdict
    rw [hsettled]
    split
    · exact hsettle.stop
    · exact ⟨hsettle, nofun⟩

theorem drawn_start (h : t.Sound) (players : List Player) : Drawn players (t.start players).2 := by
  rw [start_snd h]
  exact ⟨fun _ hp => hp, nofun⟩

/-- An operation yields results of the list before it; only a start changes the list. -/
theorem Drawn.step (h : Drawn players t) (hsound : t.Sound) (op : Op) :
    Drawn (op.started?.getD players) (t.step op).2 := by
  cases op with
  | start next => exact drawn_start hsound next
  | stop => exact h.stop.1
  | observe e => exact (h.observe e).1

theorem Drawn.yields (h : Drawn players t) (op : Op) :
    ∀ s ∈ (t.step op).1, ∀ r ∈ s.ranks, r.IsOf players := by
  cases op with
  | start next => exact h.stop.2
  | stop => exact h.stop.2
  | observe e => exact (h.observe e).2

theorem getLastD_lists_cons (op : Op) (ops : List Op) (players : List Player) :
    (lists (op :: ops)).getLastD players = (lists ops).getLastD (op.started?.getD players) := by
  rw [lists_cons]
  cases op.started? with
  | none => rfl
  | some next => exact List.getLastD_cons

theorem Drawn.run (h : Drawn players t) (hsound : t.Sound) (ops : List Op) :
    Drawn ((lists ops).getLastD players) (t.run ops).2 := by
  induction ops generalizing t players with
  | nil => exact h
  | cons op ops ih =>
    rw [getLastD_lists_cons]
    exact ih (h.step hsound op) (sound_step hsound op)

theorem drawn_new : Drawn [] new :=
  ⟨nofun, nofun⟩

end Tracker

end RaceSteward.Race
