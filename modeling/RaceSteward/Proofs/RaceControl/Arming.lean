import RaceSteward.Proofs.RaceControl.Races

/-!
# What arms a start

Whether a start is armed can be read off what has been said so far, whatever the epochs: the last
word is an order to arm that no forced finish before it outdates (`RaceControl.armed_iff_history`).
Each client list that starts a race uses up the orders before it, so between two starts there is an
order for the second.

The epoch of race control is the greatest of the forced finishes (`epoch_run_le_iff`), so a late
forced finish with a small epoch disarms, and makes no later order fresh.
-/

namespace RaceSteward.RaceControl

/-- After this step no start is armed. -/
def Step.disarms : Step → Bool
  | .forceStop | .apply (.forceStop _) | .route (.clientList _) => true
  | .armStart | .apply (.armStart _) | .route _ => false

/-- The step arms a start, given the steps before it: an order to arm is stale if the epoch of some
forced finish before it is greater. -/
def Fresh (before : List Step) : Step → Prop
  | .armStart => True
  | .apply (.armStart epoch) => ∀ forced, .apply (.forceStop forced) ∈ before → forced ≤ epoch
  | .forceStop | .apply (.forceStop _) | .route _ => False

variable {rc : RaceControl} {s : Step} {steps : List Step} {epoch : Nat}

/-! ## The epoch -/

theorem epoch_step_le_iff :
    (rc.step s).2.epoch ≤ epoch ↔
      rc.epoch ≤ epoch ∧ ∀ forced, s = .apply (.forceStop forced) → forced ≤ epoch := by
  have hsame (heq : (rc.step s).2.epoch = rc.epoch)
      (hnot : ∀ forced, s ≠ .apply (.forceStop forced)) :
      (rc.step s).2.epoch ≤ epoch ↔
        rc.epoch ≤ epoch ∧ ∀ forced, s = .apply (.forceStop forced) → forced ≤ epoch := by
    rw [heq]
    exact ⟨fun h => ⟨h, fun forced hs => absurd hs (hnot forced)⟩, And.left⟩
  rcases s with _ | _ | (armed | forced) | m
  · exact hsame rfl nofun
  · exact hsame rfl nofun
  · exact hsame (epoch_apply_armStart rc armed) nofun
  · have hmax : (rc.step (.apply (.forceStop forced))).2.epoch = max rc.epoch forced := rfl
    rw [hmax, Nat.max_le]
    constructor
    · rintro ⟨hrc, hforced⟩
      refine ⟨hrc, ?_⟩
      rintro _ ⟨⟩
      exact hforced
    · rintro ⟨hrc, hforced⟩
      exact ⟨hrc, hforced forced rfl⟩
  · exact hsame (epoch_route rc m) nofun

theorem epoch_run_le_iff :
    (rc.run steps).2.epoch ≤ epoch ↔
      rc.epoch ≤ epoch ∧ ∀ forced, .apply (.forceStop forced) ∈ steps → forced ≤ epoch := by
  induction steps generalizing rc with
  | nil => exact ⟨fun h => ⟨h, nofun⟩, And.left⟩
  | cons s steps ih =>
    rw [run_cons, ih, epoch_step_le_iff]
    constructor
    · rintro ⟨⟨hrc, hs⟩, hsteps⟩
      refine ⟨hrc, fun forced hmem => ?_⟩
      rcases List.mem_cons.mp hmem with hmem | hmem
      · exact hs forced hmem.symm
      · exact hsteps forced hmem
    · rintro ⟨hrc, hall⟩
      refine ⟨⟨hrc, fun forced hs => hall forced (hs ▸ List.mem_cons_self)⟩, fun forced hmem => ?_⟩
      exact hall forced (List.mem_cons_of_mem _ hmem)

theorem arms_run_iff : (new.run steps).2.Arms s ↔ Fresh steps s := by
  rcases s with _ | _ | (armed | forced) | m
  · exact Iff.rfl
  · exact Iff.rfl
  · exact epoch_run_le_iff.trans ⟨And.right, fun h => ⟨Nat.zero_le _, h⟩⟩
  · exact Iff.rfl
  · exact Iff.rfl

/-! ## The flag -/

theorem armed_route {m : Message} (hlist : ∀ list, m ≠ .clientList list) :
    (rc.route m).2.armed = rc.armed := by
  rcases hevent : eventOf m with _ | e
  · rw [route_of_no_event hevent hlist]
  · rw [route_of_event hevent]

theorem disarms_route {m : Message} (hlist : ∀ list, m ≠ .clientList list) :
    (Step.route m).disarms = false := by
  rcases m with _ | _ | _ | _ | list | _ | _ | _ | _ | _ | _
  case clientList => exact absurd rfl (hlist list)
  all_goals rfl

theorem armed_step_iff :
    (rc.step s).2.armed = true ↔ rc.Arms s ∨ rc.armed = true ∧ s.disarms = false := by
  rcases s with _ | _ | (ordered | forced) | m
  · exact ⟨fun _ => .inl trivial, fun _ => rfl⟩
  · exact ⟨nofun, nofun⟩
  · show (rc.apply (.armStart ordered)).2.armed = true ↔
      rc.epoch ≤ ordered ∨ rc.armed = true ∧ false = false
    rcases Nat.lt_or_ge ordered rc.epoch with hstale | hfresh
    · rw [apply_armStart_of_lt hstale]
      exact ⟨fun h => .inr ⟨h, rfl⟩, fun h => (h.resolve_left (Nat.not_le.mpr hstale)).1⟩
    · rw [apply_armStart_of_le hfresh]
      exact ⟨fun _ => .inl hfresh, fun _ => rfl⟩
  · exact ⟨nofun, nofun⟩
  · show (rc.route m).2.armed = true ↔ False ∨ rc.armed = true ∧ (Step.route m).disarms = false
    by_cases hlist : ∃ list, m = .clientList list
    · obtain ⟨list, rfl⟩ := hlist
      rcases harmed : rc.armed with _ | _
      · rw [route_clientList_of_unarmed harmed, harmed]
        exact ⟨nofun, nofun⟩
      · rw [route_clientList_of_armed harmed]
        exact ⟨nofun, nofun⟩
    · have hother : ∀ list, m ≠ .clientList list := fun list hm => hlist ⟨list, hm⟩
      rw [armed_route hother]
      exact ⟨fun h => .inr ⟨h, disarms_route hother⟩, fun h => (h.resolve_left id).1⟩

theorem armed_run_iff :
    (rc.run steps).2.armed = true ↔
      (rc.armed = true ∧ ∀ s ∈ steps, s.disarms = false) ∨
        ∃ before order after, steps = before ++ order :: after ∧
          (rc.run before).2.Arms order ∧ ∀ s ∈ after, s.disarms = false := by
  induction steps generalizing rc with
  | nil =>
    constructor
    · exact fun h => .inl ⟨h, nofun⟩
    · rintro (⟨h, -⟩ | ⟨before, order, after, hnil, -⟩)
      · exact h
      · cases before <;> cases hnil
  | cons s steps ih =>
    rw [run_cons, ih, armed_step_iff]
    constructor
    · rintro (⟨harms | ⟨harmed, hs⟩, hsteps⟩ | ⟨before, order, after, rfl, harms, hafter⟩)
      · exact .inr ⟨[], s, steps, rfl, harms, hsteps⟩
      · exact .inl ⟨harmed, List.forall_mem_cons.mpr ⟨hs, hsteps⟩⟩
      · exact .inr ⟨s :: before, order, after, rfl, harms, hafter⟩
    · rintro (⟨harmed, hall⟩ | ⟨before, order, after, hsplit, harms, hafter⟩)
      · obtain ⟨hs, hsteps⟩ := List.forall_mem_cons.mp hall
        exact .inl ⟨.inr ⟨harmed, hs⟩, hsteps⟩
      · rcases before with _ | ⟨first, before⟩
        · cases hsplit
          exact .inl ⟨.inl harms, hafter⟩
        · cases hsplit
          exact .inr ⟨before, order, after, rfl, harms, hafter⟩

theorem step_clientList (rc : RaceControl) (list : ClientList) :
    rc.step (.route (.clientList list)) =
      if rc.armed then (.publish (rc.tracker.start list.players).1,
        { rc with tracker := (rc.tracker.start list.players).2, armed := false })
      else (.silent, rc) := rfl

theorem armed_step_clientList (rc : RaceControl) (list : ClientList) :
    (rc.step (.route (.clientList list))).2.armed = false := by
  rw [← Bool.not_eq_true, armed_step_iff]
  rintro (harms | ⟨-, hkeeps⟩)
  · exact harms
  · cases hkeeps

/-- After any steps, with any epochs in any order, a start is armed exactly if there is an order to
arm that is not stale, with neither a forced finish nor a client list after it. So each start uses
up the orders before it. -/
theorem armed_iff_history (steps : List Step) :
    ((new.run steps).2.armed = true ↔
      ∃ before order after, steps = before ++ order :: after ∧ Fresh before order ∧
        ∀ s ∈ after, s.disarms = false) ∧
    (∀ list, let rc := (new.run steps).2
      rc.step (.route (.clientList list)) =
        if rc.armed then (.publish (rc.tracker.start list.players).1,
          { rc with tracker := (rc.tracker.start list.players).2, armed := false })
        else (.silent, rc)) ∧
    ∀ before list between, steps = before ++ .route (.clientList list) :: between →
      (new.run steps).2.armed = true →
        ∃ idle order after, between = idle ++ order :: after ∧
          Fresh (before ++ .route (.clientList list) :: idle) order ∧
          ∀ s ∈ after, s.disarms = false := by
  refine ⟨?_, fun list => step_clientList _ list, ?_⟩
  · rw [armed_run_iff]
    simp only [arms_run_iff]
    exact ⟨fun h => h.resolve_left nofun, .inr⟩
  · rintro before list between rfl harmed
    have hsplit : ∀ later, (new.run (before ++ .route (.clientList list) :: later)).2 =
        (((new.run before).2.step (.route (.clientList list))).2.run later).2 :=
      fun later => run_append new before _
    rw [hsplit, armed_run_iff, armed_step_clientList] at harmed
    obtain ⟨idle, order, after, hbetween, harms, hafter⟩ := harmed.resolve_left nofun
    rw [← hsplit, arms_run_iff] at harms
    exact ⟨idle, order, after, hbetween, harms, hafter⟩

/-- Forced finishes that come the wrong way round, then a stale order and a fresh one before a start,
and another of each after it. -/
def unordered : List Step :=
  [.apply (.forceStop 5), .apply (.forceStop 2), .apply (.armStart 4), .apply (.armStart 5),
    .route (.clientList ⟨[⟨1, "ann", 0⟩]⟩), .apply (.armStart 3), .apply (.armStart 6)]

theorem armed_iff_history_unordered :
    (new.run unordered).2.armed = true ∧
      ∃ idle order after,
        [.apply (.armStart 3), .apply (.armStart 6)] = idle ++ order :: after ∧
          Fresh (unordered.take 5 ++ idle) order ∧ ∀ s ∈ after, s.disarms = false := by
  obtain ⟨hiff, -, hbetween⟩ := armed_iff_history unordered
  have hfresh : Fresh (unordered.take 6) (.apply (.armStart 6)) := by
    intro forced hmem
    simp [unordered] at hmem
    omega
  have harmed : (new.run unordered).2.armed = true :=
    hiff.mpr ⟨unordered.take 6, .apply (.armStart 6), [], rfl, hfresh, nofun⟩
  obtain ⟨idle, order, after, hsplit, horder, hafter⟩ :=
    hbetween (unordered.take 4) ⟨[⟨1, "ann", 0⟩]⟩ _ rfl harmed
  exact ⟨harmed, idle, order, after, hsplit, horder, hafter⟩

end RaceSteward.RaceControl
