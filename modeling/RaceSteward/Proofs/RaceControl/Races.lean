import RaceSteward.Proofs.Race.Ledger
import RaceSteward.Proofs.Race.Logged
import RaceSteward.Proofs.RaceControl.Orders

/-!
# The races of race control

Race control publishes the standings of every race once, in the order in which the races started, and
says nothing else but the question of each start that is armed.

* `RaceControl.step_of_op` and `RaceControl.step_of_no_op`: what a step does to the tracker, and what
  it says.
* `RaceControl.races_of_run`: the account of a whole run.
-/

namespace RaceSteward.RaceControl

open Race (Roster Rank Standings Tracker Ledger Recorded)

/-! ## What a step does -/

/-- The client list that a step takes as the list of a race. -/
def taken? (rc : RaceControl) : Step → Option (List Player)
  | .route (.clientList list) => if rc.armed then some list.players else none
  | _ => none

/-- The step arms a start; an order from before the last forced finish does not. -/
def Arms (rc : RaceControl) : Step → Prop
  | .armStart => True
  | .apply (.armStart epoch) => rc.epoch ≤ epoch
  | _ => False

/-- What a step does to the tracker, if anything. -/
def op? (rc : RaceControl) : Step → Option Tracker.Op
  | .armStart | .apply (.armStart _) => none
  | .forceStop | .apply (.forceStop _) => some .stop
  | .route (.clientList list) => if rc.armed then some (.start list.players) else none
  | .route m => (eventOf m).map .observe

variable {rc : RaceControl} {s : Step}

theorem op?_clientList (rc : RaceControl) (list : ClientList) :
    rc.op? (.route (.clientList list)) =
      if rc.armed then some (.start list.players) else none := rfl

theorem op?_route {m : Message} (hlist : ∀ list, m ≠ .clientList list) (rc : RaceControl) :
    rc.op? (.route m) = (eventOf m).map .observe := by
  cases m with
  | clientList list => exact absurd rfl (hlist list)
  | _ => rfl

theorem taken?_eq_some_iff {players : List Player} :
    rc.taken? s = some players ↔ s = .route (.clientList ⟨players⟩) ∧ rc.armed = true := by
  constructor
  · intro h
    unfold taken? at h
    split at h
    · rw [Option.ite_none_right_eq_some] at h
      obtain ⟨harmed, hplayers⟩ := h
      cases hplayers
      exact ⟨rfl, harmed⟩
    · cases h
  · rintro ⟨rfl, harmed⟩
    exact if_pos harmed

theorem started?_op? (rc : RaceControl) (s : Step) :
    (rc.op? s).bind Tracker.Op.started? = rc.taken? s := by
  cases s with
  | apply order => cases order <;> rfl
  | route m =>
    cases m with
    | clientList list =>
      rw [op?_clientList, taken?]
      split <;> rfl
    | _ => rfl
  | _ => rfl

theorem step_of_op {op : Tracker.Op} (h : rc.op? s = some op) :
    ¬ rc.Arms s ∧ (rc.step s).1 = .publish (rc.tracker.step op).1 ∧
      (rc.step s).2.tracker = (rc.tracker.step op).2 := by
  cases s with
  | armStart => cases h
  | forceStop =>
    cases h
    exact ⟨id, rfl, rfl⟩
  | apply order =>
    cases order with
    | armStart epoch => cases h
    | forceStop epoch =>
      cases h
      exact ⟨id, rfl, rfl⟩
  | route m =>
    refine ⟨id, ?_⟩
    change (rc.route m).1 = _ ∧ (rc.route m).2.tracker = _
    by_cases hlist : ∃ list, m = .clientList list
    · obtain ⟨list, rfl⟩ := hlist
      rw [op?_clientList, Option.ite_none_right_eq_some] at h
      obtain ⟨harmed, hop⟩ := h
      cases hop
      rw [route_clientList_of_armed harmed]
      exact ⟨rfl, rfl⟩
    · rw [op?_route fun list hm => hlist ⟨list, hm⟩] at h
      obtain ⟨e, he, rfl⟩ := Option.map_eq_some_iff.mp h
      rw [route_of_event he]
      exact ⟨rfl, rfl⟩

theorem step_of_no_op (h : rc.op? s = none) :
    (rc.step s).2.tracker = rc.tracker ∧
      (rc.Arms s ∧ (rc.step s).1 = ⟨[.whoIsOnline], none⟩ ∧ (rc.step s).2.armed = true ∨
        ¬ rc.Arms s ∧ (rc.step s).1 = .silent) := by
  cases s with
  | armStart => exact ⟨rfl, .inl ⟨trivial, rfl, rfl⟩⟩
  | forceStop => cases h
  | apply order =>
    cases order with
    | armStart epoch =>
      change (rc.apply _).2.tracker = _ ∧
        (_ ∧ (rc.apply _).1 = _ ∧ (rc.apply _).2.armed = _ ∨ _ ∧ (rc.apply _).1 = _)
      rcases Nat.lt_or_ge epoch rc.epoch with hstale | hfresh
      · rw [apply_armStart_of_lt hstale]
        exact ⟨rfl, .inr ⟨Nat.not_le.mpr hstale, rfl⟩⟩
      · rw [apply_armStart_of_le hfresh]
        exact ⟨rfl, .inl ⟨hfresh, rfl, rfl⟩⟩
    | forceStop epoch => cases h
  | route m =>
    have hroute : rc.route m = (.silent, rc) := by
      by_cases hlist : ∃ list, m = .clientList list
      · obtain ⟨list, rfl⟩ := hlist
        rw [op?_clientList, ite_eq_right_iff] at h
        exact route_clientList_of_unarmed (Bool.eq_false_iff.mpr fun harmed => nomatch h harmed) list
      · have hother : ∀ list, m ≠ .clientList list := fun list hm => hlist ⟨list, hm⟩
        rw [op?_route hother, Option.map_eq_none_iff] at h
        exact route_of_no_event h hother rc
    change (rc.route m).2.tracker = _ ∧
      (_ ∧ (rc.route m).1 = _ ∧ (rc.route m).2.armed = _ ∨ _ ∧ (rc.route m).1 = _)
    rw [hroute]
    exact ⟨rfl, .inr ⟨id, rfl⟩⟩

theorem published_of_no_op (h : rc.op? s = none) : (rc.step s).1.published = none := by
  rcases (step_of_no_op h).2 with ⟨-, hbulletin, -⟩ | ⟨-, hbulletin⟩
  · rw [hbulletin]
  · rw [hbulletin]
    rfl

theorem sent_publish (standings : Option Standings) :
    (Bulletin.publish standings).published = standings ∧
      (Bulletin.publish standings).sent =
        standings.toList.flatMap fun s => s.ranks.map fun r => .chat ⟨r.render, 0⟩ := by
  cases standings with
  | none => exact ⟨rfl, rfl⟩
  | some s => exact ⟨rfl, (List.append_nil _).symm⟩

theorem sent_step (rc : RaceControl) (s : Step) :
    (rc.Arms s → (rc.step s).1 = ⟨[.whoIsOnline], none⟩ ∧ (rc.step s).2.armed = true) ∧
      (¬ rc.Arms s → (rc.step s).1.sent = (rc.step s).1.published.toList.flatMap
        fun s => s.ranks.map fun r => .chat ⟨r.render, 0⟩) := by
  cases hop : rc.op? s with
  | none =>
    rcases (step_of_no_op hop).2 with ⟨harms, harmed⟩ | ⟨hnot, hbulletin⟩
    · exact ⟨fun _ => harmed, fun hnot => absurd harms hnot⟩
    · refine ⟨fun harms => absurd harms hnot, fun _ => ?_⟩
      rw [hbulletin]
      rfl
  | some op =>
    obtain ⟨hnot, hbulletin, -⟩ := step_of_op hop
    obtain ⟨hpublished, hsent⟩ := sent_publish (rc.tracker.step op).1
    refine ⟨fun harms => absurd harms hnot, fun _ => ?_⟩
    rw [hbulletin, hpublished]
    exact hsent

theorem ofText?_logged (bulletin : Bulletin) :
    bulletin.logged.map Standings.ofText? = bulletin.published.toList.map some := by
  rw [Bulletin.logged, List.map_map]
  exact List.map_congr_left fun standings _ => standings.ofText?_toText

/-! ## Along a run -/

/-- The client lists that a run takes, in order. -/
def taken (rc : RaceControl) : List Step → List (List Player)
  | [] => []
  | s :: steps => (rc.taken? s).toList ++ taken (rc.step s).2 steps

/-- The standings that a run publishes, in order. -/
def published (rc : RaceControl) (steps : List Step) : List Standings :=
  (rc.run steps).1.filterMap (·.published)

/-- What a run does to the tracker. -/
def ops (rc : RaceControl) : List Step → List Tracker.Op
  | [] => []
  | s :: steps => (rc.op? s).toList ++ ops (rc.step s).2 steps

theorem run_cons (rc : RaceControl) (s : Step) (steps : List Step) :
    rc.run (s :: steps) =
      ((rc.step s).1 :: ((rc.step s).2.run steps).1, ((rc.step s).2.run steps).2) := rfl

theorem run_append (rc : RaceControl) (steps later : List Step) :
    (rc.run (steps ++ later)).2 = ((rc.run steps).2.run later).2 := by
  induction steps generalizing rc with
  | nil => rfl
  | cons s steps ih => exact ih (rc.step s).2

theorem published_cons (rc : RaceControl) (s : Step) (steps : List Step) :
    rc.published (s :: steps) =
      (rc.step s).1.published.toList ++ (rc.step s).2.published steps := by
  rw [published, run_cons, List.filterMap_cons]
  cases (rc.step s).1.published <;> rfl

theorem lists_ops (rc : RaceControl) (steps : List Step) :
    Tracker.lists (rc.ops steps) = rc.taken steps := by
  induction steps generalizing rc with
  | nil => rfl
  | cons s steps ih =>
    rw [ops, taken, ← ih, ← started?_op?, Tracker.lists, List.filterMap_append]
    congr 1
    cases rc.op? s with
    | none => rfl
    | some op => cases hstarted : op.started? <;> simp [hstarted]

theorem tracker_run (rc : RaceControl) (steps : List Step) :
    (rc.run steps).2.tracker = (rc.tracker.run (rc.ops steps)).2 ∧
      rc.published steps = (rc.tracker.run (rc.ops steps)).1.filterMap id := by
  induction steps generalizing rc with
  | nil => exact ⟨rfl, rfl⟩
  | cons s steps ih =>
    obtain ⟨htracker, hpublished⟩ := ih (rc.step s).2
    rw [run_cons, published_cons, ops, hpublished]
    cases hop : rc.op? s with
    | none =>
      rw [(step_of_no_op hop).1] at htracker ⊢
      exact ⟨htracker, by rw [published_of_no_op hop]; rfl⟩
    | some op =>
      obtain ⟨-, hbulletin, hstep⟩ := step_of_op hop
      rw [hstep] at htracker ⊢
      refine ⟨htracker, ?_⟩
      rw [hbulletin, (sent_publish _).1]
      cases hyield : (rc.tracker.step op).1 <;> simp [Tracker.run, hyield]

theorem getElem?_run (rc : RaceControl) {steps : List Step} {i : Nat} (h : steps[i]? = some s) :
    (rc.run steps).1[i]? = some ((rc.run (steps.take i)).2.step s).1 := by
  induction steps generalizing rc i with
  | nil => cases h
  | cons first steps ih =>
    cases i with
    | zero =>
      cases h
      rfl
    | succ i => exact ih _ h

variable {l : Ledger} {yielded : List Standings}

/-- The ledger of what has been done to the tracker stays true. -/
theorem recorded_step (h : Recorded l yielded rc.tracker) (s : Step)
    (hlen : ∀ players ∈ rc.taken? s, (Roster.distinct players).length < 4294967295) :
    Recorded ((rc.op? s).toList.foldl Ledger.note l)
      (yielded ++ (rc.step s).1.published.toList) (rc.step s).2.tracker := by
  rw [← started?_op?] at hlen
  cases hop : rc.op? s with
  | none =>
    rw [(step_of_no_op hop).1, published_of_no_op hop]
    exact (List.append_nil yielded).symm ▸ h
  | some op =>
    obtain ⟨-, hbulletin, htracker⟩ := step_of_op hop
    rw [hop] at hlen
    rw [htracker, hbulletin, (sent_publish _).1]
    exact h.step op hlen

theorem recorded_run (h : Recorded l yielded rc.tracker) (steps : List Step)
    (hlen : ∀ players ∈ rc.taken steps, (Roster.distinct players).length < 4294967295) :
    Recorded ((rc.ops steps).foldl Ledger.note l) (yielded ++ rc.published steps)
      (rc.run steps).2.tracker := by
  induction steps generalizing rc l yielded with
  | nil =>
    rw [show rc.published [] = [] from rfl, List.append_nil]
    exact h
  | cons s steps ih =>
    rw [taken, List.forall_mem_append] at hlen
    rw [ops, List.foldl_append, published_cons, ← List.append_assoc]
    exact ih (recorded_step h s fun players hp => hlen.1 players (Option.mem_toList.mpr hp)) hlen.2

/-- The client lists that a run takes open the races of its ledger, and all of them but the one
under way have been published, in order, each once, in chat lines and in one logged text that
records them. -/
theorem races_of_run (steps : List Step)
    (h : ∀ players ∈ new.taken steps, (Roster.distinct players).length < 4294967295) :
    let taken := new.taken steps
    let published := new.published steps
    let ledger := Ledger.ofOps (new.ops steps)
    let recording := (new.run steps).2.tracker.isRecording
    taken = ledger.races.map (·.players) ∧ ledger.current.isSome = recording ∧
      taken.length = published.length + (if recording then 1 else 0) ∧
      (∀ (i : Nat) standings, published[i]? = some standings →
        ∃ race, ledger.races[i]? = some race ∧ taken[i]? = some race.players ∧
          standings.ranks.map Rank.line = race.official ∧
          (standings.ranks.map (·.id)).Perm ((Roster.distinct race.players).map (·.id))) ∧
      ∀ (i : Nat) s, steps[i]? = some s →
        let rc := (new.run (steps.take i)).2
        ∃ bulletin, (new.run steps).1[i]? = some bulletin ∧
          (rc.Arms s → bulletin = ⟨[.whoIsOnline], none⟩ ∧ (rc.step s).2.armed = true) ∧
          (¬ rc.Arms s → bulletin.sent = bulletin.published.toList.flatMap
            fun standings => standings.ranks.map fun r => .chat ⟨r.render, 0⟩) ∧
          bulletin.logged.map Standings.ofText? = bulletin.published.toList.map some := by
  intro taken published ledger recording
  have hnew : Recorded .empty [] new.tracker := Recorded.new
  have hrecorded : Recorded ledger published (new.run steps).2.tracker :=
    recorded_run hnew steps h
  have htaken : taken = ledger.races.map (·.players) := by
    have hplayers := Ledger.empty.players_foldl (new.ops steps)
    rw [lists_ops] at hplayers
    exact hplayers.symm
  refine ⟨htaken, hrecorded.isSome_current, ?_, ?_, ?_⟩
  · rw [htaken, List.length_map, hrecorded.length_races, hrecorded.isSome_current]
  · intro i standings hi
    obtain ⟨race, hrace, hofficial, hids⟩ := hrecorded.getElem? hi
    refine ⟨race, hrace, ?_, hofficial, hids⟩
    rw [htaken, List.getElem?_map, hrace, Option.map_some]
  · intro i s hi rc
    obtain ⟨harms, hnot⟩ := sent_step rc s
    exact ⟨_, getElem?_run new hi, harms, hnot, ofText?_logged _⟩

/-- A stale order and a list that nobody waits for; then a race with a doubled id that the next one
replaces, one that its last player ends, and one that is still under way. -/
def restarted : List Step :=
  [.apply (.forceStop 2), .apply (.armStart 1), .route (.clientList ⟨[⟨9, "di", 0⟩]⟩), .armStart,
    .route (.clientList ⟨[⟨1, "ann", 0⟩, ⟨2, "bo", 0⟩, ⟨1, "eve", 0⟩]⟩),
    .route (.cheatState ⟨2, 1⟩), .apply (.armStart 2), .route (.clientList ⟨[⟨3, "cy", 0⟩]⟩),
    .route (.clientDisconnected ⟨3⟩), .armStart, .route (.clientList ⟨[⟨4, "ed", 0⟩]⟩)]

theorem races_of_run_restarted :
    (new.taken restarted).length = 3 ∧ (new.published restarted).length = 2 ∧
      ∃ standings, (new.published restarted)[0]? = some standings ∧
        standings.ranks.map Rank.line = [⟨2, "bo", 0, .cheat⟩, ⟨1, "ann", 0, .timeout⟩] ∧
        ∃ bulletin, (new.run restarted).1[7]? = some bulletin ∧
          bulletin.logged.map Standings.ofText? = [some standings] := by
  obtain ⟨-, -, hlength, hraces, hsteps⟩ := races_of_run restarted (by decide)
  have hrecording : (new.run restarted).2.tracker.isRecording = true := by decide
  have htaken : (new.taken restarted).length = 3 := by decide
  rw [hrecording, if_pos rfl, htaken] at hlength
  have hpublished : (new.published restarted).length = 2 := by omega
  refine ⟨htaken, hpublished, _, List.getElem?_eq_getElem (by omega), ?_, ?_⟩
  · obtain ⟨race, hrace, -, hofficial, -⟩ := hraces 0 _ (List.getElem?_eq_getElem (by omega))
    cases hrace
    exact hofficial
  · obtain ⟨bulletin, hbulletin, -, -, hlogged⟩ := hsteps 7 _ rfl
    refine ⟨bulletin, hbulletin, ?_⟩
    cases hbulletin
    exact hlogged

end RaceSteward.RaceControl
