import RaceSteward.Proofs.Race.Bookkeeping
import RaceSteward.Proofs.RaceControl.Races

/-!
# Messages that do not matter

A message that nobody waits for (`RaceControl.neutral`) has no effect on race control, and every other
message has one (`RaceControl.route_eq_self_iff`). Such messages can be left out of a run, all or some
of them: what race control says and where it ends stay the same (`RaceControl.run_without_neutral`).
-/

namespace RaceSteward.Race.Tracker

/-- The player whom an event is about. -/
def Event.player : Event → UInt32
  | .finish id | .disconnect id | .cheat id _ | .ball id => id

/-- Whom no event can touch: everyone between races, and during a race whoever has been decided. -/
theorem contains_eq_false_of_idle_or_decided {t : Tracker} {id : UInt32} (hsound : t.Sound)
    (honce : t.CountedOnce) (h : t.phase = .idle ∨ id ∈ t.decidedIds) :
    t.roster.contains id = false := by
  rw [← Bool.not_eq_true, Roster.contains_iff_mem_ids]
  intro hmem
  rcases h with hidle | hdecided
  · rw [(hsound hidle).roster] at hmem
    exact List.not_mem_nil hmem
  · exact (List.nodup_append.mp honce).2.2 id hdecided id hmem rfl

end RaceSteward.Race.Tracker

namespace RaceSteward.RaceControl

open Race (Tracker)
open Race.Tracker (Event)

/-- The step is a message that nobody waits for: one of a kind that race control does not follow, a
client list while no start is armed, a cheat flag that is cleared, or an event about someone who is
not on the roster. -/
def neutral (rc : RaceControl) : Step → Bool
  | .armStart | .forceStop | .apply _ => false
  | .route m =>
    match m with
    | .orderChat _ | .chat _ | .orderGlobalCheat _ | .globalCheat _ | .orderClientList _
    | .clientConnected _ | .ballState _ => true
    | .clientList _ => !rc.armed
    | .cheatState m => m.cheated = 0 || !rc.tracker.roster.contains m.playerId
    | .levelFinish m => !rc.tracker.roster.contains m.playerId
    | .clientDisconnected m => !rc.tracker.roster.contains m.playerId

variable {rc : RaceControl} {s : Step} {steps : List Step}

/-! ## One step -/

theorem route_event_eq_self_iff {m : Message} {e : Event} (h : eventOf m = some e) :
    rc.route m = (.silent, rc) ↔ rc.tracker.observe e = (none, rc.tracker) := by
  rw [route_of_event h]
  constructor
  · intro hself
    obtain ⟨hbulletin, hrc⟩ := Prod.mk.inj hself
    have hnone : (rc.tracker.observe e).1 = none := by
      rw [← (sent_publish (rc.tracker.observe e).1).1, hbulletin]
      rfl
    exact Prod.ext hnone (congrArg RaceControl.tracker hrc)
  · intro hself
    rw [hself]
    rfl

theorem route_eq_self_iff {m : Message} :
    rc.route m = (.silent, rc) ↔ rc.neutral (.route m) = true := by
  have hconclude : ∀ id verdict, rc.tracker.conclude id verdict = (none, rc.tracker) ↔
      (!rc.tracker.roster.contains id) = true :=
    fun id verdict => by rw [Tracker.conclude_eq_self_iff, Bool.not_eq_true']
  rcases m with _ | _ | _ | _ | list | _ | _ | m | m | _ | m
  case clientList =>
    rcases harmed : rc.armed with _ | _
    · rw [route_clientList_of_unarmed harmed]
      exact ⟨fun _ => congrArg Bool.not harmed, fun _ => rfl⟩
    · rw [route_clientList_of_armed harmed]
      constructor
      · intro hself
        have hfalse : false = rc.armed := congrArg (·.2.armed) hself
        rw [harmed] at hfalse
        cases hfalse
      · intro hneutral
        have hfalse : (!rc.armed) = true := hneutral
        rw [harmed] at hfalse
        cases hfalse
  case clientDisconnected =>
    refine (route_event_eq_self_iff rfl).trans ?_
    exact hconclude m.playerId (.out .logout)
  case cheatState =>
    refine (route_event_eq_self_iff rfl).trans ?_
    show (if m.cheated = 0 then (none, rc.tracker) else _) = _ ↔ (_ || _) = true
    split
    next hflag => exact ⟨fun _ => by rw [decide_eq_true hflag]; rfl, fun _ => rfl⟩
    next hflag =>
      rw [decide_eq_false hflag, Bool.false_or]
      exact hconclude m.playerId (.out .cheat)
  case levelFinish =>
    refine (route_event_eq_self_iff rfl).trans ?_
    exact hconclude m.playerId .finished
  all_goals exact ⟨fun _ => rfl, fun _ => rfl⟩

theorem step_of_neutral (h : rc.neutral s = true) : rc.step s = (.silent, rc) := by
  rcases s with _ | _ | order | m
  · cases h
  · cases h
  · cases h
  · exact route_eq_self_iff.mpr h

theorem neutral_of_absent {m : Message} {e : Event} (h : eventOf m = some e)
    (habsent : rc.tracker.roster.contains e.player = false) : rc.neutral (.route m) = true := by
  refine route_eq_self_iff.mp ((route_event_eq_self_iff h).mpr ?_)
  have hconclude : ∀ verdict, rc.tracker.conclude e.player verdict = (none, rc.tracker) :=
    fun verdict => Tracker.conclude_eq_self_iff.mpr habsent
  rcases e with id | id | ⟨id, flag⟩ | id
  · exact hconclude .finished
  · exact hconclude (.out .logout)
  · show (if flag = 0 then (none, rc.tracker) else _) = _
    split
    · rfl
    · exact hconclude (.out .cheat)
  · rfl

/-! ## Leaving out places of a list -/

section Without

variable {α β : Type} {deleted : Nat → Bool}

/-- The elements of a list but those at the deleted places. -/
def without (deleted : Nat → Bool) (l : List α) : List α :=
  (l.zipIdx.filter fun entry => !deleted entry.2).map (·.1)

theorem without_cons (deleted : Nat → Bool) (a : α) (l : List α) :
    without deleted (a :: l) =
      if deleted 0 then without (fun i => deleted (i + 1)) l
      else a :: without (fun i => deleted (i + 1)) l := by
  have hrest : ((l.zipIdx 1).filter fun entry => !deleted entry.2).map (·.1) =
      without (fun i => deleted (i + 1)) l := by
    rw [List.zipIdx_succ, List.filter_map, List.map_map]
    rfl
  rw [without, List.zipIdx_cons, List.filter_cons, ← hrest]
  rcases deleted 0 with _ | _ <;> rfl

theorem flatMap_without {f : α → List β} {l : List α}
    (h : ∀ i a, l[i]? = some a → deleted i = true → f a = []) :
    (without deleted l).flatMap f = l.flatMap f := by
  induction l generalizing deleted with
  | nil => rfl
  | cons a l ih =>
    have hrest := ih fun i b hi => h (i + 1) b hi
    rw [without_cons]
    split
    next hdeleted => rw [hrest, List.flatMap_cons, h 0 a rfl hdeleted, List.nil_append]
    next => rw [List.flatMap_cons, List.flatMap_cons, hrest]

end Without

/-! ## A run -/

/-- The step at this place of a run is neutral where the run has come to. -/
def neutralAt (rc : RaceControl) (steps : List Step) (i : Nat) : Bool :=
  steps[i]?.any (rc.run (steps.take i)).2.neutral

variable {deleted : Nat → Bool} {i : Nat}

theorem bulletin_of_neutralAt (h : rc.neutralAt steps i = true) :
    (rc.run steps).1[i]? = some .silent := by
  rcases hs : steps[i]? with _ | s
  · rw [neutralAt, hs] at h
    cases h
  · rw [neutralAt, hs, Option.any_some] at h
    rw [getElem?_run rc hs, step_of_neutral h]

theorem run_without (h : ∀ i, deleted i = true → rc.neutralAt steps i = true) :
    rc.run (without deleted steps) = (without deleted (rc.run steps).1, (rc.run steps).2) := by
  -- after the first step the places shift by one, and so does the set of the deleted ones
  induction steps generalizing rc deleted with
  | nil => rfl
  | cons s steps ih =>
    have hrest : (rc.step s).2.run (without (fun i => deleted (i + 1)) steps) = _ :=
      ih fun i hi => h (i + 1) hi
    rw [without_cons, run_cons, without_cons]
    split
    next hdeleted =>
      have hstep : rc.step s = (.silent, rc) := step_of_neutral (h 0 hdeleted)
      rw [hstep] at hrest ⊢
      exact hrest
    next => rw [run_cons, hrest]

/-- The steps of a run that are neutral where they happen say nothing, and any of them can be left
out. Among them is every event while no race is under way, and every event about someone who has
been decided already. -/
theorem run_without_neutral (steps : List Step) (deleted : Nat → Bool)
    (h : ∀ i, deleted i = true → new.neutralAt steps i = true) :
    let whole := new.run steps
    let left := new.run (without deleted steps)
    left = (without deleted whole.1, whole.2) ∧
      left.1.flatMap (·.sent) = whole.1.flatMap (·.sent) ∧
      left.1.flatMap (·.logged) = whole.1.flatMap (·.logged) ∧
      (∀ i, new.neutralAt steps i = true → whole.1[i]? = some .silent) ∧
      ∀ m e, eventOf m = some e →
        whole.2.tracker.phase = .idle ∨ e.player ∈ whole.2.tracker.decidedIds →
          whole.2.neutral (.route m) = true := by
  intro whole left
  have hleft : left = (without deleted whole.1, whole.2) := run_without h
  have hsilent : ∀ i b, whole.1[i]? = some b → deleted i = true → b = .silent := by
    intro i b hb hdeleted
    have hi : whole.1[i]? = some .silent := bulletin_of_neutralAt (h i hdeleted)
    exact Option.some.inj (hb.symm.trans hi)
  refine ⟨hleft, ?_, ?_, fun i => bulletin_of_neutralAt, fun m e he hout => ?_⟩
  · rw [hleft]
    refine flatMap_without fun i b hb hdeleted => ?_
    rw [hsilent i b hb hdeleted]
    rfl
  · rw [hleft]
    refine flatMap_without fun i b hb hdeleted => ?_
    rw [hsilent i b hb hdeleted]
    rfl
  · refine neutral_of_absent he (Tracker.contains_eq_false_of_idle_or_decided ?_ ?_ hout)
    · rw [(tracker_run new steps).1]
      exact Tracker.sound_run Tracker.sound_new _
    · rw [(tracker_run new steps).1]
      exact Tracker.CountedOnce.run (t := Tracker.new) List.nodup_nil Tracker.sound_new _

/-- A race of two that is talked into, with a flag that is cleared, with a player who leaves after
being decided, and with a list and an event after its end. -/
def heckled : List Step :=
  [.armStart, .route (.chat ⟨"go", 1⟩), .route (.clientList ⟨[⟨1, "ann", 0⟩, ⟨2, "bo", 0⟩]⟩),
    .route (.cheatState ⟨1, 1⟩), .route (.clientDisconnected ⟨1⟩), .route (.cheatState ⟨2, 0⟩),
    .route (.clientDisconnected ⟨2⟩), .route (.cheatState ⟨2, 1⟩),
    .route (.clientList ⟨[⟨3, "cy", 0⟩]⟩)]

/-- All of this but the event after the end is left out, and that could be. -/
theorem run_without_neutral_heckled :
    without (· ∈ [1, 4, 5, 8]) heckled =
        [.armStart, .route (.clientList ⟨[⟨1, "ann", 0⟩, ⟨2, "bo", 0⟩]⟩),
          .route (.cheatState ⟨1, 1⟩), .route (.clientDisconnected ⟨2⟩),
          .route (.cheatState ⟨2, 1⟩)] ∧
      (new.run (without (· ∈ [1, 4, 5, 8]) heckled)).1.flatMap (·.sent) =
        (new.run heckled).1.flatMap (·.sent) ∧
      (new.run heckled).1.flatMap (·.sent) =
        [.whoIsOnline, .chat ⟨"ann: DNF. Reason: Cheat", 0⟩, .chat ⟨"bo: DNF. Reason: Logout", 0⟩] ∧
      (new.run heckled).1[7]? = some .silent := by
  obtain ⟨-, hsent, -, hsilent, -⟩ :=
    run_without_neutral heckled (· ∈ [1, 4, 5, 8]) fun i hi => by
      have hmem : ∀ j ∈ [1, 4, 5, 8], new.neutralAt heckled j = true := by decide
      exact hmem i (of_decide_eq_true hi)
  exact ⟨rfl, hsent, by decide, hsilent 7 rfl⟩

end RaceSteward.RaceControl
