import RaceSteward.Proofs.Frame.Conveys
import RaceSteward.Proofs.Message.Length
import RaceSteward.Proofs.RaceControl.Races

/-!
# Places do not run out

The place of the next finisher is one more than the finishers of the race so far, and nobody is
counted twice, so it is at most one more than the entries of the list. A list that has come in a
frame has fewer entries than its limit has bytes, so the place never wraps and no finisher has place
0 (`RaceControl.places_of_run`).
-/

namespace RaceSteward

namespace Race

/-- Place 0 is for those who did not finish, and only for them. -/
def Rank.Fair (r : Rank) : Prop :=
  r.place = 0 ↔ r.reason ≠ .none

def Standings.Fair (s : Standings) : Prop :=
  ∀ r ∈ s.ranks, r.Fair

theorem Rank.Fair.render {r : Rank} (h : r.Fair) (hreason : r.reason = .none) :
    r.place ≠ 0 ∧ r.isFinisher = true ∧ r.render = s!"{r.nickname}: {r.place.toNat}" := by
  have hplace : r.place ≠ 0 := fun hzero => h.mp hzero hreason
  have hfinisher : r.isFinisher = true := decide_eq_true hplace
  exact ⟨hplace, hfinisher, by rw [Rank.render, if_pos hfinisher]⟩

theorem Roster.length_distinct_le (players : List Player) :
    (distinct players).length ≤ players.length := by
  induction players with
  | nil => exact Nat.le_refl 0
  | cons p players ih =>
    rw [distinct_cons, List.length_cons, List.length_cons]
    exact Nat.succ_le_succ (Nat.le_trans (List.length_filter_le ..) ih)

namespace Tracker

/-- The place of the next finisher, given the list with which the last race was started. -/
def Placing (last? : Option (List Player)) (place : UInt32) : Prop :=
  match last? with
  | none => place = 1
  | some players => 1 ≤ place.toNat ∧ place.toNat ≤ 1 + (Roster.distinct players).length

/-- A tracker whose next place and results are in order. -/
structure Numbered (last? : Option (List Player)) (t : Tracker) : Prop where
  kept : Kept last? t
  placing : Placing last? t.nextPlace

variable {last? : Option (List Player)} {players : List Player} {t : Tracker}

theorem Kept.fair (h : Kept last? t) : ∀ r ∈ t.decided, r.Fair := by
  intro r hr
  rcases h with hrest | ⟨players, -, -, htally⟩
  · rw [hrest.decided] at hr
    cases hr
  · exact (htally.reasons r hr).1

theorem nextPlace_stop (t : Tracker) : t.stop.2.nextPlace = t.nextPlace := by
  unfold stop
  split <;> rfl

theorem fair_stop (h : ∀ r ∈ t.decided, r.Fair) : ∀ s ∈ t.stop.1, s.Fair := by
  intro s hs r hr
  rcases hphase : t.phase with _ | _
  · rw [stop_of_idle hphase] at hs
    cases hs
  · rw [stop_of_recording hphase] at hs
    cases hs
    rcases List.mem_append.mp hr with hr | hr
    · exact h r hr
    · obtain ⟨p, -, rfl⟩ := List.mem_map.mp hr
      exact ⟨fun _ => nofun, fun _ => rfl⟩

theorem Tally.placing_settle (h : Tally players t)
    (hlen : (Roster.distinct players).length < 4294967295) {p : Player} (hp : p ∈ t.roster.players)
    (verdict : Verdict) : Placing (some players) (t.settle p verdict).nextPlace := by
  have hnext := h.nextPlace_settle hlen hp verdict
  have hplaced : (t.settle p verdict).placed.length ≤ (t.settle p verdict).decided.length :=
    List.length_filter_le ..
  have hdecided : (t.settle p verdict).decided.length = t.decided.length + 1 :=
    List.length_append
  have hroster := List.length_pos_of_mem hp
  have htotal := h.length_eq
  constructor <;> omega

theorem Numbered.observe (h : Numbered last? t) (e : Event) :
    Placing last? (t.observe e).2.nextPlace ∧ ∀ s ∈ (t.observe e).1, s.Fair := by
  rcases observe_cases t e with hsame | ⟨p, hp, verdict, he, hsettled⟩
  · rw [hsame]
    exact ⟨h.placing, nofun⟩
  · rcases h.kept with hrest | ⟨players, rfl, hlen, htally⟩
    · rw [hrest.roster] at hp
      exact absurd hp List.not_mem_nil
    · have hplacing := htally.placing_settle hlen hp verdict
      have hfair : ∀ r ∈ (t.settle p verdict).decided, r.Fair := by
        intro r hr
        refine (htally.reasons_settle hp ?_ r hr).1
        rintro reason rfl
        exact Event.reason_of_verdict? he
      rw [hsettled]
      split
      · exact ⟨by rw [nextPlace_stop]; exact hplacing, fair_stop hfair⟩
      · exact ⟨hplacing, nofun⟩

theorem Numbered.step (h : Numbered last? t) (op : Op)
    (hlen : ∀ players ∈ op.started?, (Roster.distinct players).length < 4294967295) :
    Numbered (op.started?.or last?) (t.step op).2 ∧ ∀ s ∈ (t.step op).1, s.Fair := by
  have hkept := h.kept.step op hlen
  cases op with
  | start players =>
    have hplace : Placing (some players) 1 := ⟨Nat.le_refl 1, Nat.le_add_right ..⟩
    exact ⟨⟨hkept, hplace⟩, fair_stop h.kept.fair⟩
  | stop =>
    have hplacing : Placing last? t.stop.2.nextPlace := by
      rw [nextPlace_stop]
      exact h.placing
    exact ⟨⟨hkept, hplacing⟩, fair_stop h.kept.fair⟩
  | observe e =>
    obtain ⟨hplacing, hfair⟩ := h.observe e
    exact ⟨⟨hkept, hplacing⟩, hfair⟩

theorem Numbered.run (h : Numbered last? t) (ops : List Op)
    (hlen : ∀ players ∈ lists ops, (Roster.distinct players).length < 4294967295) :
    Numbered ((lists ops).getLast?.or last?) (t.run ops).2 ∧
      ∀ s, some s ∈ (t.run ops).1 → s.Fair := by
  induction ops generalizing t last? with
  | nil => exact ⟨h, fun s hs => by cases hs⟩
  | cons op ops ih =>
    rw [lists_cons, List.forall_mem_append] at hlen
    obtain ⟨hnext, hfair⟩ := h.step op fun players hp => hlen.1 players (Option.mem_toList.mpr hp)
    obtain ⟨hlast, hrest⟩ := ih hnext hlen.2
    rw [getLast?_lists_cons]
    refine ⟨hlast, fun s hs => ?_⟩
    rcases List.mem_cons.mp hs with hs | hs
    · exact hfair s hs.symm
    · exact hrest s hs

end Tracker

end Race

/-! ## Over the wire -/

/-- The message has come as a frame below the limit, at the front of some stream. -/
def Message.OverWire (limit : UInt32) (m : Message) : Prop :=
  ∃ stream payload rest, Frame.next limit stream = .whole payload rest ∧
    Message.decode payload = .ok m

theorem Message.overWire_of_decode {limit : UInt32} {m : Message} (h : decode m.encode = .ok m)
    (hlength : m.encode.length < limit.toNat) : m.OverWire limit :=
  ⟨Frame.encode m.encode ++ [], m.encode, [], Frame.next_encode hlength [], h⟩

theorem Message.OverWire.length_lt {limit : UInt32} {list : ClientList}
    (h : (Message.clientList list).OverWire limit) :
    8 + 9 * list.players.length < limit.toNat := by
  obtain ⟨stream, payload, rest, hnext, hdecode⟩ := h
  have hpayload := (Frame.next_eq_whole_iff.mp hnext).2
  have hencode := (encode_prefix_of_decode hdecode).length_le
  have hplayers : 9 * list.players.length ≤ (list.players.flatMap Player.layout.write).length :=
    Player.minSize_mul_le list.players
  rw [length_encode_clientList] at hencode
  omega

namespace RaceControl

open Race (Roster Rank Standings Tracker)

theorem exists_of_mem_taken {rc : RaceControl} {steps : List Step} {players : List Player}
    (h : players ∈ rc.taken steps) :
    ∃ list, .route (.clientList list) ∈ steps ∧ list.players = players := by
  induction steps generalizing rc with
  | nil => cases h
  | cons s steps ih =>
    rcases List.mem_append.mp h with htaken | hlater
    · obtain ⟨rfl, -⟩ := taken?_eq_some_iff.mp (Option.mem_toList.mp htaken)
      exact ⟨_, List.mem_cons_self, rfl⟩
    · obtain ⟨list, hmem, hplayers⟩ := ih hlater
      exact ⟨list, List.mem_cons_of_mem _ hmem, hplayers⟩

/-- If every message that is routed has come over the wire, no race has more players than a frame
has bytes. So the place of a finisher never wraps, and is announced. -/
theorem places_of_run {limit : UInt32} {steps : List Step}
    (h : ∀ m, .route m ∈ steps → m.OverWire limit) :
    let rc := (new.run steps).2
    let place := rc.tracker.nextPlace
    ((new.taken steps = [] ∧ place = 1) ∨
      ∃ players, (new.taken steps).getLast? = some players ∧ 1 ≤ place.toNat ∧
        place.toNat ≤ 1 + players.length ∧ 8 + 9 * players.length < limit.toNat) ∧
      (place + 1).toNat = place.toNat + 1 ∧
      ∀ r : Rank, (r ∈ rc.tracker.decided ∨ ∃ s ∈ new.published steps, r ∈ s.ranks) →
        r.reason = .none →
          r.place ≠ 0 ∧ r.isFinisher = true ∧ r.render = s!"{r.nickname}: {r.place.toNat}" := by
  intro rc place
  -- a list that came in a frame is short, so its race cannot run out of places
  have hshort : ∀ players ∈ new.taken steps, 8 + 9 * players.length < limit.toNat := by
    intro players hp
    obtain ⟨list, hmem, rfl⟩ := exists_of_mem_taken hp
    exact (h _ hmem).length_lt
  have hlimit := limit.toNat_lt
  have hlen : ∀ players ∈ Tracker.lists (new.ops steps),
      (Roster.distinct players).length < 4294967295 := by
    intro players hp
    rw [lists_ops] at hp
    have hless := hshort players hp
    have hdistinct := Roster.length_distinct_le players
    omega
  obtain ⟨htracker, hpublished⟩ := new.tracker_run steps
  have hnew : Tracker.Numbered none new.tracker := ⟨.inl ⟨rfl, rfl, rfl⟩, rfl⟩
  obtain ⟨⟨hkept, hplacing⟩, hfair⟩ := hnew.run (new.ops steps) hlen
  rw [← htracker] at hkept hplacing
  rw [lists_ops, Option.or_none] at hplacing
  have hbounds : (new.taken steps = [] ∧ place = 1) ∨
      ∃ players, (new.taken steps).getLast? = some players ∧ 1 ≤ place.toNat ∧
        place.toNat ≤ 1 + players.length ∧ 8 + 9 * players.length < limit.toNat := by
    rcases hlast : (new.taken steps).getLast? with _ | players
    · rw [hlast] at hplacing
      exact .inl ⟨List.getLast?_eq_none_iff.mp hlast, hplacing⟩
    · rw [hlast] at hplacing
      have hdistinct := Roster.length_distinct_le players
      have hless := hshort players (List.mem_of_getLast? hlast)
      exact .inr ⟨players, rfl, hplacing.1, Nat.le_trans hplacing.2 (by omega), hless⟩
  refine ⟨hbounds, ?_, ?_⟩
  · have hbelow : place.toNat + 1 < 4294967296 := by
      rcases hbounds with ⟨-, hone⟩ | ⟨players, -, -, hle, hless⟩
      · rw [hone]
        decide
      · omega
    rw [UInt32.toNat_add, UInt32.toNat_one]
    omega
  · intro r hr hreason
    refine Rank.Fair.render ?_ hreason
    rcases hr with hr | ⟨s, hs, hr⟩
    · exact hkept.fair r hr
    · rw [hpublished, List.mem_filterMap] at hs
      obtain ⟨yield, hyield, hs⟩ := hs
      exact hfair s (hs ▸ hyield) r hr

/-- A list with a doubled id; one player finishes, the other leaves, and that ends the race. -/
def contested : List Step :=
  [.armStart, .route (.clientList ⟨[⟨1, "ann", 0⟩, ⟨2, "bo", 0⟩, ⟨1, "eve", 0⟩]⟩),
    .route (.levelFinish ⟨2, 0, 0, 0, 0, ⟨0⟩, 0, 1, 0⟩), .route (.clientDisconnected ⟨1⟩)]

theorem places_of_run_contested :
    (∀ m, .route m ∈ contested → m.OverWire 2048) ∧ (new.taken contested).length = 1 ∧
      (new.run contested).2.tracker.nextPlace = 2 ∧
      ((new.run contested).2.tracker.nextPlace + 1).toNat = 3 ∧
      (⟨2, "bo", 1, .none⟩ : Rank).render = "bo: 1" := by
  have hwire : ∀ m, .route m ∈ contested → m.OverWire 2048 := by
    intro m hm
    simp only [contested, List.mem_cons, Step.route.injEq, List.not_mem_nil, reduceCtorEq,
      or_false, false_or] at hm
    rcases hm with rfl | rfl | rfl
    · exact Message.overWire_of_decode rfl (by decide)
    · exact Message.overWire_of_decode rfl (by decide)
    · exact Message.overWire_of_decode rfl (by decide)
  obtain ⟨-, hnext, hfinisher⟩ := places_of_run hwire
  have hplace : (new.run contested).2.tracker.nextPlace = 2 := rfl
  rw [hplace] at hnext ⊢
  have hrank := hfinisher ⟨2, "bo", 1, .none⟩ (.inr ⟨_, List.mem_singleton.mpr rfl, by decide⟩) rfl
  exact ⟨hwire, rfl, rfl, hnext, hrank.2.2⟩

end RaceControl

end RaceSteward
