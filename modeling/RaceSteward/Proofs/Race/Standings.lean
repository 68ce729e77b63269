import RaceSteward.Proofs.Race.Tracker

/-!
# The standings of a race, from its events

What a race yields is a function of its players and its events: each player of the field is decided
by the first event that says something about them, finishers take the places in the order of their
events, and whoever is not decided has run out of time (`official`).

* `Tracker.standings_of_race`: a tracker yields exactly these standings, once for each race.

`Follows` ties the state of a tracker to the events since the start; one event keeps it
(`Follows.settle`) or leaves everything as it is (`Follows.observe_of_forall`).
-/

namespace RaceSteward.Race

open Tracker (Verdict Event)

/-! ## Standings as a function of the events -/

/-- A line of the standings, its place a number. -/
structure Line where
  id : UInt32
  nickname : String
  place : Nat
  reason : DnfReason
  deriving DecidableEq, Repr

def Rank.line (r : Rank) : Line := ⟨r.id, r.nickname, r.place.toNat, r.reason⟩

/-- The event decides how the race of the player with this id ends. -/
def Tracker.Event.decides (e : Event) (id : UInt32) : Bool :=
  e.verdict?.any (·.1 = id)

/-- The player of the field whom an event decides, and how. -/
def ruling? (field : List Player) (e : Event) : Option (Player × Verdict) := do
  let (id, verdict) ← e.verdict?
  let p ← field.find? (·.id = id)
  some (p, verdict)

/-- The rulings that count: the first one about each player. -/
def rulings (field : List Player) (events : List Event) : List (Player × Verdict) :=
  firsts (·.1.id) (events.filterMap (ruling? field))

/-- The players of the field whom no event decides. -/
def undecided (field : List Player) (events : List Event) : List Player :=
  field.filter fun p => !events.any (·.decides p.id)

/-- The lines of rulings, when so many places are taken already. -/
def lines (taken : Nat) : List (Player × Verdict) → List Line
  | [] => []
  | (p, .finished) :: more => ⟨p.id, p.nickname, taken + 1, .none⟩ :: lines (taken + 1) more
  | (p, .out reason) :: more => ⟨p.id, p.nickname, 0, reason⟩ :: lines taken more

/-- Everyone decided, in the order of the events, then everyone else, in the order of the field. -/
def official (field : List Player) (events : List Event) : List Line :=
  lines 0 (rulings field events) ++
    (undecided field events).map fun p => ⟨p.id, p.nickname, 0, .timeout⟩

/-- There was a field, and all of it has been decided. -/
def Over (field : List Player) (events : List Event) : Prop :=
  field ≠ [] ∧ undecided field events = []

/-! ## One more event -/

/-- How many rulings are about finishers. -/
def finishers (rs : List (Player × Verdict)) : Nat :=
  rs.countP (·.2 = .finished)

theorem lines_concat (taken : Nat) (rs : List (Player × Verdict)) (r : Player × Verdict) :
    lines taken (rs ++ [r]) = lines taken rs ++ lines (taken + finishers rs) [r] := by
  induction rs generalizing taken with
  | nil => rfl
  | cons q rs ih =>
    obtain ⟨p, verdict⟩ := q
    cases verdict with
    | finished =>
      have hcount : finishers ((p, .finished) :: rs) = finishers rs + 1 :=
        List.countP_cons_of_pos (by simp)
      rw [hcount, List.cons_append, lines, lines, ih, List.cons_append]
      congr 3
      omega
    | out reason =>
      have hcount : finishers ((p, .out reason) :: rs) = finishers rs :=
        List.countP_cons_of_neg (by simp)
      rw [hcount, List.cons_append, lines, lines, ih, List.cons_append]

theorem Tracker.Event.decides_iff {e : Event} {id : UInt32} :
    e.decides id = true ↔ ∃ verdict, e.verdict? = some (id, verdict) := by
  cases h : e.verdict? with
  | none => simp [decides, h]
  | some ruling =>
    obtain ⟨id', verdict⟩ := ruling
    simp [decides, h]

theorem Tracker.Event.decides_of_verdict? {e : Event} {id : UInt32} {verdict : Verdict}
    (h : e.verdict? = some (id, verdict)) (id' : UInt32) : e.decides id' = decide (id = id') := by
  rw [decides, h]
  rfl

theorem ruling?_eq_some_iff {field : List Player} {e : Event} {p : Player} {verdict : Verdict} :
    ruling? field e = some (p, verdict) ↔
      ∃ id, e.verdict? = some (id, verdict) ∧ field.find? (·.id = id) = some p := by
  cases h : e.verdict? with
  | none => simp [ruling?, h]
  | some ruling =>
    obtain ⟨id, verdict'⟩ := ruling
    cases hfind : field.find? (·.id = id) with
    | none => simp [ruling?, h, hfind]
    | some q =>
      constructor
      · intro hr
        simp only [ruling?, h, hfind, Option.bind_eq_bind, Option.bind_some, Option.some.injEq,
          Prod.mk.injEq] at hr
        obtain ⟨rfl, rfl⟩ := hr
        exact ⟨id, rfl, hfind⟩
      · rintro ⟨id', hid, hq⟩
        cases hid
        rw [hfind] at hq
        cases hq
        simp [ruling?, h, hfind]

theorem undecided_concat (field : List Player) (events : List Event) (e : Event) :
    undecided field (events ++ [e]) = (undecided field events).filter (!e.decides ·.id) := by
  rw [undecided, undecided, List.filter_filter]
  apply List.filter_congr
  intro p _
  simp [List.any_append, Bool.and_comm]

theorem undecided_nil (field : List Player) : undecided field [] = field :=
  List.filter_eq_self.mpr fun _ _ => rfl

theorem mem_undecided {field : List Player} {events : List Event} {p : Player} :
    p ∈ undecided field events ↔ p ∈ field ∧ ∀ e ∈ events, e.decides p.id = false := by
  simp [undecided]

theorem rulings_concat_of_some {field : List Player} {e : Event} {p : Player} {verdict : Verdict}
    (h : ruling? field e = some (p, verdict)) (events : List Event) :
    rulings field (events ++ [e]) =
      if (events.filterMap (ruling? field)).any (·.1.id = p.id) then rulings field events
      else rulings field events ++ [(p, verdict)] := by
  have hlast : [e].filterMap (ruling? field) = [(p, verdict)] := by
    rw [List.filterMap_cons_some h, List.filterMap_nil]
  rw [rulings, List.filterMap_append, hlast, firsts_concat]
  rfl

theorem rulings_concat_of_forall {field : List Player} {events : List Event} {e : Event}
    (h : ∀ p ∈ undecided field events, e.decides p.id = false) :
    rulings field (events ++ [e]) = rulings field events := by
  cases hr : ruling? field e with
  | none =>
    rw [rulings, List.filterMap_append, List.filterMap_cons_none hr, List.filterMap_nil,
      List.append_nil]
    rfl
  | some ruling =>
    obtain ⟨p, verdict⟩ := ruling
    obtain ⟨id, hid, hfind⟩ := ruling?_eq_some_iff.mp hr
    have hpid : p.id = id := by simpa using List.find?_some hfind
    subst hpid
    -- somebody of the field whom the event decides has been decided before
    have hp : ∃ e' ∈ events, e'.decides p.id = true := by
      apply Classical.byContradiction
      intro hnone
      have hleft : p ∈ undecided field events := by
        refine mem_undecided.mpr ⟨List.mem_of_find?_eq_some hfind, fun e' he' => ?_⟩
        exact Bool.eq_false_iff.mpr fun hd => hnone ⟨e', he', hd⟩
      have hd := h p hleft
      rw [Event.decides_iff.mpr ⟨verdict, hid⟩] at hd
      cases hd
    obtain ⟨e', he', hd⟩ := hp
    obtain ⟨verdict', hid'⟩ := Event.decides_iff.mp hd
    have hbefore : (events.filterMap (ruling? field)).any (·.1.id = p.id) = true := by
      refine List.any_eq_true.mpr ⟨(p, verdict'), ?_, by simp⟩
      exact List.mem_filterMap.mpr ⟨e', he', ruling?_eq_some_iff.mpr ⟨p.id, hid', hfind⟩⟩
    rw [rulings_concat_of_some hr, if_pos hbefore]

theorem rulings_concat_of_mem {field : List Player} (hfield : field.Pairwise fun a b => a.id ≠ b.id)
    {events : List Event} {e : Event} {p : Player} {verdict : Verdict}
    (hp : p ∈ undecided field events) (he : e.verdict? = some (p.id, verdict)) :
    rulings field (events ++ [e]) = rulings field events ++ [(p, verdict)] := by
  obtain ⟨hmem, hleft⟩ := mem_undecided.mp hp
  have hr : ruling? field e = some (p, verdict) :=
    ruling?_eq_some_iff.mpr ⟨p.id, he, Roster.find?_of_mem hfield hmem⟩
  have hbefore : ¬ (events.filterMap (ruling? field)).any (·.1.id = p.id) = true := by
    intro hany
    obtain ⟨⟨q, verdict'⟩, hq, hqid⟩ := List.any_eq_true.mp hany
    obtain ⟨e', he', hr'⟩ := List.mem_filterMap.mp hq
    obtain ⟨id, hid, hfind⟩ := ruling?_eq_some_iff.mp hr'
    have hqid' : id = p.id := by
      have := List.find?_some hfind
      simp only [decide_eq_true_eq] at this hqid
      rw [← this, hqid]
    have hd := hleft e' he'
    rw [Event.decides_iff.mpr ⟨verdict', hqid' ▸ hid⟩] at hd
    cases hd
  rw [rulings_concat_of_some hr, if_neg hbefore]

theorem undecided_concat_of_forall {field : List Player} {events : List Event} {e : Event}
    (h : ∀ p ∈ undecided field events, e.decides p.id = false) :
    undecided field (events ++ [e]) = undecided field events := by
  rw [undecided_concat]
  exact List.filter_eq_self.mpr fun p hp => by simp [h p hp]

theorem official_append_of_nil {field : List Player} {events : List Event}
    (h : undecided field events = []) (more : List Event) :
    undecided field (events ++ more) = [] ∧
      official field (events ++ more) = official field events := by
  induction more generalizing events with
  | nil => simp [h]
  | cons e more ih =>
    have hnone : ∀ p ∈ undecided field events, e.decides p.id = false := by
      rw [h]
      intro p hp
      cases hp
    have hstill := undecided_concat_of_forall hnone
    obtain ⟨hnil, hofficial⟩ := ih (hstill.trans h)
    rw [List.append_cons]
    refine ⟨hnil, hofficial.trans ?_⟩
    rw [official, official, hstill, rulings_concat_of_forall hnone]

/-! ## Everyone has one line -/

theorem filter_decides {field : List Player} (hfield : field.Pairwise fun a b => a.id ≠ b.id)
    {e : Event} {p : Player} {verdict : Verdict} (hp : p ∈ field)
    (he : e.verdict? = some (p.id, verdict)) : field.filter (e.decides ·.id) = [p] := by
  induction field with
  | nil => cases hp
  | cons q field ih =>
    obtain ⟨hq, hrest⟩ := List.pairwise_cons.mp hfield
    rcases List.mem_cons.mp hp with rfl | hp
    · have hnone : field.filter (e.decides ·.id) = [] := by
        refine List.filter_eq_nil_iff.mpr fun a ha hd => ?_
        rw [Event.decides_of_verdict? he, decide_eq_true_eq] at hd
        exact hq a ha hd
      have hself : e.decides p.id = true := Event.decides_iff.mpr ⟨verdict, he⟩
      rw [List.filter_cons, if_pos hself, hnone]
    · have hother : ¬ e.decides q.id = true := by
        rw [Event.decides_of_verdict? he, decide_eq_true_eq]
        exact (hq p hp).symm
      rw [List.filter_cons, if_neg hother, ih hrest hp]

/-- The decided and the undecided are the field. -/
def Parted (field : List Player) (events : List Event) : Prop :=
  ((rulings field events).map (·.1) ++ undecided field events).Perm field

theorem parted_concat {field : List Player} (hfield : field.Pairwise fun a b => a.id ≠ b.id)
    {events : List Event} (h : Parted field events) (e : Event) : Parted field (events ++ [e]) := by
  by_cases hdec : ∃ p ∈ undecided field events, e.decides p.id = true
  · obtain ⟨p, hp, hd⟩ := hdec
    obtain ⟨verdict, he⟩ := Event.decides_iff.mp hd
    have hsplit := List.filter_append_perm (e.decides ·.id) (undecided field events)
    have hpair : (undecided field events).Pairwise fun a b => a.id ≠ b.id := hfield.filter _
    rw [filter_decides hpair hp he] at hsplit
    rw [Parted, rulings_concat_of_mem hfield hp he, undecided_concat, List.map_append,
      List.append_assoc]
    exact (hsplit.append_left _).trans h
  · have hnone : ∀ p ∈ undecided field events, e.decides p.id = false :=
      fun p hp => Bool.eq_false_iff.mpr fun hd => hdec ⟨p, hp, hd⟩
    rw [Parted, rulings_concat_of_forall hnone, undecided_concat_of_forall hnone]
    exact h

theorem parted_append {field : List Player} (hfield : field.Pairwise fun a b => a.id ≠ b.id)
    {events : List Event} (h : Parted field events) (more : List Event) :
    Parted field (events ++ more) := by
  induction more generalizing events with
  | nil => rwa [List.append_nil]
  | cons e more ih =>
    rw [List.append_cons]
    exact ih (parted_concat hfield h e)

theorem ids_lines (taken : Nat) (rs : List (Player × Verdict)) :
    (lines taken rs).map (·.id) = rs.map (·.1.id) := by
  induction rs generalizing taken with
  | nil => rfl
  | cons r rs ih =>
    obtain ⟨p, verdict⟩ := r
    cases verdict with
    | finished => exact congrArg (p.id :: ·) (ih (taken + 1))
    | out reason => exact congrArg (p.id :: ·) (ih taken)

theorem perm_ids_official {field : List Player}
    (hfield : field.Pairwise fun a b => a.id ≠ b.id) (events : List Event) :
    ((official field events).map (·.id)).Perm (field.map (·.id)) := by
  have hstart : Parted field [] := by
    rw [Parted, undecided_nil]
    exact .refl _
  have hparted := (parted_append hfield hstart events).map (·.id)
  rw [List.map_append, List.map_map] at hparted
  rw [official, List.map_append, ids_lines, List.map_map]
  exact hparted

/-! ## A tracker follows the events -/

/-- The state of a tracker that records a race, in terms of the events since the start. -/
structure Follows (field : List Player) (events : List Event) (t : Tracker) : Prop where
  phase : t.phase = .recording
  roster : t.roster.players = undecided field events
  place : t.nextPlace.toNat = finishers (rulings field events) + 1
  decided : t.decided.map Rank.line = lines 0 (rulings field events)
  /-- Everyone is either decided or on the roster, so the places do not run out. -/
  count : (rulings field events).length + t.roster.players.length = field.length

theorem follows_start {t : Tracker} (h : t.Sound) (players : List Player) :
    Follows (Roster.distinct players) [] (t.start players).2 := by
  rw [Tracker.start_snd h]
  exact ⟨rfl, (undecided_nil _).symm, rfl, rfl, Nat.zero_add _⟩

namespace Follows

variable {field : List Player} {events : List Event} {t : Tracker}

theorem stop (h : Follows field events t) :
    ∃ s : Standings, s.ranks.map Rank.line = official field events ∧ t.stop.1 = some s ∧
      t.stop.2.AtRest := by
  rw [Tracker.stop_of_recording h.phase]
  refine ⟨_, ?_, rfl, rfl, rfl, rfl⟩
  rw [List.map_append, h.decided, h.roster, List.map_map]
  rfl

theorem observe_of_forall (h : Follows field events t) {e : Event}
    (he : ∀ p ∈ undecided field events, e.decides p.id = false) :
    t.observe e = (none, t) ∧ Follows field (events ++ [e]) t := by
  constructor
  · rcases Tracker.observe_cases t e with hsame | ⟨p, hp, verdict, hverdict, -⟩
    · exact hsame
    · rw [h.roster] at hp
      have hd := he p hp
      rw [Event.decides_iff.mpr ⟨verdict, hverdict⟩] at hd
      cases hd
  · exact ⟨h.phase, by rw [undecided_concat_of_forall he, h.roster],
      by rw [rulings_concat_of_forall he, h.place], by rw [rulings_concat_of_forall he, h.decided],
      by rw [rulings_concat_of_forall he, h.count]⟩

theorem settle (h : Follows field events t) (hfield : field.Pairwise fun a b => a.id ≠ b.id)
    (hlen : field.length < 4294967295) {e : Event} {p : Player} {verdict : Verdict}
    (hp : p ∈ undecided field events) (he : e.verdict? = some (p.id, verdict)) :
    Follows field (events ++ [e]) (t.settle p verdict) := by
  have hrulings := rulings_concat_of_mem hfield hp he
  have hmem : p ∈ t.roster.players := h.roster ▸ hp
  have hroster : t.roster.players.Pairwise fun a b => a.id ≠ b.id := by
    rw [h.roster]
    exact hfield.filter _
  have hcount : (t.settle p verdict).roster.players.length + 1 = t.roster.players.length := by
    have hpos := List.length_pos_of_mem hmem
    have herase : (t.settle p verdict).roster.players.length = t.roster.players.length - 1 :=
      List.length_eraseP_of_mem hmem (by simp)
    omega
  have hplaces : finishers (rulings field events) ≤ (rulings field events).length :=
    List.countP_le_length
  have htotal := h.count
  have hplace := h.place
  refine ⟨h.phase, ?_, ?_, ?_, ?_⟩
  · rw [undecided_concat, ← h.roster]
    refine (Roster.players_remove hroster p.id).trans (List.filter_congr fun q _ => ?_)
    rw [Event.decides_of_verdict? he]
    simp [eq_comm]
  · rw [hrulings, finishers, List.countP_append]
    cases verdict with
    | finished =>
      show (t.nextPlace + 1).toNat = _
      rw [UInt32.toNat_add, hplace]
      simp only [finishers] at hplaces ⊢
      simp
      omega
    | out reason => exact h.place
  · rw [hrulings, lines_concat, ← h.decided]
    refine (List.map_append ..).trans ?_
    cases verdict with
    | finished =>
      show _ ++ [(⟨p.id, p.nickname, t.nextPlace.toNat, .none⟩ : Line)] = _
      rw [hplace, Nat.zero_add]
      rfl
    | out reason => rfl
  · rw [hrulings, List.length_append, List.length_singleton]
    omega

theorem observe (h : Follows field events t) (hfield : field.Pairwise fun a b => a.id ≠ b.id)
    (hlen : field.length < 4294967295) (hopen : ¬ Over field events) (e : Event) :
    (¬ Over field (events ++ [e]) →
      (t.observe e).1 = none ∧ Follows field (events ++ [e]) (t.observe e).2) ∧
    (Over field (events ++ [e]) →
      ∃ s : Standings, s.ranks.map Rank.line = official field (events ++ [e]) ∧
        (t.observe e).1 = some s ∧ (t.observe e).2.AtRest) := by
  by_cases hdec : ∃ p ∈ undecided field events, e.decides p.id = true
  · obtain ⟨p, hp, hd⟩ := hdec
    obtain ⟨verdict, he⟩ := Event.decides_iff.mp hd
    have hs := h.settle hfield hlen hp he
    have hget : t.roster.get? p.id = some p := by
      show t.roster.players.find? _ = _
      rw [h.roster]
      exact Roster.find?_of_mem (hfield.filter _) hp
    have hne : field ≠ [] := List.ne_nil_of_mem (mem_undecided.mp hp).1
    have hempty : (t.settle p verdict).roster.isEmpty = true ↔ Over field (events ++ [e]) := by
      rw [Roster.isEmpty, List.isEmpty_iff, hs.roster]
      exact (and_iff_right hne).symm
    rw [Tracker.observe_of_some he, Tracker.conclude_of_some hget]
    constructor
    · intro hopen'
      rw [if_neg (mt hempty.mp hopen')]
      exact ⟨rfl, hs⟩
    · intro hover
      rw [if_pos (hempty.mpr hover)]
      exact hs.stop
  · have hnone : ∀ p ∈ undecided field events, e.decides p.id = false :=
      fun p hp => Bool.eq_false_iff.mpr fun hd => hdec ⟨p, hp, hd⟩
    obtain ⟨heq, hs⟩ := h.observe_of_forall hnone
    rw [heq]
    refine ⟨fun _ => ⟨rfl, hs⟩, fun hover => absurd ?_ hopen⟩
    exact ⟨hover.1, (undecided_concat_of_forall hnone).symm.trans hover.2⟩

/-- A run of events leaves the race open, or one of them ends it and the others are no news. -/
theorem run (h : Follows field events t) (hfield : field.Pairwise fun a b => a.id ≠ b.id)
    (hlen : field.length < 4294967295) (hopen : ¬ Over field events) (more : List Event) :
    (¬ Over field (events ++ more) →
      (t.run (more.map .observe)).1 = List.replicate more.length none ∧
        Follows field (events ++ more) (t.run (more.map .observe)).2) ∧
    (Over field (events ++ more) →
      ∃ (s : Standings) (before : List Event) (e : Event) (after : List Event),
        s.ranks.map Rank.line = official field (events ++ more) ∧
        more = before ++ e :: after ∧ undecided field (events ++ before) ≠ [] ∧
        undecided field (events ++ before ++ [e]) = [] ∧
        (t.run (more.map .observe)).1 =
          List.replicate before.length none ++ some s :: List.replicate after.length none ∧
        (t.run (more.map .observe)).2.AtRest) := by
  -- the events still to come; behind the one that decides the last player nothing is news
  induction more generalizing events t with
  | nil =>
    rw [List.append_nil]
    exact ⟨fun _ => ⟨rfl, h⟩, fun hover => absurd hover hopen⟩
  | cons e more ih =>
    obtain ⟨hstays, hends⟩ := h.observe hfield hlen hopen e
    rw [Tracker.run_observe_cons, List.append_cons]
    dsimp only
    by_cases hover : Over field (events ++ [e])
    · obtain ⟨s, hs, hfst, hrest⟩ := hends hover
      obtain ⟨hnil, hofficial⟩ := official_append_of_nil hover.2 more
      refine ⟨fun hstill => absurd ⟨hover.1, hnil⟩ hstill, fun _ => ?_⟩
      refine ⟨s, [], e, more, hs.trans hofficial.symm, rfl, ?_, ?_, ?_, ?_⟩
      · rw [List.append_nil]
        exact fun hnil' => hopen ⟨hover.1, hnil'⟩
      · rw [List.append_nil]
        exact hover.2
      · rw [hfst, Tracker.run_observe_atRest hrest]
        rfl
      · rw [Tracker.run_observe_atRest hrest]
        exact hrest
    · obtain ⟨hfst, hfollows⟩ := hstays hover
      obtain ⟨hopen', hover'⟩ := ih hfollows hover
      constructor
      · intro hstill
        obtain ⟨houts, hlast⟩ := hopen' hstill
        exact ⟨by rw [hfst, houts]; rfl, hlast⟩
      · intro hdone
        obtain ⟨s, before, e', after, hs, rfl, hbefore, hafter, houts, hlast⟩ := hover' hdone
        have hsplit : events ++ e :: before = events ++ [e] ++ before := List.append_cons ..
        refine ⟨s, e :: before, e', after, hs, rfl, ?_, ?_, ?_, hlast⟩
        · rw [hsplit]
          exact hbefore
        · rw [hsplit]
          exact hafter
        · rw [hfst, houts]
          rfl

end Follows

/-! ## A whole race -/

/-- A race, from any state that a tracker can reach: the list it starts with, its events, and a stop
or the start of the next race to close it. Its standings come out once, and they are the official
ones: when the last player of the field is decided, or else from what closes the race. -/
theorem Tracker.standings_of_race (ops : List Op) (players : List Player) (events : List Event)
    (close : Op) (hclose : close = .stop ∨ ∃ next, close = .start next)
    (hfield : (Roster.distinct players).length < 4294967295) :
    let field := Roster.distinct players
    let raced := ((new.run ops).2.start players).2.run (events.map .observe)
    let closed := raced.2.step close
    ∃ s : Standings, s.ranks.map Rank.line = official field events ∧
      (raced.1 ++ [closed.1]).filterMap id = [s] ∧
      (Over field events → raced.2.AtRest ∧ ∃ before e after, events = before ++ e :: after ∧
        undecided field before ≠ [] ∧ undecided field (before ++ [e]) = [] ∧
        raced.1 = List.replicate before.length none ++
          some s :: List.replicate after.length none ∧ closed.1 = none) ∧
      (¬ Over field events → raced.1 = List.replicate events.length none ∧
        raced.2.phase = .recording ∧ closed.1 = some s) := by
  intro field raced closed
  have hsound : (new.run ops).2.Sound := sound_run sound_new ops
  have hpair : field.Pairwise fun a b => a.id ≠ b.id := Roster.pairwise_distinct players
  have hopen : ¬ Over field [] := fun hover => hover.1 ((undecided_nil field).symm.trans hover.2)
  have hclosed : closed.1 = raced.2.stop.1 := by
    rcases hclose with rfl | ⟨next, rfl⟩
    · rfl
    · rfl
  obtain ⟨hstays, hends⟩ := (follows_start hsound players).run hpair hfield hopen events
  by_cases hover : Over field events
  · obtain ⟨s, before, e, after, hs, hsplit, hbefore, hafter, houts, hrest⟩ := hends hover
    have hnone : closed.1 = none := by rw [hclosed, stop_of_idle hrest.phase]
    refine ⟨s, hs, ?_, fun _ => ⟨hrest, before, e, after, hsplit, hbefore, hafter, houts, hnone⟩,
      fun hnot => absurd hover hnot⟩
    rw [hnone, houts]
    simp
  · obtain ⟨houts, hfollows⟩ := hstays hover
    obtain ⟨s, hs, hsome, -⟩ := hfollows.stop
    refine ⟨s, hs, ?_, fun hdone => absurd hdone hover,
      fun _ => ⟨houts, hfollows.phase, hclosed.trans hsome⟩⟩
    rw [hclosed, hsome, houts]
    simp

/-- A race with a doubled id, started in the middle of another and closed by a third: one player
finishes, one cheats, one runs out of time. -/
theorem Tracker.standings_of_race_restarted :
    ∃ s : Standings,
      s.ranks.map Rank.line =
        [⟨2, "bo", 1, .none⟩, ⟨3, "cy", 0, .cheat⟩, ⟨1, "ann", 0, .timeout⟩] ∧
      let raced := ((new.run [.start [⟨9, "di", 0⟩, ⟨2, "bo", 0⟩], .observe (.finish 2)]).2.start
        [⟨1, "ann", 0⟩, ⟨2, "bo", 0⟩, ⟨1, "eve", 0⟩, ⟨3, "cy", 0⟩]).2.run
        ([.finish 2, .cheat 1 0, .disconnect 2, .cheat 3 1, .finish 7].map .observe)
      (raced.1 ++ [(raced.2.step (.start [⟨9, "di", 0⟩])).1]).filterMap id = [s] := by
  obtain ⟨s, hs, hout, -⟩ := standings_of_race
    [.start [⟨9, "di", 0⟩, ⟨2, "bo", 0⟩], .observe (.finish 2)]
    [⟨1, "ann", 0⟩, ⟨2, "bo", 0⟩, ⟨1, "eve", 0⟩, ⟨3, "cy", 0⟩]
    [.finish 2, .cheat 1 0, .disconnect 2, .cheat 3 1, .finish 7]
    (.start [⟨9, "di", 0⟩]) (Or.inr ⟨_, rfl⟩) (by decide)
  exact ⟨s, hs, hout⟩

end RaceSteward.Race
