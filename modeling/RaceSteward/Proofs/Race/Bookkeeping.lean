import RaceSteward.Proofs.Race.Tracker

/-!
# The books of a tracker

Whatever has been done with a tracker, what it has noted adds up. Between races nothing is noted;
during a race everyone of the list is either decided or on the roster, and the finishers among the
decided hold the places from 1 on without a gap (`Tracker.consistent_run`).

`Tally` is what a race under way keeps. It counts the players once: the decided and the roster
together are the distinct ids of the list in another order, which is why the places do not run out.
-/

namespace RaceSteward.Race.Tracker

/-- The list with which an operation starts a race. -/
def Op.started? : Op → Option (List Player)
  | .start players => some players
  | _ => none

/-- The lists with which races were started, oldest first. -/
def lists (ops : List Op) : List (List Player) :=
  ops.filterMap Op.started?

/-- The ids of the players decided in the current race. -/
def decidedIds (t : Tracker) : List UInt32 :=
  t.decided.map (·.id)

/-- The finishers among the decided. -/
def placed (t : Tracker) : List Rank :=
  t.decided.filter Rank.isFinisher

/-- Nobody is decided twice, or decided and still racing. -/
def CountedOnce (t : Tracker) : Prop :=
  (t.decidedIds ++ t.roster.ids).Nodup

/-- What a tracker has noted of a race that was started with `players`. -/
structure Noted (players : List Player) (t : Tracker) : Prop where
  decided_nodup : t.decidedIds.Nodup
  disjoint : ∀ id ∈ t.decidedIds, id ∉ t.roster.ids
  mem_list : ∀ id, id ∈ t.decidedIds ∨ id ∈ t.roster.ids ↔ id ∈ players.map (·.id)
  nextPlace : t.nextPlace.toNat = 1 + t.placed.length
  places : t.placed.map (·.place.toNat) = List.range' 1 (t.nextPlace.toNat - 1)
  unplaced : ∀ r ∈ t.decided, r.place = 0 ↔ r.reason ≠ .none
  in_time : ∀ r ∈ t.decided, r.reason ≠ .timeout
  /-- Only a race without players waits for a stop with nobody left. -/
  empty : t.roster.players = [] → players = [] ∧ t.decided = [] ∧ t.nextPlace = 1

/-- What every tracker keeps, given the list with which the last race was started. -/
structure Consistent (last? : Option (List Player)) (t : Tracker) : Prop where
  roster_nodup : t.roster.ids.Nodup
  idle : t.phase = .idle → t.roster.players = [] ∧ t.decided = []
  recording : t.phase = .recording → ∃ players, last? = some players ∧ Noted players t

/-! ## A race under way -/

/-- The state of a tracker that records a race started with `players`. -/
structure Tally (players : List Player) (t : Tracker) : Prop where
  phase : t.phase = .recording
  /-- Everyone is either decided or on the roster, and counted once. -/
  perm : (t.decidedIds ++ t.roster.ids).Perm ((Roster.distinct players).map (·.id))
  nextPlace : t.nextPlace.toNat = 1 + t.placed.length
  places : t.placed.map (·.place.toNat) = List.range' 1 t.placed.length
  reasons : ∀ r ∈ t.decided, (r.place = 0 ↔ r.reason ≠ .none) ∧ r.reason ≠ .timeout
  occupied : t.roster.players = [] → players = []

variable {players : List Player} {t : Tracker}

theorem Tally.countedOnce (h : Tally players t) : t.CountedOnce :=
  h.perm.nodup_iff.mpr (Roster.nodup_ids_distinct players)

theorem Tally.length_eq (h : Tally players t) :
    t.decided.length + t.roster.players.length = (Roster.distinct players).length := by
  have hlength := h.perm.length_eq
  rw [List.length_append, decidedIds, Roster.ids] at hlength
  simpa only [List.length_map] using hlength

theorem Tally.noted (h : Tally players t) : Noted players t where
  decided_nodup := (List.nodup_append.mp h.countedOnce).1
  disjoint id hid hroster := (List.nodup_append.mp h.countedOnce).2.2 id hid id hroster rfl
  mem_list id := by rw [← List.mem_append, h.perm.mem_iff, Roster.mem_ids_distinct]
  nextPlace := h.nextPlace
  places := by rw [h.places, h.nextPlace, Nat.add_sub_cancel_left]
  unplaced r hr := (h.reasons r hr).1
  in_time r hr := (h.reasons r hr).2
  empty hroster := by
    have hplayers := h.occupied hroster
    have hlength := h.length_eq
    rw [hplayers, hroster] at hlength
    have hdecided : t.decided = [] := List.eq_nil_of_length_eq_zero hlength
    refine ⟨hplayers, hdecided, UInt32.toNat_inj.mp ?_⟩
    rw [h.nextPlace, placed, hdecided]
    rfl

theorem tally_start (h : t.Sound) (players : List Player) :
    Tally players (t.start players).2 := by
  rw [start_snd h]
  refine ⟨rfl, .refl _, rfl, rfl, fun r hr => (List.not_mem_nil hr).elim, ?_⟩
  intro hempty
  cases players with
  | nil => rfl
  | cons p players =>
    rw [Roster.distinct_cons] at hempty
    cases hempty

/-! ## Deciding a player -/

theorem Event.reason_of_verdict? {e : Event} {id : UInt32} {reason : DnfReason}
    (h : e.verdict? = some (id, .out reason)) : reason ≠ .none ∧ reason ≠ .timeout := by
  cases e with
  | finish id => cases h
  | disconnect id => cases h; decide
  | cheat id flag =>
    by_cases hflag : flag = 0
    · rw [verdict?, if_pos hflag] at h
      cases h
    · rw [verdict?, if_neg hflag] at h
      cases h
      decide
  | ball id => cases h

theorem decidedIds_settle (t : Tracker) (p : Player) (verdict : Verdict) :
    (t.settle p verdict).decidedIds = t.decidedIds ++ [p.id] := by
  cases verdict <;> exact List.map_append ..

theorem perm_settle {p : Player} (hp : p ∈ t.roster.players) (verdict : Verdict) :
    ((t.settle p verdict).decidedIds ++ (t.settle p verdict).roster.ids).Perm
      (t.decidedIds ++ t.roster.ids) := by
  obtain ⟨q, before, after, -, hq, hsplit, herase⟩ :=
    List.exists_of_eraseP (p := fun q => decide (q.id = p.id)) hp (by simp)
  have hids : (t.settle p verdict).roster.ids = (before ++ after).map (·.id) :=
    congrArg (List.map Player.id) herase
  rw [decidedIds_settle, hids, Roster.ids, hsplit, List.append_assoc, List.map_append,
    List.map_append, List.map_cons, of_decide_eq_true hq, List.singleton_append]
  exact List.perm_middle.symm.append_left _

/-! ## Nobody is counted twice -/

theorem CountedOnce.stop (h : t.CountedOnce) : t.stop.2.CountedOnce := by
  rcases hphase : t.phase with _ | _
  · rw [stop_of_idle hphase]
    exact h
  · rw [stop_of_recording hphase]
    exact List.nodup_nil

theorem CountedOnce.observe (h : t.CountedOnce) (e : Event) : (t.observe e).2.CountedOnce := by
  rcases observe_cases t e with hsame | ⟨p, hp, verdict, -, hsettled⟩
  · rw [hsame]
    exact h
  · have hsettle : (t.settle p verdict).CountedOnce := (perm_settle hp verdict).nodup_iff.mpr h
    rw [hsettled]
    split
    · exact hsettle.stop
    · exact hsettle

theorem CountedOnce.step (h : t.CountedOnce) (hsound : t.Sound) (op : Op) :
    (t.step op).2.CountedOnce := by
  rcases op with players | _ | e
  · show (t.start players).2.CountedOnce
    rw [start_snd hsound]
    exact Roster.nodup_ids_distinct players
  · exact h.stop
  · exact h.observe e

theorem CountedOnce.run (h : t.CountedOnce) (hsound : t.Sound) (ops : List Op) :
    (t.run ops).2.CountedOnce := by
  induction ops generalizing t with
  | nil => exact h
  | cons op ops ih => exact ih (h.step hsound op) (sound_step hsound op)

/-! ## What a race under way keeps -/

theorem placed_settle_finished {p : Player} (h : t.nextPlace ≠ 0) :
    (t.settle p .finished).placed = t.placed ++ [.finished p t.nextPlace] := by
  have hrank : (Rank.finished p t.nextPlace).isFinisher = true := decide_eq_true h
  refine (List.filter_append ..).trans (congrArg (t.placed ++ ·) ?_)
  exact List.filter_cons_of_pos hrank

theorem placed_settle_out (t : Tracker) (p : Player) (reason : DnfReason) :
    (t.settle p (.out reason)).placed = t.placed :=
  (List.filter_append ..).trans (List.append_nil _)

/-- Somebody is on the roster, so not all places are taken. -/
theorem Tally.nextPlace_le (h : Tally players t) {p : Player} (hp : p ∈ t.roster.players) :
    1 ≤ t.nextPlace.toNat ∧ t.nextPlace.toNat ≤ (Roster.distinct players).length := by
  have hplaced : t.placed.length ≤ t.decided.length := List.length_filter_le ..
  have hroster := List.length_pos_of_mem hp
  have htotal := h.length_eq
  have hnext := h.nextPlace
  omega

theorem Tally.nextPlace_ne_zero (h : Tally players t) {p : Player} (hp : p ∈ t.roster.players) :
    t.nextPlace ≠ 0 := by
  intro hzero
  have hpositive := (h.nextPlace_le hp).1
  rw [hzero] at hpositive
  exact absurd hpositive (by decide)

theorem Tally.nextPlace_settle (h : Tally players t)
    (hlen : (Roster.distinct players).length < 4294967295) {p : Player} (hp : p ∈ t.roster.players)
    (verdict : Verdict) :
    (t.settle p verdict).nextPlace.toNat = 1 + (t.settle p verdict).placed.length := by
  have hnext := h.nextPlace
  cases verdict with
  | finished =>
    have hle := (h.nextPlace_le hp).2
    rw [placed_settle_finished (h.nextPlace_ne_zero hp), List.length_append,
      List.length_singleton]
    show (t.nextPlace + 1).toNat = _
    rw [UInt32.toNat_add, hnext, UInt32.toNat_one]
    omega
  | out reason =>
    rw [placed_settle_out]
    exact hnext

theorem Tally.reasons_settle (h : Tally players t) {p : Player} (hp : p ∈ t.roster.players)
    {verdict : Verdict}
    (hreason : ∀ reason, verdict = .out reason → reason ≠ .none ∧ reason ≠ .timeout) :
    ∀ r ∈ (t.settle p verdict).decided, (r.place = 0 ↔ r.reason ≠ .none) ∧ r.reason ≠ .timeout := by
  intro r hr
  rcases List.mem_append.mp hr with hr | hr
  · exact h.reasons r hr
  · rw [List.mem_singleton] at hr
    subst hr
    cases verdict with
    | finished =>
      have hne := h.nextPlace_ne_zero hp
      exact ⟨⟨fun hzero => absurd hzero hne, fun hnone => absurd rfl hnone⟩, nofun⟩
    | out reason =>
      obtain ⟨hnone, htimeout⟩ := hreason reason rfl
      exact ⟨⟨fun _ => hnone, fun _ => rfl⟩, htimeout⟩

theorem Tally.settle (h : Tally players t) (hlen : (Roster.distinct players).length < 4294967295)
    {p : Player} (hp : p ∈ t.roster.players) {verdict : Verdict}
    (hreason : ∀ reason, verdict = .out reason → reason ≠ .none ∧ reason ≠ .timeout)
    (hleft : (t.settle p verdict).roster.players ≠ []) : Tally players (t.settle p verdict) where
  phase := h.phase
  perm := (perm_settle hp verdict).trans h.perm
  nextPlace := h.nextPlace_settle hlen hp verdict
  places := by
    cases verdict with
    | finished =>
      rw [placed_settle_finished (h.nextPlace_ne_zero hp), List.map_append, h.places,
        List.length_append, List.length_singleton, List.range'_1_concat, ← h.nextPlace]
      rfl
    | out reason =>
      rw [placed_settle_out]
      exact h.places
  reasons := h.reasons_settle hp hreason
  occupied hnil := absurd hnil hleft

/-! ## Any operations -/

/-- A tracker is between races or records the one that was started last. -/
def Kept (last? : Option (List Player)) (t : Tracker) : Prop :=
  t.AtRest ∨ ∃ players, last? = some players ∧ (Roster.distinct players).length < 4294967295 ∧
    Tally players t

variable {last? : Option (List Player)}

theorem Kept.sound (h : Kept last? t) : t.Sound := by
  intro hidle
  rcases h with hrest | ⟨players, -, -, htally⟩
  · exact hrest
  · rw [htally.phase] at hidle
    cases hidle

theorem Kept.observe (h : Kept last? t) (e : Event) : Kept last? (t.observe e).2 := by
  rcases h with hrest | ⟨players, hlast, hlen, htally⟩
  · rw [observe_atRest hrest]
    exact .inl hrest
  · rcases observe_cases t e with hsame | ⟨p, hp, verdict, he, hsettled⟩
    · rw [hsame]
      exact .inr ⟨players, hlast, hlen, htally⟩
    · rw [hsettled]
      split
      · -- the last player has been decided
        rw [stop_of_recording (show (t.settle p verdict).phase = _ from htally.phase)]
        exact .inl ⟨rfl, rfl, rfl⟩
      · rename_i hleft
        refine .inr ⟨players, hlast, hlen, htally.settle hlen hp ?_ ?_⟩
        · rintro reason rfl
          exact Event.reason_of_verdict? he
        · exact fun hnil => hleft (List.isEmpty_iff.mpr hnil)

theorem Kept.step (h : Kept last? t) (op : Op)
    (hlen : ∀ players ∈ op.started?, (Roster.distinct players).length < 4294967295) :
    Kept (op.started?.or last?) (t.step op).2 := by
  cases op with
  | start players => exact .inr ⟨players, rfl, hlen players rfl, tally_start h.sound players⟩
  | stop => exact .inl (atRest_stop h.sound)
  | observe e => exact h.observe e

theorem lists_cons (op : Op) (ops : List Op) :
    lists (op :: ops) = op.started?.toList ++ lists ops := by
  cases op <;> rfl

theorem getLast?_lists_cons (op : Op) (ops : List Op) (last? : Option (List Player)) :
    (lists (op :: ops)).getLast?.or last? = (lists ops).getLast?.or (op.started?.or last?) := by
  rw [lists_cons]
  cases op.started? with
  | none => rfl
  | some players =>
    rw [Option.toList_some, List.singleton_append, List.getLast?_cons]
    cases (lists ops).getLast? <;> rfl

theorem Kept.run (h : Kept last? t) (ops : List Op)
    (hlen : ∀ players ∈ lists ops, (Roster.distinct players).length < 4294967295) :
    Kept ((lists ops).getLast?.or last?) (t.run ops).2 := by
  induction ops generalizing t last? with
  | nil => exact h
  | cons op ops ih =>
    rw [lists_cons] at hlen
    rw [getLast?_lists_cons]
    apply ih
    · refine h.step op fun players hp => hlen players (List.mem_append_left _ ?_)
      exact Option.mem_toList.mpr hp
    · exact fun players hp => hlen players (List.mem_append_right _ hp)

theorem Kept.consistent (h : Kept last? t) : Consistent last? t := by
  rcases h with hrest | ⟨players, hlast, -, htally⟩
  · obtain ⟨hphase, hroster, hdecided⟩ := hrest
    refine ⟨by rw [hroster]; exact List.nodup_nil, fun _ => ⟨by rw [hroster]; rfl, hdecided⟩, ?_⟩
    intro hrecording
    rw [hphase] at hrecording
    cases hrecording
  · refine ⟨?_, fun hidle => ?_, fun _ => ⟨players, hlast, htally.noted⟩⟩
    · exact (List.nodup_append.mp htally.countedOnce).2.1
    · rw [htally.phase] at hidle
      cases hidle

/-- Whatever has been done with a new tracker, what it has noted is consistent with the list with
which the last race was started. -/
theorem consistent_run (ops : List Op)
    (h : ∀ players ∈ lists ops, (Roster.distinct players).length < 4294967295) :
    Consistent (lists ops).getLast? (new.run ops).2 := by
  have hkept : Kept none new := .inl ⟨rfl, rfl, rfl⟩
  have hrun := hkept.run ops h
  rw [Option.or_none] at hrun
  exact hrun.consistent

/-- A race is replaced by another with a doubled id, in which one player has finished and one has
cheated. -/
theorem consistent_run_restarted :
    Consistent (some [⟨1, "ann", 0⟩, ⟨2, "bo", 0⟩, ⟨1, "eve", 0⟩, ⟨3, "cy", 0⟩])
      ⟨.recording, ⟨[⟨1, "ann", 0⟩]⟩, 2, [⟨2, "bo", 1, .none⟩, ⟨3, "cy", 0, .cheat⟩]⟩ :=
  consistent_run
    [.start [⟨9, "di", 0⟩, ⟨2, "bo", 0⟩], .observe (.finish 9),
      .start [⟨1, "ann", 0⟩, ⟨2, "bo", 0⟩, ⟨1, "eve", 0⟩, ⟨3, "cy", 0⟩], .observe (.finish 2),
      .observe (.cheat 3 1), .observe (.disconnect 2)]
    (by decide)

end RaceSteward.Race.Tracker
