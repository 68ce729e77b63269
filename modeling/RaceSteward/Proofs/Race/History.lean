import Mathlib.Data.Set.Card
import RaceSteward.Proofs.Race.Roster

/-!
# The history of a roster

A roster is a list that is searched from the front, but to its callers it is a map from ids to
players that remembers the order of entry. Its history, the operations so far with their answers,
says which player an id has (`held`) and who is present in which order (`standing`).

* `Roster.follows_history`: every answer of a roster, and every roster that an operation leaves, is
  what the history says.
-/

namespace RaceSteward.Race.Roster

/-- An operation, and the answer to it. -/
structure Call where
  op : Op
  answer : Answer
  deriving DecidableEq, Repr

/-- The player whom a call has entered. -/
def Call.entered? (c : Call) : Option Player :=
  match c.op, c.answer with
  | .insert p, .entered true => some p
  | _, _ => none

/-- Whoever has the id, a call takes them out. -/
def Call.takesOut (id : UInt32) (c : Call) : Bool :=
  match c.op with
  | .remove other => other = id
  | .drain => true
  | _ => false

/-- The calls of operations on a roster. -/
def calls (r : Roster) (ops : List Op) : List Call :=
  ops.zipWith Call.mk (r.run ops).1

/-- The player last entered with an id since the id was last taken out. -/
def held (log : List Call) (id : UInt32) : Option Player :=
  (log.reverse.takeWhile fun c => !c.takesOut id).findSome? fun c =>
    c.entered?.filter (·.id = id)

/-- The players entered by a call after which their id was not taken out, in the order of these
calls. -/
def standing : List Call → List Player
  | [] => []
  | c :: later => (c.entered?.toList.filter fun p => !later.any (·.takesOut p.id)) ++ standing later

variable {r : Roster} {log : List Call} {c : Call}

/-! ## One more call -/

theorem held_concat (log : List Call) (c : Call) (id : UInt32) :
    held (log ++ [c]) id =
      if c.takesOut id then none else (c.entered?.filter (·.id = id)).or (held log id) := by
  rw [held, List.reverse_append, List.reverse_singleton, List.singleton_append,
    List.takeWhile_cons]
  by_cases h : c.takesOut id
  · simp [h]
  · rw [if_pos (by simp [h]), if_neg h, List.findSome?_cons]
    cases c.entered?.filter (·.id = id) with
    | none => rfl
    | some p => rfl

theorem standing_concat (log : List Call) (c : Call) :
    standing (log ++ [c]) =
      (standing log).filter (fun p => !c.takesOut p.id) ++ c.entered?.toList := by
  induction log with
  | nil => simp [standing]
  | cons a log ih =>
    rw [List.cons_append, standing, standing, ih, List.filter_append, List.filter_filter,
      List.append_assoc]
    congr 1
    -- the player of `a` is left standing by `log` and by `c`
    apply List.filter_congr
    intro p _
    simp [Bool.and_comm]

/-- The roster is what the history says. -/
structure Follows (log : List Call) (r : Roster) : Prop where
  players : r.players = standing log
  distinct : r.players.Pairwise fun p q => p.id ≠ q.id
  get : ∀ id, r.get? id = held log id

theorem follows_empty : Follows [] empty where
  players := rfl
  distinct := .nil
  get _ := rfl

namespace Follows

/-- A call that neither enters a player nor takes one out is as good as none. -/
theorem keep (h : Follows log r) (hentered : c.entered? = none)
    (htakes : ∀ id, c.takesOut id = false) : Follows (log ++ [c]) r where
  players := by
    rw [standing_concat, hentered, h.players]
    simp [htakes]
  distinct := h.distinct
  get id := by
    rw [held_concat, hentered, htakes, h.get]
    rfl

theorem contains_eq (h : Follows log r) (id : UInt32) : r.contains id = (held log id).isSome := by
  rw [contains_eq_isSome_get?, h.get]

theorem insert_of_absent (h : Follows log r) {p : Player} (hp : r.contains p.id = false) :
    Follows (log ++ [⟨.insert p, .entered true⟩]) ⟨r.players ++ [p]⟩ where
  players := by
    rw [standing_concat, ← h.players]
    exact congrArg (· ++ [p]) (List.filter_eq_self.mpr fun _ _ => rfl).symm
  distinct := by
    refine List.pairwise_append.mpr ⟨h.distinct, List.pairwise_singleton _ _, ?_⟩
    intro q hq p' hp' hid
    obtain rfl := List.mem_singleton.mp hp'
    have hmem : r.contains p'.id = true :=
      contains_iff_mem_ids.mpr (List.mem_map.mpr ⟨q, hq, hid⟩)
    rw [hp] at hmem
    cases hmem
  get id := by
    have hget : get? ⟨r.players ++ [p]⟩ id =
        (r.get? id).or (if p.id = id then some p else none) := by
      rw [get?, List.find?_append, List.find?_singleton]
      simp only [decide_eq_true_eq]
      rfl
    rw [held_concat, hget, h.get]
    show _ = ((some p).filter (·.id = id)).or (held log id)
    rw [Option.filter_some]
    -- the roster finds the first entry and the history the last one: there is only one
    by_cases hid : p.id = id
    · have hnone : held log id = none := by
        rw [← hid, ← Option.not_isSome_iff_eq_none, ← h.contains_eq, hp]
        exact Bool.false_ne_true
      simp [hid, hnone]
    · simp [hid]

theorem remove (h : Follows log r) (id : UInt32) :
    Follows (log ++ [⟨.remove id, .found (r.get? id)⟩]) (r.remove id).2 where
  players := by
    rw [standing_concat, players_remove h.distinct, h.players]
    refine (List.filter_congr fun p _ => ?_).trans (List.append_nil _).symm
    simp [Call.takesOut, eq_comm]
  distinct := by
    rw [players_remove h.distinct]
    exact h.distinct.filter _
  get other := by
    rw [held_concat, ← h.get, get?, get?, players_remove h.distinct, List.find?_filter]
    by_cases hid : id = other
    · subst hid
      rw [if_pos (by simp [Call.takesOut])]
      refine List.find?_eq_none.mpr fun p _ => ?_
      simp
    · rw [if_neg (by simp [Call.takesOut, hid])]
      refine congrArg (List.find? · r.players) (funext fun p => ?_)
      by_cases hp : p.id = other
      · simp [hp, Ne.symm hid]
      · simp [hp]

theorem drain (h : Follows log r) :
    Follows (log ++ [⟨.drain, .drained r.players⟩]) empty where
  players := by
    rw [standing_concat, ← h.players]
    refine (List.append_eq_nil_iff.mpr ⟨List.filter_eq_nil_iff.mpr ?_, rfl⟩).symm
    simp [Call.takesOut]
  distinct := .nil
  get id := by
    rw [held_concat]
    rfl

theorem step (h : Follows log r) (op : Op) :
    Follows (log ++ [⟨op, (r.step op).1⟩]) (r.step op).2 := by
  cases op with
  | insert p =>
    by_cases hp : r.contains p.id = true
    · have hstep : r.step (.insert p) = (.entered false, r) := by
        rw [Roster.step, insert, if_pos hp]
      rw [hstep]
      exact h.keep rfl fun _ => rfl
    · have hstep : r.step (.insert p) = (.entered true, ⟨r.players ++ [p]⟩) := by
        rw [Roster.step, insert, if_neg hp]
      rw [hstep]
      exact h.insert_of_absent (Bool.eq_false_iff.mpr hp)
  | remove id => exact h.remove id
  | contains id => exact h.keep rfl fun _ => rfl
  | get id => exact h.keep rfl fun _ => rfl
  | drain => exact h.drain

theorem run (h : Follows log r) (ops : List Op) :
    Follows (log ++ r.calls ops) (r.run ops).2 := by
  induction ops generalizing log r with
  | nil => exact (List.append_nil log).symm ▸ h
  | cons op ops ih =>
    have hrun := ih (h.step op)
    rw [List.append_assoc] at hrun
    exact hrun

theorem mem_players_iff (h : Follows log r) {p : Player} :
    p ∈ r.players ↔ held log p.id = some p := by
  rw [← h.get]
  exact ⟨find?_of_mem h.distinct, List.mem_of_find?_eq_some⟩

theorem nodup_ids (h : Follows log r) : r.ids.Nodup :=
  List.pairwise_map.mpr h.distinct

theorem size_eq (h : Follows log r) :
    r.size = Set.ncard {id : UInt32 | (held log id).isSome = true} := by
  have hset : {id : UInt32 | (held log id).isSome = true} = ↑r.ids.toFinset := by
    ext id
    rw [List.coe_toFinset, Set.mem_ofPred_eq, Set.mem_ofPred_eq, ← h.contains_eq,
      contains_iff_mem_ids]
  rw [hset, Set.ncard_coe_finset, List.toFinset_card_of_nodup h.nodup_ids, ids, List.length_map,
    size]

end Follows

/-- After any operations on a new roster the players are those that the history leaves standing, in
the order in which they were entered, and every further operation is answered by it. -/
theorem follows_history (ops : List Op) :
    let r := (empty.run ops).2
    let log := empty.calls ops
    r.ids.Nodup ∧ r.players = standing log ∧ (∀ p, p ∈ r.players ↔ held log p.id = some p) ∧
      r.size = Set.ncard {id | (held log id).isSome = true} ∧
      (∀ id, r.step (.get id) = (.found (held log id), r)) ∧
      (∀ id, r.step (.contains id) = (.present (held log id).isSome, r)) ∧
      (∀ p, r.step (.insert p) =
        if held log p.id = none then (.entered true, ⟨r.players ++ [p]⟩)
        else (.entered false, r)) ∧
      (∀ id, r.step (.remove id) =
        (.found (held log id), ⟨r.players.filter (·.id ≠ id)⟩)) ∧
      r.step .drain = (.drained (standing log), empty) := by
  intro r log
  have h : Follows log r := follows_empty.run ops
  refine ⟨h.nodup_ids, h.players, fun p => h.mem_players_iff, h.size_eq, fun id => ?_, fun id => ?_,
    fun p => ?_, fun id => ?_, ?_⟩
  · rw [step, h.get]
  · rw [step, h.contains_eq]
  · cases hheld : held log p.id with
    | none =>
      have hp : r.contains p.id = false := by rw [h.contains_eq, hheld]; rfl
      rw [if_pos rfl, step, insert, hp]
      rfl
    | some q =>
      have hp : r.contains p.id = true := by rw [h.contains_eq, hheld]; rfl
      rw [if_neg (Option.some_ne_none q), step, insert, hp]
      rfl
  · rw [← h.get, ← players_remove h.distinct]
    rfl
  · rw [← h.players]
    rfl

/-- The second entry of an id is refused; entered once more after being taken out, the id is last. -/
example : (empty.run [.insert ⟨5, "a", 0⟩, .insert ⟨3, "b", 0⟩, .insert ⟨5, "c", 0⟩, .remove 5,
    .insert ⟨5, "d", 0⟩, .drain]).1 =
    [.entered true, .entered true, .entered false, .found (some ⟨5, "a", 0⟩), .entered true,
      .drained [⟨3, "b", 0⟩, ⟨5, "d", 0⟩]] := by
  decide

end RaceSteward.Race.Roster
