import RaceSteward.Proofs.Mailbox.Delivery

/-!
# How full a mailbox gets

A delivery looks at the upper mark twice: a mailbox that stands at the mark takes nothing, and one
that reaches the mark with a batch has taken it whole and reports the overflow all the same.

* `Mailbox.answer_extend`: a delivery succeeds exactly if fewer messages than the mark are pending
  before it and after it.
* `Mailbox.size_run_le`: a mailbox is never fuller than the mark, less one, with one batch on top and
  what was put ahead since the last drain.
* `Mailbox.refused_run`: at the mark every delivery is refused until the next drain.
-/

namespace RaceSteward.Mailbox

variable {α : Type} {q : Mailbox α} {batch : List α}

/-- What an operation delivers behind everything pending. -/
def Op.batch? : Op α → Option (List α)
  | .push a => some [a]
  | .extend batch => some batch
  | .pushFront _ | .drain => none

theorem step_of_batch {op : Op α} (h : op.batch? = some batch) (q : Mailbox α) :
    q.step op = (.delivered (q.extend batch).1, (q.extend batch).2) := by
  rcases op with a | batch | a | _
  · cases h
    rfl
  · cases h
    rfl
  · cases h
  · cases h

theorem run_append (q : Mailbox α) (before after : List (Op α)) :
    (q.run (before ++ after)).2 = ((q.run before).2.run after).2 := by
  induction before generalizing q with
  | nil => rfl
  | cons op before ih => exact ih (q.step op).2

theorem run_concat (q : Mailbox α) (before : List (Op α)) (op : Op α) :
    (q.run (before ++ [op])).2 = ((q.run before).2.step op).2 :=
  run_append q before [op]

theorem limits_run (q : Mailbox α) (ops : List (Op α)) : (q.run ops).2.limits = q.limits := by
  induction ops generalizing q with
  | nil => rfl
  | cons op ops ih => exact (ih (q.step op).2).trans (limits_step q op)

/-! ## One delivery -/

theorem size_extend_of_room (h : q.size < q.limits.nuke) (batch : List α) :
    (q.extend batch).2.size = q.size + batch.length := by
  rw [extend_of_room h]
  simp only [size, List.length_append]

theorem answer_extend (q : Mailbox α) (batch : List α) :
    (q.extend batch).1 =
      if q.size < q.limits.nuke ∧ (q.extend batch).2.size < q.limits.nuke then
        .ok (q.extend batch).2.size
      else .error ⟨(q.extend batch).2.size⟩ := by
  rcases Nat.lt_or_ge q.size q.limits.nuke with hroom | hfull
  · rw [size_extend_of_room hroom, extend_of_room hroom, Watermarks.check]
    by_cases hmark : q.limits.nuke ≤ q.size + batch.length
    · rw [if_pos hmark, if_neg (by omega)]
    · rw [if_neg hmark, if_pos (by omega)]
  · rw [extend_of_full hfull, if_neg (by omega)]

theorem extend_eq_error_iff {overflow : Overflow} {q' : Mailbox α} :
    q.extend batch = (.error overflow, q') ↔
      overflow.pending = q'.size ∧
        (q.limits.nuke ≤ q.size ∧ q' = q ∨
          q.size < q.limits.nuke ∧ q.limits.nuke ≤ q'.size ∧
            q' = { q with pending := q.pending ++ batch }) := by
  rcases Nat.lt_or_ge q.size q.limits.nuke with hroom | hfull
  · have hsize : ({ q with pending := q.pending ++ batch } : Mailbox α).size =
        q.size + batch.length := by
      simp only [size, List.length_append]
    rw [extend_of_room hroom, Watermarks.check]
    by_cases hmark : q.limits.nuke ≤ q.size + batch.length
    · rw [if_pos hmark]
      constructor
      · rintro ⟨rfl, rfl⟩
        exact ⟨hsize.symm, .inr ⟨hroom, by omega, rfl⟩⟩
      · rintro ⟨hpending, ⟨hfull, -⟩ | ⟨-, -, rfl⟩⟩
        · omega
        · rw [hsize] at hpending
          rw [← hpending]
    · rw [if_neg hmark]
      constructor
      · rintro ⟨⟩
      · rintro ⟨-, ⟨hfull, -⟩ | ⟨-, hover, rfl⟩⟩
        · omega
        · omega
  · rw [extend_of_full hfull]
    constructor
    · rintro ⟨rfl, rfl⟩
      exact ⟨rfl, .inl ⟨hfull, rfl⟩⟩
    · rintro ⟨hpending, ⟨-, rfl⟩ | ⟨hroom, -⟩⟩
      · rw [← hpending]
      · omega

theorem pending_eq_iff_of_overflow {overflow : Overflow} {q' : Mailbox α}
    (h : q.extend batch = (.error overflow, q')) :
    q'.pending = q.pending ↔ q.limits.nuke ≤ q.size := by
  obtain ⟨-, ⟨hfull, rfl⟩ | ⟨hroom, hover, rfl⟩⟩ := extend_eq_error_iff.mp h
  · exact ⟨fun _ => hfull, fun _ => rfl⟩
  · constructor
    · intro hsame
      have hsize : ({ q with pending := q.pending ++ batch } : Mailbox α).size = q.size :=
        congrArg List.length hsame
      omega
    · intro hfull
      omega

/-! ## How far above the mark -/

/-- How many messages were put ahead since the last drain, once an operation is done. -/
def Op.countAhead (count : Nat) : Op α → Nat
  | .pushFront _ => count + 1
  | .drain => 0
  | .push _ | .extend _ => count

/-- How many messages were put ahead since the last drain. -/
def ahead (ops : List (Op α)) : Nat :=
  ops.foldl Op.countAhead 0

/-- Every batch among the operations has at most so many messages. -/
def BatchesWithin (most : Nat) (ops : List (Op α)) : Prop :=
  ∀ batch, .extend batch ∈ ops → batch.length ≤ most

theorem size_extend_le {most count : Nat} (h : q.size ≤ q.limits.nuke - 1 + most + count)
    (hbatch : batch.length ≤ most) :
    (q.extend batch).2.size ≤ q.limits.nuke - 1 + most + count := by
  rcases Nat.lt_or_ge q.size q.limits.nuke with hroom | hfull
  · rw [size_extend_of_room hroom]
    omega
  · rw [extend_of_full hfull]
    exact h

theorem size_step_le {most count : Nat} (h : q.size ≤ q.limits.nuke - 1 + most + count)
    (hmost : 1 ≤ most) {op : Op α} (hop : ∀ batch, op = .extend batch → batch.length ≤ most) :
    (q.step op).2.size ≤ q.limits.nuke - 1 + most + op.countAhead count := by
  rcases op with a | batch | a | _
  · exact size_extend_le h hmost
  · exact size_extend_le h (hop batch rfl)
  · exact Nat.succ_le_succ h
  · exact Nat.zero_le _

theorem size_run_le {most count : Nat} (h : q.size ≤ q.limits.nuke - 1 + most + count)
    (hmost : 1 ≤ most) {ops : List (Op α)} (hops : BatchesWithin most ops) :
    (q.run ops).2.size ≤ q.limits.nuke - 1 + most + ops.foldl Op.countAhead count := by
  induction ops generalizing q count with
  | nil => exact h
  | cons op ops ih =>
    have hstep := size_step_le h hmost fun batch hop => hops batch (hop ▸ List.mem_cons_self)
    rw [← limits_step q op] at hstep ⊢
    exact ih hstep fun batch hmem => hops batch (List.mem_cons_of_mem _ hmem)

/-! ## At the mark -/

theorem step_of_full (h : q.limits.nuke ≤ q.size) {op : Op α} (hop : op.batch? = some batch) :
    q.step op = (.delivered (.error ⟨q.size⟩), q) := by
  rw [step_of_batch hop, extend_of_full h]

theorem full_step (h : q.limits.nuke ≤ q.size) {op : Op α} (hop : op ≠ .drain) :
    (q.step op).2.limits.nuke ≤ (q.step op).2.size := by
  rcases op with a | batch | a | _
  · rw [step_of_full h rfl]
    exact h
  · rw [step_of_full h rfl]
    exact h
  · exact Nat.le_succ_of_le h
  · exact absurd rfl hop

theorem full_run (h : q.limits.nuke ≤ q.size) {ops : List (Op α)} (hops : .drain ∉ ops) :
    (q.run ops).2.limits.nuke ≤ (q.run ops).2.size := by
  induction ops generalizing q with
  | nil => exact h
  | cons op ops ih =>
    rw [List.mem_cons, not_or] at hops
    exact ih (full_step h (Ne.symm hops.1)) hops.2

theorem refused_run (h : q.limits.nuke ≤ q.size) {before : List (Op α)} (hbefore : .drain ∉ before)
    {op : Op α} (hop : op.batch? = some batch) :
    (q.run before).2.step op =
      (.delivered (.error ⟨(q.run before).2.size⟩), (q.run before).2) :=
  step_of_full (full_run h hbefore) hop

theorem stored_after_drain (h : 0 < q.limits.nuke) {op : Op α} (hop : op.batch? = some batch) :
    (q.run [.drain, op]).2.pending = batch := by
  show ((q.step .drain).2.step op).2.pending = batch
  have hroom : (q.step .drain).2.size < (q.step .drain).2.limits.nuke := h
  rw [step_of_batch hop, extend_of_room hroom]
  rfl

end RaceSteward.Mailbox
