/-!
# Mailboxes

A mailbox keeps what is pending, oldest first, and has two marks. At the lower one each delivery
raises a warning. At the upper one a delivery is an overflow: a delivery that finds the mailbox at or
above the mark is refused, one that reaches the mark is stored and still reported.

* `Mailbox.run` plays any sequence of operations; every operation is one indivisible step.
-/

namespace RaceSteward

/-- The two marks of a mailbox. -/
structure Watermarks where
  /-- From here on each delivery warns. -/
  warn : Nat
  /-- From here on each delivery is an overflow. -/
  nuke : Nat
  deriving DecidableEq, Repr

/-- A mailbox stands at or above its upper mark. -/
structure Overflow where
  pending : Nat
  deriving DecidableEq, Repr

/-- How loudly a delivery is logged. -/
inductive Alarm where
  | warning
  | error
  deriving DecidableEq, Repr

namespace Watermarks

/-- Judges a delivery by the number pending after it. -/
def check (limits : Watermarks) (pending : Nat) : Except Overflow Nat :=
  if limits.nuke ≤ pending then .error ⟨pending⟩ else .ok pending

/-- An overflow is an error; otherwise the lower mark decides on a warning. -/
def alarm (limits : Watermarks) : Except Overflow Nat → Option Alarm
  | .error _ => some .error
  | .ok pending => if limits.warn ≤ pending then some .warning else none

end Watermarks

structure Mailbox (α : Type) where
  limits : Watermarks
  /-- What is pending, oldest first. -/
  pending : List α
  deriving DecidableEq, Repr

namespace Mailbox

variable {α : Type}

def empty (limits : Watermarks) : Mailbox α := ⟨limits, []⟩

def size (q : Mailbox α) : Nat := q.pending.length

/-- No delivery is taken. -/
def isFull (q : Mailbox α) : Bool := decide (q.limits.nuke ≤ q.size)

/-- Delivers a batch as one contiguous run, unless the mailbox is full. -/
def extend (q : Mailbox α) (batch : List α) : Except Overflow Nat × Mailbox α :=
  if q.isFull then (.error ⟨q.size⟩, q)
  else
    let q := { q with pending := q.pending ++ batch }
    (q.limits.check q.size, q)

/-- Delivers one message. -/
def push (q : Mailbox α) (a : α) : Except Overflow Nat × Mailbox α :=
  q.extend [a]

/-- Puts a message ahead of everything pending, even in a full mailbox. -/
def pushFront (q : Mailbox α) (a : α) : Except Overflow Nat × Mailbox α :=
  let q := { q with pending := a :: q.pending }
  (q.limits.check q.size, q)

/-- Takes everything pending, oldest first. -/
def drain (q : Mailbox α) : List α × Mailbox α :=
  (q.pending, { q with pending := [] })

/-! ## Runs -/

/-- An operation on a mailbox. -/
inductive Op (α : Type) where
  | push (a : α)
  | extend (batch : List α)
  | pushFront (a : α)
  | drain
  deriving DecidableEq, Repr

/-- What an operation answers. -/
inductive Answer (α : Type) where
  | delivered (result : Except Overflow Nat)
  | drained (taken : List α)

/-- One operation. -/
def step (q : Mailbox α) : Op α → Answer α × Mailbox α
  | .push a => let (result, q) := q.push a; (.delivered result, q)
  | .extend batch => let (result, q) := q.extend batch; (.delivered result, q)
  | .pushFront a => let (result, q) := q.pushFront a; (.delivered result, q)
  | .drain => let (taken, q) := q.drain; (.drained taken, q)

/-- The answers of a sequence of operations, and the mailbox after it. -/
def run (q : Mailbox α) : List (Op α) → List (Answer α) × Mailbox α
  | [] => ([], q)
  | op :: ops =>
    let (answer, q) := q.step op
    let (answers, q) := q.run ops
    (answer :: answers, q)

/-! ## Sizes and limits -/

theorem isFull_eq_true {q : Mailbox α} : q.isFull = true ↔ q.limits.nuke ≤ q.size := by
  simp [isFull]

@[simp] theorem limits_extend (q : Mailbox α) (batch : List α) :
    (q.extend batch).2.limits = q.limits := by
  unfold extend
  split <;> rfl

@[simp] theorem limits_pushFront (q : Mailbox α) (a : α) : (q.pushFront a).2.limits = q.limits := rfl

@[simp] theorem limits_drain (q : Mailbox α) : q.drain.2.limits = q.limits := rfl

theorem pending_extend (q : Mailbox α) (batch : List α) :
    (q.extend batch).2.pending = if q.isFull then q.pending else q.pending ++ batch := by
  unfold extend
  split <;> rfl

/-- A full mailbox takes nothing. -/
theorem extend_of_full {q : Mailbox α} (h : q.limits.nuke ≤ q.size) (batch : List α) :
    q.extend batch = (.error ⟨q.size⟩, q) := by
  unfold extend
  rw [if_pos (isFull_eq_true.mpr h)]

/-- A mailbox with room takes the whole batch, and judges it by what is pending then. -/
theorem extend_of_room {q : Mailbox α} (h : q.size < q.limits.nuke) (batch : List α) :
    q.extend batch =
      (q.limits.check (q.size + batch.length), { q with pending := q.pending ++ batch }) := by
  have hfull : ¬ q.isFull = true := by
    rw [isFull_eq_true]
    omega
  unfold extend
  rw [if_neg hfull]
  simp only [size, List.length_append]

@[simp] theorem pending_pushFront (q : Mailbox α) (a : α) :
    (q.pushFront a).2.pending = a :: q.pending := rfl

@[simp] theorem pending_drain (q : Mailbox α) : q.drain.2.pending = [] := rfl

end Mailbox

end RaceSteward
