import RaceSteward.Proofs.Wire.Requests

/-!
# Requests with an index into all bytes

A cursor holds the bytes ahead of it, so it cannot read outside of them. A window holds all bytes and an
index: its differences can go below zero and its slices past the end. Both are faults of a `Checked`
reading, which then has no answer at all.

* `Request.Consumes.checked`: as long as the index is not past the end, a request at a window has an
  answer, the one that it has at a cursor, and moves the index as far.
-/

namespace RaceSteward

/-- All bytes, and an index into them. -/
structure Window where
  bytes : Bytes
  position : Nat
  deriving DecidableEq, Repr

/-- A reading that gives an item or an error, unless an index is out of range. -/
abbrev Checked (α : Type) : Type :=
  ExceptT DecodeError (StateT Window Option) α

namespace Checked

variable {α β : Type}

def fault : Checked α := fun _ => none

/-- How many bytes are left; there is no such number when the index is past the end. -/
def remaining : Checked Nat := fun v =>
  if v.position ≤ v.bytes.length then some (.ok (v.bytes.length - v.position), v) else none

/-- The bytes from the index on, `count` of them, all of which have to be there. -/
def slice (count : Nat) : Checked Bytes := fun v =>
  if v.position + count ≤ v.bytes.length then
    some (.ok ((v.bytes.drop v.position).take count), v)
  else none

def advance (count : Nat) : Checked Unit := fun v =>
  some (.ok (), { v with position := v.position + count })

/-- Passes `count` bytes, or fails for as many as are left. -/
def take (count : Nat) (short : Nat → DecodeError) : Checked Bytes := do
  let left ← remaining
  if left < count then
    throw (short left)
  else
    let bytes ← slice count
    advance count
    return bytes

def word (field : String) : Checked UInt32 := do
  let bytes ← take 4 (.truncated field 4)
  match bytes with
  | [a, b, c, d] => return Word.ofBytes a b c d
  | _ => fault

/-! ## Running a reading -/

theorem bind_of_ok {r : Checked α} {k : α → Checked β} {v w : Window} {a : α}
    (h : r v = some (.ok a, w)) : (r >>= k) v = k a w := by
  show (r v).bind _ = _
  rw [h]
  rfl

theorem bind_of_error {r : Checked α} {k : α → Checked β} {v w : Window} {e : DecodeError}
    (h : r v = some (.error e, w)) : (r >>= k) v = some (.error e, w) := by
  show (r v).bind _ = _
  rw [h]
  rfl

/-! ## Bytes that are there, and bytes that are not -/

variable (before : Bytes) {left bytes : Bytes} {count : Nat}

theorem remaining_append (left : Bytes) :
    remaining ⟨before ++ left, before.length⟩ =
      some (.ok left.length, ⟨before ++ left, before.length⟩) := by
  rw [remaining, if_pos (by simp), List.length_append, Nat.add_sub_cancel_left]

theorem take_of_short (h : left.length < count) (short : Nat → DecodeError) :
    take count short ⟨before ++ left, before.length⟩ =
      some (.error (short left.length), ⟨before ++ left, before.length⟩) := by
  rw [take, bind_of_ok (remaining_append before left), if_pos h]
  rfl

theorem take_append (h : bytes.length = count) (left : Bytes) (short : Nat → DecodeError) :
    take count short ⟨before ++ (bytes ++ left), before.length⟩ =
      some (.ok bytes, ⟨before ++ (bytes ++ left), before.length + count⟩) := by
  have henough : ¬ (bytes ++ left).length < count := by
    rw [List.length_append]
    omega
  have hslice : slice count ⟨before ++ (bytes ++ left), before.length⟩ =
      some (.ok bytes, ⟨before ++ (bytes ++ left), before.length⟩) := by
    rw [slice, if_pos, List.drop_left, ← h, List.take_left]
    simp only [List.length_append]
    omega
  rw [take, bind_of_ok (remaining_append before _), if_neg henough, bind_of_ok hslice]
  rfl

theorem word_of_short (h : left.length < 4) (field : String) :
    word field ⟨before ++ left, before.length⟩ =
      some (.error (.truncated field 4 left.length), ⟨before ++ left, before.length⟩) :=
  bind_of_error (take_of_short before h _)

theorem word_toBytes (field : String) (w : UInt32) (left : Bytes) :
    word field ⟨before ++ (Word.toBytes w ++ left), before.length⟩ =
      some (.ok w, ⟨before ++ (Word.toBytes w ++ left), before.length + 4⟩) := by
  rw [word, bind_of_ok (take_append before (Word.length_toBytes w) left _)]
  show some (Except.ok (Word.ofBytes _ _ _ _), _) = _
  rw [Word.ofBytes_toBytes]

end Checked

/-! ## Requests at a window -/

open Checked in
def Request.checked : Request → Checked Item
  | byte name => do
    let bytes ← take 1 (.truncated name 1)
    match bytes with
    | [b] => return .byte b
    | _ => fault
  | word name => do
    let w ← Checked.word name
    return .word w
  | int name => do
    let w ← Checked.word name
    return .int w.toInt32
  | single name => do
    let w ← Checked.word name
    return .single ⟨w⟩
  | text name => do
    let declared ← Checked.word name
    let body ← take declared.toNat (.textTruncated name declared.toNat)
    return .text (Text.decode body)
  | opcode expected => do
    let found ← Checked.word "opcode"
    if found = expected.tag then return .opcode expected
    else throw (.opcodeMismatch expected found)

/-- The answers to requests one after another, as long as no index is out of range. -/
def Window.run? (v : Window) : List Request → Option (List (Except DecodeError Item) × Window)
  | [] => some ([], v)
  | q :: qs => do
    let (answer, v) ← q.checked v
    let (answers, v) ← v.run? qs
    return (answer :: answers, v)

namespace Request

variable {q : Request} {used left : Bytes} {answer : Except DecodeError Item}

theorem checked_of_short (q : Request) (h : left.length < q.width) (before : Bytes) :
    q.checked ⟨before ++ left, before.length⟩ =
      some (.error (.truncated q.field q.width left.length), ⟨before ++ left, before.length⟩) := by
  cases q with
  | byte name => exact Checked.bind_of_error (Checked.take_of_short before h _)
  | word name | int name | single name | text name | opcode expected =>
    exact Checked.bind_of_error (Checked.word_of_short before h _)

theorem Consumes.checked (h : q.Consumes used left answer) (before : Bytes) :
    q.checked ⟨before ++ (used ++ left), before.length⟩ =
      some (answer, ⟨before ++ (used ++ left), before.length + used.length⟩) := by
  cases h with
  | short q h => exact checked_of_short q h before
  | byte name b =>
    exact Checked.bind_of_ok (Checked.take_append before (List.length_singleton (a := b)) left _)
  | word name w | int name w | single name w =>
    exact Checked.bind_of_ok (Checked.word_toBytes before name w left)
  | @text name w body left h =>
    -- the index now stands behind the count
    have hbody := Checked.take_append (before ++ Word.toBytes w) h left
      (.textTruncated name w.toNat)
    rw [List.length_append, Word.length_toBytes, List.append_assoc] at hbody
    rw [List.append_assoc, Request.checked,
      Checked.bind_of_ok (Checked.word_toBytes before name w _), Checked.bind_of_ok hbody,
      List.length_append, Word.length_toBytes, h, Nat.add_assoc]
    rfl
  | @textShort name w left h =>
    have hbody := Checked.take_of_short (before ++ Word.toBytes w) h (.textTruncated name w.toNat)
    rw [List.length_append, Word.length_toBytes, List.append_assoc] at hbody
    rw [Request.checked, Checked.bind_of_ok (Checked.word_toBytes before name w left),
      Checked.bind_of_error hbody, Word.length_toBytes]
  | opcode expected left =>
    rw [Request.checked, Checked.bind_of_ok (Checked.word_toBytes before _ _ left), if_pos rfl]
    rfl
  | @mismatch expected found left h =>
    rw [Request.checked, Checked.bind_of_ok (Checked.word_toBytes before _ _ left), if_neg h]
    rfl

end Request

end RaceSteward
