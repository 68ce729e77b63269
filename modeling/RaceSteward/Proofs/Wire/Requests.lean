import RaceSteward.Wire.Script
import RaceSteward.Proofs.Wire.Cut

/-!
# What a request consumes

`q.Consumes used left answer`: when the bytes ahead are `used` and then `left`, the request `q` passes
`used` and gets this answer. A request that fails passes nothing, the count of a text whose body is
cut, or an opcode that is not the one expected.

* `Request.Consumes.read`, `Request.consumes_read`: this is what requests do at every cursor, and all
  that they do.
* `Request.Consumes.replace`: an item depends on nothing but the bytes that were passed.
-/

namespace RaceSteward.Request

/-- The name by which an error calls the field. -/
def field : Request → String
  | byte name | word name | int name | single name | text name => name
  | opcode _ => "opcode"

/-- How many bytes have to be there at first: the whole item, or the count of a text. -/
def width : Request → Nat
  | byte _ => 1
  | word _ | int _ | single _ | text _ | opcode _ => 4

inductive Consumes : Request → Bytes → Bytes → Except DecodeError Item → Prop where
  | short (q : Request) {left : Bytes} (h : left.length < q.width) :
    Consumes q [] left (.error (.truncated q.field q.width left.length))
  | byte (name : String) (b : UInt8) (left : Bytes) :
    Consumes (.byte name) [b] left (.ok (.byte b))
  | word (name : String) (w : UInt32) (left : Bytes) :
    Consumes (.word name) (Word.toBytes w) left (.ok (.word w))
  | int (name : String) (w : UInt32) (left : Bytes) :
    Consumes (.int name) (Word.toBytes w) left (.ok (.int w.toInt32))
  | single (name : String) (w : UInt32) (left : Bytes) :
    Consumes (.single name) (Word.toBytes w) left (.ok (.single ⟨w⟩))
  | text (name : String) {w : UInt32} {body : Bytes} (left : Bytes) (h : body.length = w.toNat) :
    Consumes (.text name) (Word.toBytes w ++ body) left (.ok (.text (Text.decode body)))
  | textShort (name : String) {w : UInt32} {left : Bytes} (h : left.length < w.toNat) :
    Consumes (.text name) (Word.toBytes w) left
      (.error (.textTruncated name w.toNat left.length))
  | opcode (expected : Opcode) (left : Bytes) :
    Consumes (.opcode expected) (Word.toBytes expected.tag) left (.ok (.opcode expected))
  | mismatch {expected : Opcode} {found : UInt32} (left : Bytes) (h : found ≠ expected.tag) :
    Consumes (.opcode expected) (Word.toBytes found) left
      (.error (.opcodeMismatch expected found))

variable {q : Request} {used left : Bytes} {answer : Except DecodeError Item}

/-! ## Reading -/

theorem read_of_short (q : Request) {left : Bytes} (h : left.length < q.width) (n : Nat) :
    q.read ⟨n, left⟩ = (.error (.truncated q.field q.width left.length), ⟨n, left⟩) := by
  cases q with
  | byte name =>
    obtain rfl := List.length_eq_zero_iff.mp (Nat.lt_one_iff.mp h)
    rfl
  | word name | int name | single name =>
    simp only [read, Read.int, Read.single, Read.map_run, Read.word_of_short (c := ⟨n, left⟩) _ h]
    rfl
  | text name =>
    rw [read, Read.map_run, Read.text, Read.bind_of_error (Read.word_of_short (c := ⟨n, left⟩) _ h)]
    rfl
  | opcode expected =>
    rw [read, Read.map_run, Read.opcode,
      Read.bind_of_error (Read.word_of_short (c := ⟨n, left⟩) _ h)]
    rfl

theorem Consumes.read (h : q.Consumes used left answer) (n : Nat) :
    q.read ⟨n, used ++ left⟩ = (answer, ⟨n + used.length, left⟩) := by
  cases h with
  | short q h => exact read_of_short q h n
  | byte => rfl
  | word name w | int name w | single name w =>
    simp only [Request.read, Read.int, Read.single, Read.map_run, Read.word_toBytes,
      Word.length_toBytes]
  | @text name w body left h =>
    have hbody := Read.body_append name body (n + 4) left
    rw [h] at hbody
    rw [List.append_assoc, Request.read, Read.map_run, Read.text,
      Read.bind_of_ok (Read.word_toBytes name w n _), hbody, List.length_append,
      Word.length_toBytes, h, Nat.add_assoc]
  | @textShort name w left h =>
    have hshort : (left.take w.toNat).length ≠ w.toNat := by
      rw [List.length_take]
      omega
    rw [Request.read, Read.map_run, Read.text, Read.bind_of_ok (Read.word_toBytes name w n left),
      Read.body, if_neg hshort, Word.length_toBytes]
  | opcode expected left =>
    rw [Request.read, Read.map_run, Read.opcode,
      Read.bind_of_ok (Read.word_toBytes "opcode" _ n left), if_pos rfl, Read.pure_run,
      Word.length_toBytes]
  | @mismatch expected found left h =>
    rw [Request.read, Read.map_run, Read.opcode,
      Read.bind_of_ok (Read.word_toBytes "opcode" _ n left), if_neg h, Read.fail_run,
      Word.length_toBytes]

theorem exists_toBytes {bytes : Bytes} (h : 4 ≤ bytes.length) :
    ∃ w rest, bytes = Word.toBytes w ++ rest :=
  (Word.front_cases bytes).resolve_left (Nat.not_lt.mpr h)

theorem exists_consumes (q : Request) (bytes : Bytes) :
    ∃ used left answer, bytes = used ++ left ∧ q.Consumes used left answer := by
  rcases Nat.lt_or_ge bytes.length q.width with hshort | hwidth
  · exact ⟨[], bytes, _, rfl, .short q hshort⟩
  cases q with
  | byte name =>
    cases bytes with
    | nil => cases hwidth
    | cons b rest => exact ⟨[b], rest, _, rfl, .byte name b rest⟩
  | word name =>
    obtain ⟨w, rest, rfl⟩ := exists_toBytes hwidth
    exact ⟨_, rest, _, rfl, .word name w rest⟩
  | int name =>
    obtain ⟨w, rest, rfl⟩ := exists_toBytes hwidth
    exact ⟨_, rest, _, rfl, .int name w rest⟩
  | single name =>
    obtain ⟨w, rest, rfl⟩ := exists_toBytes hwidth
    exact ⟨_, rest, _, rfl, .single name w rest⟩
  | text name =>
    obtain ⟨w, rest, rfl⟩ := exists_toBytes hwidth
    rcases Nat.lt_or_ge rest.length w.toNat with hcut | hbody
    · exact ⟨_, rest, _, rfl, .textShort name hcut⟩
    · refine ⟨Word.toBytes w ++ rest.take w.toNat, rest.drop w.toNat, _, ?_,
        .text name _ (List.length_take_of_le hbody)⟩
      rw [List.append_assoc, List.take_append_drop]
  | opcode expected =>
    obtain ⟨w, rest, rfl⟩ := exists_toBytes hwidth
    by_cases hw : w = expected.tag
    · exact ⟨_, rest, _, by rw [hw], .opcode expected rest⟩
    · exact ⟨_, rest, _, rfl, .mismatch rest hw⟩

theorem consumes_read (q : Request) (c : Cursor) :
    ∃ used, c.rest = used ++ (q.read c).2.rest ∧
      (q.read c).2.position = c.position + used.length ∧
      q.Consumes used (q.read c).2.rest (q.read c).1 := by
  obtain ⟨n, bytes⟩ := c
  obtain ⟨used, left, answer, rfl, h⟩ := q.exists_consumes bytes
  rw [h.read n]
  exact ⟨used, rfl, rfl, h⟩

/-- An item is the same whatever stands behind the bytes that were passed. -/
theorem Consumes.replace {item : Item} (h : q.Consumes used left (.ok item)) (other : Bytes) :
    q.Consumes used other (.ok item) := by
  cases h with
  | byte name b => exact .byte name b other
  | word name w => exact .word name w other
  | int name w => exact .int name w other
  | single name w => exact .single name w other
  | text name left h => exact .text name other h
  | opcode expected => exact .opcode expected other

end RaceSteward.Request
