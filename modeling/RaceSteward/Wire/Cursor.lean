import RaceSteward.Wire.Item

/-!
# Reading from a cursor

A cursor stands in a byte string: so many bytes behind it, the rest ahead. A `Read` moves it forward
and gives a value or an error. An error does not undo the movement: a fixed-width read that fails
moves nothing, a text whose body is cut has passed its length, an opcode that does not match has
been passed.
-/

namespace RaceSteward

/-- The four ways in which bytes are no message. -/
inductive DecodeError where
  /-- Fewer bytes are left than a field of fixed width, or the length of a text, needs. -/
  | truncated (field : String) (needed remaining : Nat)
  /-- Fewer bytes are left than the length of a text declares. -/
  | textTruncated (field : String) (declared remaining : Nat)
  /-- The opcode is not the one asked for. -/
  | opcodeMismatch (expected : Opcode) (found : UInt32)
  /-- The word is no opcode. -/
  | unknownOpcode (tag : UInt32)
  deriving DecidableEq, Repr

def DecodeError.message : DecodeError → String
  | truncated field needed remaining =>
    s!"truncated {field}: needed {needed} bytes, {remaining} remaining"
  | textTruncated field declared remaining =>
    s!"truncated string {field}: declared {declared} bytes, {remaining} remaining"
  | opcodeMismatch expected found =>
    s!"opcode mismatch: expected {expected.text}, found {found.toNat}"
  | unknownOpcode tag => s!"unknown opcode {tag.toNat}"

structure Cursor where
  /-- How many bytes have been consumed. -/
  position : Nat
  /-- The bytes still ahead. -/
  rest : Bytes
  deriving DecidableEq, Repr

namespace Cursor

/-- The cursor before the first byte. -/
def start (bytes : Bytes) : Cursor := ⟨0, bytes⟩

def remaining (c : Cursor) : Nat := c.rest.length

end Cursor

/-- A step of reading: the answer, and the cursor after it. -/
def Read (α : Type) : Type :=
  Cursor → Except DecodeError α × Cursor

namespace Read

variable {α β : Type}

protected def pure (a : α) : Read α := fun c => (.ok a, c)

/-- The second read starts where the first ended; an error of the first ends both. -/
protected def bind (r : Read α) (k : α → Read β) : Read β := fun c =>
  match r c with
  | (.ok a, c) => k a c
  | (.error e, c) => (.error e, c)

instance : Monad Read where
  pure := Read.pure
  bind := Read.bind

def fail (e : DecodeError) : Read α := fun c => (.error e, c)

/-- The answer of a read over a whole byte string. -/
def run (r : Read α) (bytes : Bytes) : Except DecodeError α :=
  (r (.start bytes)).1

/-! ## One item -/

def byte (field : String) : Read UInt8 := fun c =>
  match c.rest with
  | b :: rest => (.ok b, ⟨c.position + 1, rest⟩)
  | [] => (.error (.truncated field 1 0), c)

def word (field : String) : Read UInt32 := fun c =>
  match c.rest with
  | b₀ :: b₁ :: b₂ :: b₃ :: rest => (.ok (Word.ofBytes b₀ b₁ b₂ b₃), ⟨c.position + 4, rest⟩)
  | short => (.error (.truncated field 4 short.length), c)

def int (field : String) : Read Int32 :=
  (·.toInt32) <$> word field

def single (field : String) : Read Single :=
  Single.mk <$> word field

/-- A text of `count` bytes. -/
def body (field : String) (count : Nat) : Read String := fun c =>
  if (c.rest.take count).length = count then
    (.ok (Text.decode (c.rest.take count)), ⟨c.position + count, c.rest.drop count⟩)
  else
    (.error (.textTruncated field count c.rest.length), c)

/-- A text: the count of its bytes, then the bytes. -/
def text (field : String) : Read String := do
  let count ← word field
  body field count.toNat

/-- An opcode that has to be `expected`. -/
def opcode (expected : Opcode) : Read Unit := do
  let found ← word "opcode"
  if found = expected.tag then pure () else fail (.opcodeMismatch expected found)

/-! ## The same read again and again -/

/-- How a repeated read went. -/
structure Tries (α : Type) where
  /-- For how many values room was made before the first was read. -/
  room : Nat
  /-- What was read before the end or the first error, in order. -/
  got : List α
  outcome : Except DecodeError Unit
  cursor : Cursor

/-- Puts values into the room made for them until `n` have been read or one cannot be read. -/
def fill (r : Read α) (room : Nat) : Nat → Cursor → Tries α
  | 0, c => ⟨room, [], .ok (), c⟩
  | n + 1, c =>
    match r c with
    | (.ok a, c) =>
      let t := fill r room n c
      { t with got := a :: t.got }
    | (.error e, c) => ⟨room, [], .error e, c⟩

/-- Reads `n` values of at least `size` bytes each. Room is made for no more of them than the bytes
that are there can hold, as `n` comes from the peer. -/
def tries (size : Nat) (r : Read α) (n : Nat) (c : Cursor) : Tries α :=
  fill r (min n (c.remaining / size)) n c

/-- What a repeated read answers: all that it has got, or its error. -/
def times (size : Nat) (r : Read α) (n : Nat) : Read (List α) := fun c =>
  let t := tries size r n c
  (t.outcome.map fun _ => t.got, t.cursor)

/-! ## Running a read -/

@[simp] theorem pure_run (a : α) (c : Cursor) : (pure a : Read α) c = (.ok a, c) := rfl

@[simp] theorem fail_run (e : DecodeError) (c : Cursor) : (fail e : Read α) c = (.error e, c) := rfl

theorem bind_run (r : Read α) (k : α → Read β) (c : Cursor) :
    (r >>= k) c = match r c with
      | (.ok a, c) => k a c
      | (.error e, c) => (.error e, c) := rfl

theorem bind_of_ok {r : Read α} {k : α → Read β} {c d : Cursor} {a : α} (h : r c = (.ok a, d)) :
    (r >>= k) c = k a d := by
  rw [bind_run, h]

theorem bind_of_error {r : Read α} {k : α → Read β} {c d : Cursor} {e : DecodeError}
    (h : r c = (.error e, d)) : (r >>= k) c = (.error e, d) := by
  rw [bind_run, h]

theorem map_run (f : α → β) (r : Read α) (c : Cursor) :
    (f <$> r) c = match r c with
      | (.ok a, c) => (.ok (f a), c)
      | (.error e, c) => (.error e, c) := rfl

section Repeated

variable {r : Read α} {room n : Nat} {c d : Cursor}

theorem fill_of_ok {a : α} (h : r c = (.ok a, d)) :
    fill r room (n + 1) c = { fill r room n d with got := a :: (fill r room n d).got } := by
  rw [fill, h]

theorem fill_of_error {e : DecodeError} (h : r c = (.error e, d)) :
    fill r room (n + 1) c = ⟨room, [], .error e, d⟩ := by
  rw [fill, h]

@[simp] theorem room_fill (r : Read α) (room n : Nat) (c : Cursor) :
    (fill r room n c).room = room := by
  induction n generalizing c with
  | zero => rfl
  | succ n ih =>
    rcases hr : r c with ⟨e | a, d⟩
    · rw [fill_of_error hr]
    · rw [fill_of_ok hr]
      exact ih d

/-- The room changes nothing about what is read. -/
theorem fill_eq (r : Read α) (room room' n : Nat) (c : Cursor) :
    fill r room n c = { fill r room' n c with room := room } := by
  induction n generalizing c with
  | zero => rfl
  | succ n ih =>
    rcases hr : r c with ⟨e | a, d⟩
    · rw [fill_of_error hr, fill_of_error hr]
    · rw [fill_of_ok hr, fill_of_ok hr, ih d]

/-- Whatever room is made, the answer is that of the loop. -/
theorem times_run (size : Nat) (r : Read α) (room n : Nat) (c : Cursor) :
    times size r n c =
      ((fill r room n c).outcome.map fun _ => (fill r room n c).got, (fill r room n c).cursor) := by
  show ((fill r _ n c).outcome.map fun _ => (fill r _ n c).got, (fill r _ n c).cursor) = _
  rw [fill_eq r _ room]

@[simp] theorem times_zero (size : Nat) (r : Read α) : times size r 0 = pure [] := rfl

/-- One more read is in front of the others. -/
theorem times_succ (size : Nat) (r : Read α) (n : Nat) :
    times size r (n + 1) = (do
      let a ← r
      let as ← times size r n
      pure (a :: as)) := by
  funext c
  -- the room does not matter, so there may be none
  rw [times_run size r 0 (n + 1) c]
  rcases hr : r c with ⟨e | a, d⟩
  · rw [fill_of_error hr]
    exact (bind_of_error hr).symm
  · rw [fill_of_ok hr, bind_of_ok hr, bind_run, times_run size r 0 n d]
    cases (fill r 0 n d).outcome <;> rfl

end Repeated

end Read

end RaceSteward
