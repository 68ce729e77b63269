import RaceSteward.Wire.Cursor

/-!
# Items one by one

Items are put behind one another by a writer and asked for one after another at a cursor. A request
that fails is answered like any other: the next one is read from where it has left the cursor.
-/

namespace RaceSteward

/-! ## Writing -/

namespace Item

/-- The bytes put so far. -/
structure Writer where
  bytes : Bytes
  deriving DecidableEq, Repr

namespace Writer

def empty : Writer := ⟨[]⟩

def length (w : Writer) : Nat := w.bytes.length

def isEmpty (w : Writer) : Bool := w.bytes.isEmpty

/-- Puts an item behind everything else. -/
def put (w : Writer) (item : Item) : Writer := ⟨w.bytes ++ item.bytes⟩

/-- Puts items one after another. -/
def puts (w : Writer) (items : List Item) : Writer :=
  items.foldl put w

@[simp] theorem puts_nil (w : Writer) : w.puts [] = w := rfl

@[simp] theorem puts_cons (w : Writer) (item : Item) (items : List Item) :
    w.puts (item :: items) = (w.put item).puts items := rfl

theorem bytes_puts (w : Writer) (items : List Item) :
    (w.puts items).bytes = w.bytes ++ concat items := by
  induction items generalizing w with
  | nil => exact (List.append_nil _).symm
  | cons item items ih => rw [puts_cons, ih, put, concat_cons, List.append_assoc]

end Writer

end Item

/-! ## Reading -/

/-- What is asked of a cursor: an item of some kind, for a field of this name, or an opcode that has to
be the one expected. -/
inductive Request where
  | byte (field : String)
  | word (field : String)
  | int (field : String)
  | single (field : String)
  | text (field : String)
  | opcode (expected : Opcode)
  deriving DecidableEq, Repr

def Request.read : Request → Read Item
  | byte field => Item.byte <$> Read.byte field
  | word field => Item.word <$> Read.word field
  | int field => Item.int <$> Read.int field
  | single field => Item.single <$> Read.single field
  | text field => Item.text <$> Read.text field
  | opcode expected => (fun _ => Item.opcode expected) <$> Read.opcode expected

namespace Cursor

/-- The answers to requests one after another, and the cursor after them. -/
def run (c : Cursor) : List Request → List (Except DecodeError Item) × Cursor
  | [] => ([], c)
  | q :: qs =>
    let (answer, c) := q.read c
    let (answers, c) := c.run qs
    (answer :: answers, c)

@[simp] theorem run_nil (c : Cursor) : c.run [] = ([], c) := rfl

theorem run_cons (c : Cursor) (q : Request) (qs : List Request) :
    c.run (q :: qs) = ((q.read c).1 :: ((q.read c).2.run qs).1, ((q.read c).2.run qs).2) := rfl

theorem run_append (c : Cursor) (qs more : List Request) :
    c.run (qs ++ more) =
      ((c.run qs).1 ++ ((c.run qs).2.run more).1, ((c.run qs).2.run more).2) := by
  induction qs generalizing c with
  | nil => rfl
  | cons q qs ih => rw [List.cons_append, run_cons, ih, run_cons, List.cons_append]

end Cursor

end RaceSteward
