import RaceSteward.Wire.Cursor

/-!
# Layouts

A layout says in which order the fields of a value stand on the wire: which named items the value is
written as, and how it is read back. Layouts are put together from one-item layouts, so the order of
the fields is written once for both directions.
-/

namespace RaceSteward

/-- A named item. -/
structure Field where
  name : String
  item : Item
  deriving DecidableEq, Repr

namespace Field

/-- The bytes of fields in order. -/
def concat (fields : List Field) : Bytes :=
  Item.concat (fields.map item)

end Field

structure Layout (α : Type) where
  fields : α → List Field
  read : Read α

namespace Layout

variable {α β : Type}

def write (l : Layout α) (a : α) : Bytes :=
  Field.concat (l.fields a)

/-! ## One item -/

def byte (name : String) : Layout UInt8 := ⟨fun v => [⟨name, .byte v⟩], .byte name⟩

def word (name : String) : Layout UInt32 := ⟨fun v => [⟨name, .word v⟩], .word name⟩

def int (name : String) : Layout Int32 := ⟨fun v => [⟨name, .int v⟩], .int name⟩

def single (name : String) : Layout Single := ⟨fun v => [⟨name, .single v⟩], .single name⟩

def text (name : String) : Layout String := ⟨fun v => [⟨name, .text v⟩], .text name⟩

/-! ## Putting layouts together -/

/-- Nothing on the wire. -/
def nothing : Layout Unit := ⟨fun _ => [], pure ()⟩

/-- One value after another. -/
def and (l : Layout α) (r : Layout β) : Layout (α × β) where
  fields p := l.fields p.1 ++ r.fields p.2
  read := do
    let a ← l.read
    let b ← r.read
    pure (a, b)

/-- The same bytes seen as another type. -/
def as (l : Layout α) (make : α → β) (parts : β → α) : Layout β where
  fields b := l.fields (parts b)
  read := make <$> l.read

/-- A count, then as many values of at least `size` bytes each. -/
def list (name : String) (size : Nat) (l : Layout α) : Layout (List α) where
  fields as := ⟨name, .word (UInt32.ofNat as.length)⟩ :: as.flatMap l.fields
  read := do
    let count ← Read.word name
    Read.times size l.read count.toNat

end Layout

end RaceSteward
