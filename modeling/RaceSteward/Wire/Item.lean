import RaceSteward.Text
import RaceSteward.Opcode

/-!
# Items

The values that stand on the wire one after another, and the bytes of each. A text is preceded by
the count of its bytes; everything else has a fixed width.
-/

namespace RaceSteward

inductive Item where
  | byte (value : UInt8)
  | word (value : UInt32)
  | int (value : Int32)
  | single (value : Single)
  | text (value : String)
  | opcode (value : Opcode)
  deriving DecidableEq, Repr

namespace Item

def bytes : Item → Bytes
  | byte v => [v]
  | word v => Word.toBytes v
  | int v => Word.toBytes v.toUInt32
  | single v => Word.toBytes v.bits
  | text v => Word.toBytes (UInt32.ofNat v.length) ++ Text.encode v
  | opcode v => Word.toBytes v.tag

/-- What is left of an item after its journey: characters without a byte become `?`. -/
def narrow : Item → Item
  | text v => text (Text.narrow v)
  | item => item

/-- The length of a text fits its four-byte count. -/
def Fits : Item → Prop
  | text v => v.length < 4294967296
  | _ => True

instance : (item : Item) → Decidable item.Fits
  | text v => inferInstanceAs (Decidable (v.length < 4294967296))
  | byte _ | word _ | int _ | single _ | opcode _ => isTrue trivial

/-- The bytes of items in order. -/
def concat (items : List Item) : Bytes :=
  items.flatMap bytes

@[simp] theorem concat_nil : concat [] = [] := rfl

@[simp] theorem concat_cons (item : Item) (items : List Item) :
    concat (item :: items) = item.bytes ++ concat items := rfl

@[simp] theorem concat_append (a b : List Item) : concat (a ++ b) = concat a ++ concat b :=
  List.flatMap_append

end Item

end RaceSteward
