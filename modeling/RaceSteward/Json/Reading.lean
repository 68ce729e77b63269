import RaceSteward.Json.Document
import RaceSteward.Decimal.Scaling
import RaceSteward.Decimal.SingleText

/-!
# Reading values out of documents

The values that records are made of: texts, bounded integers, numbers, and records themselves. A
record is an object with each of its fields exactly once, in any order, or an array with its fields
in order.
-/

namespace RaceSteward.Json

def asText? : Json → Option String
  | text body => (unescape? body).map String.ofList
  | _ => none

/-- An integer between two bounds. -/
def asInt? (least greatest : Int) : Json → Option Int
  | number n => do
    let value ← n.toInt?
    if least ≤ value ∧ value ≤ greatest then some value else none
  | _ => none

/-- A natural number up to a bound. -/
def asNat? (greatest : Nat) (j : Json) : Option Nat :=
  (j.asInt? 0 greatest).map Int.toNat

def asByte? (j : Json) : Option UInt8 :=
  (j.asNat? 255).map UInt8.ofNat

def asWord? (j : Json) : Option UInt32 :=
  (j.asNat? 4294967295).map UInt32.ofNat

def asInt32? (j : Json) : Option Int32 :=
  (j.asInt? (-2147483648) 2147483647).map Int32.ofInt

def asArray? : Json → Option (List Json)
  | array items => some items
  | _ => none

/-! ## Numbers -/

/-- The double-precision number that a numeral is, none for one that is too great. -/
def Numeral.toDouble? (n : Numeral) : Option (Nat × Int) :=
  let (digits, exponent) := n.scientific
  Decimal.scaled digits exponent

/-- A numeral that is neither an integer nor within double precision. -/
def Numeral.isTooGreat (n : Numeral) : Bool :=
  n.toInt?.isNone && n.toDouble?.isNone

/-- A numeral as a single-precision number: an integer is rounded once, anything else first to
double precision. -/
def Numeral.toSingle? (n : Numeral) : Option Single :=
  match n.toInt? with
  | some value => some (Single.ofFraction n.negative value.natAbs 1)
  | none => do
    let (m, e) ← n.toDouble?
    let (num, den) := Decimal.fraction2 m e
    some (Single.ofFraction n.negative num den)

def asSingle? : Json → Option Single
  | number n => n.toSingle?
  | _ => none

/-- A finite number by its text, anything else as `null`. -/
def ofSingle (x : Single) : Json :=
  match x.text? with
  | some chars =>
    match Numeral.parse? chars with
    | some (n, _) => number n
    | none => null
  | none => null

/-! ## Records -/

/-- Whether fields that are not asked for may stand in a record. -/
inductive Extras where
  | ignored
  | refused
  deriving DecidableEq, Repr

/-- The members of an object by the texts of their keys. -/
def keyed? (members : List (List Char × Json)) : Option (List (String × Json)) :=
  members.mapM fun (key, value) => (unescape? key).map fun key => (String.ofList key, value)

/-- The value of the one member with this key. -/
def only? (members : List (String × Json)) (name : String) : Option Json :=
  match members.filter (·.1 = name) with
  | [(_, value)] => some value
  | _ => none

/-- The values of the fields of a record, in the order of their names. -/
def fields? (extras : Extras) (names : List String) : Json → Option (List Json)
  | array items => if items.length = names.length then some items else none
  | object members => do
    let members ← keyed? members
    if extras = .refused ∧ ¬ members.all (fun member => names.contains member.1) then none
    else names.mapM (only? members)
  | _ => none

/-- A tag and the rest of the document: the text of the one member `key`, or the first item of an
array. -/
def tagged? (key : String) : Json → Option (String × Json)
  | object members => do
    let keys ← keyed? members
    let tag ← (← only? keys key).asText?
    some (tag, object (members.filter fun member => unescape? member.1 ≠ some key.toList))
  | array (tag :: items) => do
    let tag ← tag.asText?
    some (tag, array items)
  | _ => none

/-- A whole text that is buffered before it is looked at: every literal has to mean something, and
nesting ends at 127 levels. -/
def buffered? (s : String) : Option Json := do
  let j ← parse? s
  if j.literalsSound Numeral.isTooGreat && decide (j.depth ≤ 127) then some j else none

end RaceSteward.Json
