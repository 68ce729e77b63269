import RaceSteward.Bytes
import RaceSteward.Decimal.Shortest

/-!
# Single-precision numbers as text

A finite number is written with its shortest digits, positionally while its point lies at most
thirteen places behind the first digit and at most five zeros before it.
-/

namespace RaceSteward.Single

def isNegative (x : Single) : Bool := decide (2147483648 ≤ x.bits.toNat)

/-- The eight bits of the exponent. -/
def biased (x : Single) : Nat := x.bits.toNat / 8388608 % 256

/-- The twenty-three bits of the fraction. -/
def stored (x : Single) : Nat := x.bits.toNat % 8388608

def isFinite (x : Single) : Bool := decide (x.biased < 255)

/-- The magnitude of a finite number as `m * 2 ^ e`. -/
def magnitude (x : Single) : Nat × Int :=
  if x.biased = 0 then (x.stored, -149) else (x.stored + 8388608, (x.biased : Int) - 150)

def style : Decimal.Style := ⟨-5, 13⟩

def unsignedText (x : Single) : List Char :=
  let (m, e) := x.magnitude
  if m = 0 then ['0', '.', '0']
  else
    let (d, k) := Decimal.shortest m e (x.stored = 0 && decide (1 < x.biased))
    Decimal.layOut style (Nat.toDigits 10 d) k

/-- The text of a finite number; infinities and NaN have none. -/
def text? (x : Single) : Option (List Char) :=
  if x.isFinite then
    some ((if x.isNegative then ['-'] else []) ++ x.unsignedText)
  else none

/-- The number with the magnitude `m * 2 ^ e`, which has to be one of the format. -/
def ofParts (negative : Bool) (m : Nat) (e : Int) : Single :=
  let magnitude := if m < 8388608 then m else (e + 150).toNat * 8388608 + (m - 8388608)
  ⟨UInt32.ofNat (magnitude + if negative then 2147483648 else 0)⟩

def infinity (negative : Bool) : Single := ⟨if negative then 4286578688 else 2139095040⟩

/-- The number nearest to a fraction. -/
def ofFraction (negative : Bool) (num den : Nat) : Single :=
  match Decimal.nearest Decimal.binary32 num den with
  | some (m, e) => ofParts negative m e
  | none => infinity negative

end RaceSteward.Single
