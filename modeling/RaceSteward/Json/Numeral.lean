/-!
# JSON numerals

A numeral is kept as written: a sign, whole digits without a needless zero in front, perhaps a
fraction, perhaps an exponent.
-/

namespace RaceSteward.Json

structure Numeral where
  negative : Bool
  whole : List Char
  fraction : Option (List Char)
  /-- Whether the exponent is negative, and its digits. -/
  exponent : Option (Bool × List Char)
  deriving DecidableEq, Repr

namespace Numeral

/-- The digits at the front, and what follows. -/
def digits (s : List Char) : List Char × List Char :=
  (s.takeWhile Char.isDigit, s.dropWhile Char.isDigit)

/-- The whole digits at the front: a zero alone, or digits that start with another. -/
def whole? (s : List Char) : Option (List Char × List Char) :=
  match digits s with
  | ([], _) => none
  | ('0' :: _ :: _, _) => none
  | (whole, rest) => some (whole, rest)

/-- A fraction at the front, if a point opens one. -/
def fraction? : List Char → Option (Option (List Char) × List Char)
  | '.' :: s =>
    match digits s with
    | ([], _) => none
    | (fraction, rest) => some (some fraction, rest)
  | s => some (none, s)

/-- The sign and the digits of an exponent. -/
def signedDigits? : List Char → Option ((Bool × List Char) × List Char)
  | '-' :: s =>
    match digits s with
    | ([], _) => none
    | (exponent, rest) => some ((true, exponent), rest)
  | '+' :: s =>
    match digits s with
    | ([], _) => none
    | (exponent, rest) => some ((false, exponent), rest)
  | s =>
    match digits s with
    | ([], _) => none
    | (exponent, rest) => some ((false, exponent), rest)

/-- An exponent at the front, if a letter opens one. -/
def exponent? : List Char → Option (Option (Bool × List Char) × List Char)
  | 'e' :: s => (signedDigits? s).map fun (exponent, rest) => (some exponent, rest)
  | 'E' :: s => (signedDigits? s).map fun (exponent, rest) => (some exponent, rest)
  | s => some (none, s)

/-- The numeral after its sign. -/
def unsigned? (negative : Bool) (s : List Char) : Option (Numeral × List Char) := do
  let (whole, rest) ← whole? s
  let (fraction, rest) ← fraction? rest
  let (exponent, rest) ← exponent? rest
  some (⟨negative, whole, fraction, exponent⟩, rest)

/-- A numeral at the front, and what follows. -/
def parse? : List Char → Option (Numeral × List Char)
  | '-' :: s => unsigned? true s
  | s => unsigned? false s

def render (n : Numeral) : List Char :=
  (if n.negative then ['-'] else []) ++ n.whole ++
    (match n.fraction with
      | some digits => '.' :: digits
      | none => []) ++
    (match n.exponent with
      | some (true, digits) => 'e' :: '-' :: digits
      | some (false, digits) => 'e' :: digits
      | none => [])

/-! ## Values -/

/-- The number that decimal digits stand for. -/
def natOf (digits : List Char) : Nat :=
  Nat.ofDigitChars 10 digits 0

/-- The numeral of a natural number. -/
def ofNat (n : Nat) : Numeral :=
  ⟨false, Nat.toDigits 10 n, none, none⟩

/-- The numeral of an integer. -/
def ofInt : Int → Numeral
  | .ofNat n => ofNat n
  | .negSucc n => { ofNat (n + 1) with negative := true }

/-- The integer a numeral is, when it is written as one of at most 64 bits. A zero with a sign is
no integer, and neither is a whole number written with a point or an exponent. -/
def toInt? (n : Numeral) : Option Int :=
  match n.fraction, n.exponent with
  | none, none =>
    let value := natOf n.whole
    if n.negative then
      if 0 < value ∧ value ≤ 9223372036854775808 then some (-Int.ofNat value) else none
    else if value < 18446744073709551616 then some (Int.ofNat value) else none
  | _, _ => none

/-- The greatest number that the digits of a numeral are counted up to. -/
def maxDigits : Nat := 18446744073709551615

/-- Appends digits to a number until one would carry it beyond the greatest; that one and all after
it are left. -/
def gather (value : Nat) : List Char → Nat × List Char
  | [] => (value, [])
  | c :: s =>
    let next := 10 * value + (c.toNat - 48)
    if next ≤ maxDigits then gather next s else (value, c :: s)

/-- The digits that count, without the point, and the power of ten that they count. -/
def scientific (n : Numeral) : Nat × Int :=
  let fraction := n.fraction.getD []
  let exponent : Int := match n.exponent with
    | some (true, digits) => -(Int.ofNat (natOf digits))
    | some (false, digits) => Int.ofNat (natOf digits)
    | none => 0
  let (value, skipped) := gather 0 n.whole
  let (value, left) := gather value fraction
  (value, exponent + Int.ofNat skipped.length - Int.ofNat (fraction.length - left.length))

end Numeral

end RaceSteward.Json
