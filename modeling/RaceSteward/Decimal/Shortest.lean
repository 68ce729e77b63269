import RaceSteward.Decimal.Rounding

/-!
# Shortest digits

The decimal text of a binary number needs only as many digits as tell it from its neighbours. The
numbers that round to `m * 2 ^ e` form an interval, with its ends when `m` is even. Of the decimal
grids `10 ^ k`, from coarse to fine, the first that has a point in the interval gives the digits; of
two points on it the nearer one.
-/

namespace RaceSteward.Decimal

/-- The interval of a number, in quarters of its last binary place: its low end, the number, its high
end, and whether the ends belong to it. Below a power of two the neighbours are twice as dense. -/
structure Interval where
  low : Nat
  value : Nat
  high : Nat
  closed : Bool
  deriving DecidableEq, Repr

def Interval.of (m : Nat) (denseBelow : Bool) : Interval :=
  ⟨4 * m - (if denseBelow then 1 else 2), 4 * m, 4 * m + 2, m % 2 = 0⟩

/-- Whether the fraction `num / den` lies in the interval, both in quarters. -/
def Interval.has (i : Interval) (num den : Nat) : Bool :=
  if i.closed then decide (i.low * den ≤ num ∧ num ≤ i.high * den)
  else decide (i.low * den < num ∧ num < i.high * den)

/-- The point `d * 10 ^ k`, counted in quarters of `2 ^ e`. -/
def gridPoint (d : Nat) (k e : Int) : Nat × Nat :=
  let (num, den) := fraction10 d k
  scale2 num den (e - 2)

/-- The digits on one grid, if a point of it lies in the interval. -/
def onGrid (i : Interval) (e k : Int) : Option Nat :=
  let (num, den) := gridPoint 1 k e
  let below := i.value * den / num
  let above := below + 1
  let hasBelow := i.has (below * num) den
  let hasAbove := i.has (above * num) den
  if hasBelow && hasAbove then
    if 2 * (i.value * den) ≤ (below + above) * num then some below else some above
  else if hasBelow then some below
  else if hasAbove then some above
  else none

/-- Tries the grids from `10 ^ k` downwards. -/
def search (i : Interval) (e : Int) : Nat → Int → Nat × Int
  | 0, k => (0, k)
  | fuel + 1, k =>
    match onGrid i e k with
    | some d => (d, k)
    | none => search i e fuel (k - 1)

/-- The shortest digits `d` and their power of ten `k`, for a number from `10 ^ -60` to `10 ^ 40`. -/
def shortest (m : Nat) (e : Int) (denseBelow : Bool) : Nat × Int :=
  search (.of m denseBelow) e 100 40

/-- Where positional writing ends: least and greatest place of the point, counted from the front of
the digits. -/
structure Style where
  least : Int
  greatest : Int
  deriving DecidableEq, Repr

/-- Digits written with a point, or with an exponent when the point lies too far from them. A whole
number keeps `.0`. -/
def layOut (style : Style) (digits : List Char) (k : Int) : List Char :=
  let point : Int := digits.length + k
  if 0 ≤ k ∧ point ≤ style.greatest then
    digits ++ List.replicate k.toNat '0' ++ ['.', '0']
  else if 0 < point ∧ point ≤ style.greatest then
    digits.take point.toNat ++ '.' :: digits.drop point.toNat
  else if style.least ≤ point ∧ point ≤ 0 then
    '0' :: '.' :: List.replicate (-point).toNat '0' ++ digits
  else
    let exponent := (toString (point - 1)).toList
    match digits with
    | [d] => d :: 'e' :: exponent
    | d :: more => d :: '.' :: more ++ 'e' :: exponent
    | [] => []

end RaceSteward.Decimal
