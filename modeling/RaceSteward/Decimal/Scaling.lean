import RaceSteward.Decimal.Rounding

/-!
# Scaling by powers of ten

Digits and a power of ten become a double-precision number in steps, each of them rounded: the digits
as a whole number, the power, and their product or quotient. The powers end at `10 ^ 308`, so that a
quotient by a greater one takes several steps.

* `scaled`: the number, none for one that is too great.
-/

namespace RaceSteward.Decimal

def product (f : BinaryFormat) (x y : Nat × Int) : Option (Nat × Int) :=
  let (num, den) := fraction2 (x.1 * y.1) (x.2 + y.2)
  nearest f num den

def quotient (f : BinaryFormat) (x y : Nat × Int) : Option (Nat × Int) :=
  let (n, d) := fraction2 x.1 x.2
  let (n', d') := fraction2 y.1 y.2
  nearest f (n * d') (d * n')

/-- The greatest power of ten in double precision. -/
def maxTens : Nat := 308

def tenTo (k : Nat) : Option (Nat × Int) :=
  nearest binary64 (Nat.pow 10 k) 1

/-- Divides by `10 ^ k`, at most `10 ^ 308` at a time, until nothing is left to divide. -/
def divideByTens (x : Nat × Int) (k : Nat) : Option (Nat × Int) := do
  if k ≤ maxTens then quotient binary64 x (← tenTo k)
  else if x.1 = 0 then some x
  else divideByTens (← quotient binary64 x (← tenTo maxTens)) (k - maxTens)
termination_by k
decreasing_by
  simp only [maxTens] at *
  omega

def scaled (digits : Nat) (exponent : Int) : Option (Nat × Int) := do
  let x ← nearest binary64 digits 1
  match exponent with
  | .ofNat k =>
    if k ≤ maxTens then product binary64 x (← tenTo k)
    else if digits = 0 then some x
    else none
  | .negSucc k => divideByTens x (k + 1)

end RaceSteward.Decimal
