/-!
# Rounding to binary formats

A binary format keeps numbers `m * 2 ^ e` with `m` below `2 ^ precision` and `e` between two bounds.
`nearest` finds the number of a format nearest to a fraction; of two that are equally near, the one
with an even `m`.
-/

namespace RaceSteward.Decimal

structure BinaryFormat where
  precision : Nat
  minExp : Int
  maxExp : Int
  deriving DecidableEq, Repr

def binary32 : BinaryFormat := ⟨24, -149, 104⟩

def binary64 : BinaryFormat := ⟨53, -1074, 971⟩

/-- The whole number nearest to `num / den`; a half goes to the even neighbour. -/
def divHalfEven (num den : Nat) : Nat :=
  let q := num / den
  let r := num % den
  if 2 * r < den then q
  else if den < 2 * r then q + 1
  else if q % 2 = 0 then q else q + 1

/-- The fraction `num / den` divided by `2 ^ e`. -/
def scale2 (num den : Nat) : Int → Nat × Nat
  | .ofNat e => (num, den * Nat.pow 2 e)
  | .negSucc e => (num * Nat.pow 2 (e + 1), den)

/-- The exponent at which the fraction has as many binary digits before the point as the format
keeps, but never below the least exponent of the format. -/
def exponentFor (f : BinaryFormat) (num den : Nat) : Int :=
  let low : Int := (num.log2 : Int) - (den.log2 : Int) - (f.precision : Int)
  let (n, d) := scale2 num den low
  max f.minExp (if d * Nat.pow 2 f.precision ≤ n then low + 1 else low)

/-- The number of the format nearest to `num / den`, none above the greatest. -/
def nearest (f : BinaryFormat) (num den : Nat) : Option (Nat × Int) :=
  if num = 0 then some (0, f.minExp)
  else
    let e := exponentFor f num den
    let (n, d) := scale2 num den e
    let m := divHalfEven n d
    let (m, e) := if m = Nat.pow 2 f.precision then (Nat.pow 2 (f.precision - 1), e + 1) else (m, e)
    if f.maxExp < e then none else some (m, e)

/-- The fraction that `m * 2 ^ e` is. -/
def fraction2 (m : Nat) : Int → Nat × Nat
  | .ofNat e => (m * Nat.pow 2 e, 1)
  | .negSucc e => (m, Nat.pow 2 (e + 1))

/-- The fraction that `m * 10 ^ e` is. -/
def fraction10 (m : Nat) : Int → Nat × Nat
  | .ofNat e => (m * Nat.pow 10 e, 1)
  | .negSucc e => (m, Nat.pow 10 (e + 1))

end RaceSteward.Decimal
