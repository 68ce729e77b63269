/-!
# Pace

A loop that works once per period. Times are nanoseconds on a monotonic clock. A wakeup more than a
tenth of the period late is an overrun; a pacer that skips starts a new period at each wakeup and
counts the whole periods it slept through, one that drops keeps to the times first planned.

* `Pacer.wake` takes the time at which a sleep that ends at `Pacer.deadline` at the earliest has
  ended.
* `Pacer.new` and `Pacer.wake` reckon with times without end; `Pacer.new?` and `Pacer.wake?` have no
  answer where the next tick would be due later than the clock can tell.
-/

namespace RaceSteward

/-- What a late wakeup does to the times after it. -/
inductive LatePolicy where
  /-- The next period starts now. -/
  | skip
  /-- The next time is one period after the last planned one. -/
  | drop
  deriving DecidableEq, Repr

def LatePolicy.name : LatePolicy → String
  | skip => "Skip"
  | drop => "Drop"

/-- A double-precision number by its pattern. -/
structure Double where
  bits : UInt64
  deriving DecidableEq, Repr

namespace Double

def zero : Double := ⟨0⟩

def one : Double := ⟨4607182418800017408⟩

/-- 0.8 -/
def fourFifths : Double := ⟨4605380978949069210⟩

def isNaN (x : Double) : Bool :=
  decide (9218868437227405312 < x.bits.toNat % 9223372036854775808)

/-- Raises numbers below zero to zero and lowers those above one to one; keeps every other number,
a zero with a sign and NaN included. -/
def clampUnit (x : Double) : Double :=
  if x.isNaN then x
  else if 9223372036854775808 < x.bits.toNat then zero
  else if x.bits.toNat = 9223372036854775808 then x
  else if one.bits < x.bits then one
  else x

end Double

structure PaceConfig where
  /-- Nanoseconds between two ticks. -/
  period : Nat
  policy : LatePolicy
  /-- The share of the period that the work of a tick may take before it is logged. -/
  warnShare : Double
  deriving DecidableEq, Repr

namespace PaceConfig

def default : PaceConfig := ⟨10000000, .skip, .fourFifths⟩

/-- The shortest period. -/
def minPeriod : Nat := 1000000

/-- Whether the period is raised. -/
def isTooShort (c : PaceConfig) : Bool := decide (c.period < minPeriod)

/-- The settings with every value within its limits. -/
def validated (c : PaceConfig) : PaceConfig :=
  { c with period := max minPeriod c.period, warnShare := c.warnShare.clampUnit }

end PaceConfig

/-- A tick that has come. -/
structure Tick where
  /-- Counted from 1. -/
  number : Nat
  /-- More than a tenth of the period late. -/
  overrun : Bool
  /-- Whole periods slept through, counted in 64 bits. -/
  skipped : Nat
  deriving DecidableEq, Repr

structure Pacer where
  config : PaceConfig
  count : Nat
  overruns : Nat
  /-- When the next tick is due. -/
  deadline : Nat
  /-- When the work of the current tick began. -/
  workBegan : Option Nat
  deriving DecidableEq, Repr

namespace Pacer

/-- A pacer whose first tick is due one period from now. -/
def new (config : PaceConfig) (now : Nat) : Pacer :=
  let config := config.validated
  ⟨config, 0, 0, now + config.period, none⟩

/-- The tick of a sleep that has ended at `now`. -/
def wake (p : Pacer) (now : Nat) : Tick × Pacer :=
  let period := p.config.period
  let late := now - p.deadline
  let overrun := decide (period / 10 < late)
  let skipped := match p.config.policy with
    | .skip => if overrun then late / period % 18446744073709551616 else 0
    | .drop => 0
  let next := match p.config.policy with
    | .skip => now + period
    | .drop => p.deadline + period
  let count := p.count + 1
  (⟨count, overrun, skipped⟩,
    { p with
      count := count, overruns := p.overruns + (if overrun then 1 else 0), deadline := next,
      workBegan := some now })

/-- The work of the tick is done. -/
def finish (p : Pacer) : Pacer :=
  { p with workBegan := none }

/-! ## What the machine can hold -/

/-- The last time that the clock can tell: its seconds have 63 bits. -/
def latest : Nat := 9223372036854775807999999999

/-- The clock can tell when the next tick is due, and 64 bits can count the ticks. -/
def fits (p : Pacer) : Bool :=
  decide (p.deadline ≤ latest) && decide (p.count < 18446744073709551616)

/-- A new pacer, if the clock can tell when its first tick is due. -/
def new? (config : PaceConfig) (now : Nat) : Option Pacer :=
  let p := new config now
  if p.fits then some p else none

/-- The tick of a sleep that has ended at `now`, if the next one can be planned. -/
def wake? (p : Pacer) (now : Nat) : Option (Tick × Pacer) :=
  let (tick, p) := p.wake now
  if p.fits then some (tick, p) else none

/-! ## A clock that moves only when told -/

/-- When a sleep until `deadline` ends: not before it, and on a whole millisecond if it has to wait. -/
def sleepUntil (now deadline : Nat) : Nat :=
  if deadline ≤ now then now else (deadline + 999999) / 1000000 * 1000000

inductive Op where
  | wait
  | advance (nanoseconds : Nat)
  | finish
  deriving DecidableEq, Repr

/-- One operation at the time `now`: the tick of a wait, the time after it, and the pacer. -/
def step? (p : Pacer) (now : Nat) : Op → Option (Option Tick × Nat × Pacer)
  | .wait =>
    let now := sleepUntil now p.deadline
    (p.wake? now).map fun (tick, p) => (some tick, now, p)
  | .advance n => some (none, now + n, p)
  | .finish => some (none, now, p.finish)

end Pacer

end RaceSteward
