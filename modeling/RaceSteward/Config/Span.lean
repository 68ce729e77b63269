import RaceSteward.Json.Reading

/-!
# Spans of time

A span is whole seconds and nanoseconds below a second. In JSON it is a record of these two and of
nothing else; nanoseconds beyond a second carry over.
-/

namespace RaceSteward

structure Span where
  secs : Nat
  nanos : Nat
  nanos_lt : nanos < 1000000000 := by decide
  deriving DecidableEq, Repr

namespace Span

/-- The most seconds of a span. -/
def maxSecs : Nat := 18446744073709551615

def ofMillis (n : Nat) : Span :=
  ⟨n / 1000, n % 1000 * 1000000, by omega⟩

/-- The span of seconds and nanoseconds, which may be more than a second's; none for one that has too
many seconds. -/
def ofParts? (secs nanos : Nat) : Option Span :=
  if secs + nanos / 1000000000 ≤ maxSecs then
    some ⟨secs + nanos / 1000000000, nanos % 1000000000, Nat.mod_lt _ (by decide)⟩
  else none

/-- The whole span in nanoseconds. -/
def toNanos (s : Span) : Nat :=
  s.secs * 1000000000 + s.nanos

def toJson (s : Span) : Json :=
  .record [("secs", .ofNat s.secs), ("nanos", .ofNat s.nanos)]

def ofJson? (j : Json) : Option Span := do
  match ← j.fields? .refused ["secs", "nanos"] with
  | [secs, nanos] => ofParts? (← secs.asNat? maxSecs) (← nanos.asNat? 4294967295)
  | _ => none

end Span

end RaceSteward
