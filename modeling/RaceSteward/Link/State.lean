/-!
# Connection states

A connection runs through five states and never goes back.

* `State.rank_advance`: a state that is asked for is taken only when it lies ahead.
-/

namespace RaceSteward.Link

inductive State where
  | disconnected
  | connecting
  | connected
  | closing
  | closed
  deriving DecidableEq, Repr

namespace State

/-- The place of a state in the life of a connection. -/
def rank : State → Nat
  | disconnected => 0
  | connecting => 1
  | connected => 2
  | closing => 3
  | closed => 4

instance : LE State := ⟨fun a b => a.rank ≤ b.rank⟩

instance : LT State := ⟨fun a b => a.rank < b.rank⟩

instance (a b : State) : Decidable (a ≤ b) := inferInstanceAs (Decidable (a.rank ≤ b.rank))

instance (a b : State) : Decidable (a < b) := inferInstanceAs (Decidable (a.rank < b.rank))

/-- Moves to `next` if that is ahead. -/
def advance (current next : State) : State :=
  if current < next then next else current

/-- The order of two states in life. -/
def order (a b : State) : Ordering :=
  compare a.rank b.rank

/-- The word a person reads. -/
def text : State → String
  | disconnected => "disconnected"
  | connecting => "connecting"
  | connected => "connected"
  | closing => "closing"
  | closed => "closed"

/-- The name in data. -/
def name : State → String
  | disconnected => "Disconnected"
  | connecting => "Connecting"
  | connected => "Connected"
  | closing => "Closing"
  | closed => "Closed"

def all : List State := [disconnected, connecting, connected, closing, closed]

def ofName? (name : String) : Option State :=
  all.find? (·.name = name)

/-! ## The order -/

theorem le_def {a b : State} : a ≤ b ↔ a.rank ≤ b.rank := Iff.rfl

theorem lt_def {a b : State} : a < b ↔ a.rank < b.rank := Iff.rfl

theorem rank_inj {a b : State} : a.rank = b.rank ↔ a = b := by
  cases a <;> cases b <;> decide

theorem rank_advance (a b : State) : (a.advance b).rank = max a.rank b.rank := by
  unfold advance
  split
  · rename_i h
    have := lt_def.mp h
    omega
  · rename_i h
    have := mt lt_def.mpr h
    omega

@[simp] theorem advance_closed (a : State) : a.advance closed = closed := by
  cases a <;> decide

@[simp] theorem closed_advance (a : State) : closed.advance a = closed := by
  cases a <;> decide

end State

end RaceSteward.Link
