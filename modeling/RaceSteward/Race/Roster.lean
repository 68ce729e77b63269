import RaceSteward.Message

/-!
# Rosters

The players still racing, in the order in which they were entered. An id stands for one player: the
first entry of an id is kept, later ones are refused until it is removed.
-/

namespace RaceSteward.Race

structure Roster where
  players : List Player
  deriving DecidableEq, Repr

namespace Roster

def empty : Roster := ⟨[]⟩

def ids (r : Roster) : List UInt32 := r.players.map (·.id)

def size (r : Roster) : Nat := r.players.length

def isEmpty (r : Roster) : Bool := r.players.isEmpty

def get? (r : Roster) (id : UInt32) : Option Player :=
  r.players.find? (·.id = id)

def contains (r : Roster) (id : UInt32) : Bool :=
  r.players.any (·.id = id)

/-- Enters a player at the end, unless the id is present; says whether the player was entered. -/
def insert (r : Roster) (p : Player) : Bool × Roster :=
  if r.contains p.id then (false, r) else (true, ⟨r.players ++ [p]⟩)

/-- Takes out the player with an id. -/
def remove (r : Roster) (id : UInt32) : Option Player × Roster :=
  (r.get? id, ⟨r.players.eraseP (·.id = id)⟩)

/-- Takes out everyone, in the order of entry. -/
def drain (r : Roster) : List Player × Roster :=
  (r.players, empty)

/-- Enters players one after another. -/
def enter (r : Roster) (players : List Player) : Roster :=
  players.foldl (fun r p => (r.insert p).2) r

/-! ## Runs -/

inductive Op where
  | insert (p : Player)
  | remove (id : UInt32)
  | contains (id : UInt32)
  | get (id : UInt32)
  | drain
  deriving DecidableEq, Repr

inductive Answer where
  | entered (fresh : Bool)
  | found (player : Option Player)
  | present (here : Bool)
  | drained (players : List Player)
  deriving DecidableEq, Repr

def step (r : Roster) : Op → Answer × Roster
  | .insert p => let (fresh, r) := r.insert p; (.entered fresh, r)
  | .remove id => let (player, r) := r.remove id; (.found player, r)
  | .contains id => (.present (r.contains id), r)
  | .get id => (.found (r.get? id), r)
  | .drain => let (players, r) := r.drain; (.drained players, r)

def run (r : Roster) : List Op → List Answer × Roster
  | [] => ([], r)
  | op :: ops =>
    let (answer, r) := r.step op
    let (answers, r) := r.run ops
    (answer :: answers, r)

/-! ## Membership -/

theorem contains_eq_isSome_get? (r : Roster) (id : UInt32) :
    r.contains id = (r.get? id).isSome := by
  rw [Bool.eq_iff_iff]
  simp [contains, get?, List.find?_isSome]

theorem contains_iff_mem_ids {r : Roster} {id : UInt32} : r.contains id = true ↔ id ∈ r.ids := by
  simp [contains, ids]

end Roster

end RaceSteward.Race
