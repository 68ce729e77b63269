import RaceSteward.Message
import RaceSteward.Json.Document

/-!
# Standings

One player's result, and the results of a race in the order in which they were decided. Place 0 means
that the player did not finish.

* `Rank.render`: the line that announces a result.
* `Standings.announcements`: one chat line per result.
-/

namespace RaceSteward.Race

/-- Why a player did not finish. -/
inductive DnfReason where
  /-- Finished. -/
  | none
  /-- Reported cheat mode during the race. -/
  | cheat
  /-- Left during the race. -/
  | logout
  /-- Was still racing when the race was stopped. -/
  | timeout
  deriving DecidableEq, Repr

namespace DnfReason

def name : DnfReason → String
  | none => "None"
  | cheat => "Cheat"
  | logout => "Logout"
  | timeout => "Timeout"

def all : List DnfReason := [none, cheat, logout, timeout]

def ofName? (name : String) : Option DnfReason :=
  all.find? (·.name = name)

end DnfReason

structure Rank where
  id : UInt32
  nickname : String
  /-- The place, counted from 1; 0 for a player who did not finish. -/
  place : UInt32
  reason : DnfReason
  deriving DecidableEq, Repr

namespace Rank

/-- The player took a place. -/
def finished (p : Player) (place : UInt32) : Rank :=
  ⟨p.id, p.nickname, place, .none⟩

/-- The player did not finish. -/
def dnf (p : Player) (reason : DnfReason) : Rank :=
  ⟨p.id, p.nickname, 0, reason⟩

def isFinisher (r : Rank) : Bool :=
  decide (r.place ≠ 0)

/-- The line that announces the result. -/
def render (r : Rank) : String :=
  if r.isFinisher then s!"{r.nickname}: {r.place.toNat}"
  else s!"{r.nickname}: DNF. Reason: {r.reason.name}"

def toJson (r : Rank) : Json :=
  .record [("id", .ofNat r.id.toNat), ("nickname", .ofString r.nickname),
    ("finish_index", .ofNat r.place.toNat), ("dnf_reason", .ofString r.reason.name)]

end Rank

/-- The results of one race, in the order in which they were decided. -/
structure Standings where
  ranks : List Rank
  deriving DecidableEq, Repr

namespace Standings

/-- One chat line from the server per result. -/
def announcements (s : Standings) : List Message :=
  s.ranks.map fun r => Message.broadcast r.render

def toJson (s : Standings) : Json :=
  .record [("ranks", .array (s.ranks.map Rank.toJson))]

end Standings

end RaceSteward.Race
