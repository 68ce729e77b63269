import RaceSteward.Race.Roster
import RaceSteward.Race.Standing

/-!
# Following a race

A tracker is idle or records one race. While it records, each player on the roster who finishes,
leaves or cheats is decided; the race ends when nobody is left or when it is stopped, and then yields
its standings. Events that concern nobody on the roster change nothing.
-/

namespace RaceSteward.Race

inductive Phase where
  | idle
  | recording
  deriving DecidableEq, Repr

def Phase.name : Phase → String
  | idle => "Idle"
  | recording => "Recording"

structure Tracker where
  phase : Phase
  /-- Who is still racing. -/
  roster : Roster
  /-- The place that the next finisher takes. -/
  nextPlace : UInt32
  /-- The results decided so far in the current race. -/
  decided : List Rank
  deriving DecidableEq, Repr

namespace Tracker

def new : Tracker := ⟨.idle, .empty, 1, []⟩

def isRecording (t : Tracker) : Bool :=
  decide (t.phase = .recording)

/-- Ends the race, if there is one: everyone still racing has run out of time. -/
def stop (t : Tracker) : Option Standings × Tracker :=
  match t.phase with
  | .idle => (none, t)
  | .recording =>
    let (late, roster) := t.roster.drain
    (some ⟨t.decided ++ late.map (Rank.dnf · .timeout)⟩,
      { t with phase := .idle, roster := roster, decided := [] })

/-- Starts a race; one that is under way is stopped first and yields its standings. -/
def start (t : Tracker) (players : List Player) : Option Standings × Tracker :=
  let (standings, t) := t.stop
  (standings, { t with phase := .recording, roster := t.roster.enter players, nextPlace := 1 })

/-- How a player's race ends. -/
inductive Verdict where
  | finished
  | out (reason : DnfReason)
  deriving DecidableEq, Repr

/-- The result of a player, and the place of the next finisher. -/
def judge (t : Tracker) (p : Player) : Verdict → Rank × UInt32
  | .finished => (.finished p t.nextPlace, t.nextPlace + 1)
  | .out reason => (.dnf p reason, t.nextPlace)

/-- Decides the player with this id, if racing; the last one ends the race. -/
def conclude (t : Tracker) (id : UInt32) (verdict : Verdict) : Option Standings × Tracker :=
  match t.roster.remove id with
  | (none, _) => (none, t)
  | (some p, roster) =>
    let (rank, nextPlace) := t.judge p verdict
    let t := { t with roster := roster, nextPlace := nextPlace, decided := t.decided ++ [rank] }
    if roster.isEmpty then t.stop else (none, t)

/-! ## Events -/

inductive Event where
  | finish (id : UInt32)
  | disconnect (id : UInt32)
  | cheat (id : UInt32) (flag : UInt8)
  | ball (id : UInt32)
  deriving DecidableEq, Repr

/-- One event of the server. A cheat flag of zero and the place of a ball change nothing. -/
def observe (t : Tracker) : Event → Option Standings × Tracker
  | .finish id => t.conclude id .finished
  | .disconnect id => t.conclude id (.out .logout)
  | .cheat id flag => if flag = 0 then (none, t) else t.conclude id (.out .cheat)
  | .ball _ => (none, t)

/-! ## Runs -/

inductive Op where
  | start (players : List Player)
  | stop
  | observe (event : Event)
  deriving DecidableEq, Repr

def step (t : Tracker) : Op → Option Standings × Tracker
  | .start players => t.start players
  | .stop => t.stop
  | .observe event => t.observe event

/-- What each operation yields, and the tracker after all of them. -/
def run (t : Tracker) : List Op → List (Option Standings) × Tracker
  | [] => ([], t)
  | op :: ops =>
    let (standings, t) := t.step op
    let (more, t) := t.run ops
    (standings :: more, t)

end Tracker

end RaceSteward.Race
