import RaceSteward.Race.Tracker

/-!
# Race control

Race control owns the tracker. Armed, it takes the next client list as the roster of a race; it hands
the events of the server to the tracker and publishes the standings of each race that ends. Orders
of the console carry the number of forced finishes before them; an arming order from before the last
forced finish is stale.
-/

namespace RaceSteward

open Race (Tracker Standings)

/-- An order of the console. -/
inductive Order where
  /-- Start a race with the next client list. -/
  | armStart (epoch : Nat)
  /-- Stop the race now. -/
  | forceStop (epoch : Nat)
  deriving DecidableEq, Repr

structure RaceControl where
  tracker : Tracker
  /-- The next client list starts a race. -/
  armed : Bool
  /-- The greatest epoch of a forced finish so far. -/
  epoch : Nat
  deriving DecidableEq, Repr

/-- What race control has to say: messages to the server, and the standings of a race that ended. -/
structure Bulletin where
  sent : List Message
  published : Option Standings
  deriving DecidableEq, Repr

namespace Bulletin

def silent : Bulletin := ⟨[], none⟩

/-- The standings of a race that has ended go out as chat. -/
def publish : Option Standings → Bulletin
  | some standings => ⟨standings.announcements, some standings⟩
  | none => silent

/-- The results that are logged: the text of the standings. -/
def logged (b : Bulletin) : List String :=
  b.published.toList.map (·.toJson.toText)

end Bulletin

namespace RaceControl

def new : RaceControl := ⟨.new, false, 0⟩

/-- Arms a start and asks who is online. -/
def armStart (rc : RaceControl) : Bulletin × RaceControl :=
  (⟨[.whoIsOnline], none⟩, { rc with armed := true })

/-- Disarms, and stops the race if there is one. -/
def forceStop (rc : RaceControl) : Bulletin × RaceControl :=
  let (standings, tracker) := rc.tracker.stop
  (.publish standings, { rc with tracker := tracker, armed := false })

def apply (rc : RaceControl) : Order → Bulletin × RaceControl
  | .armStart epoch => if epoch < rc.epoch then (.silent, rc) else rc.armStart
  | .forceStop epoch => forceStop { rc with epoch := max rc.epoch epoch }

/-- The event that a message is for the tracker. -/
def eventOf : Message → Option Tracker.Event
  | .levelFinish m => some (.finish m.playerId)
  | .clientDisconnected m => some (.disconnect m.playerId)
  | .cheatState m => some (.cheat m.playerId m.cheated)
  | .ballState m => some (.ball m.playerId)
  | _ => none

/-- Handles one message of the server. -/
def route (rc : RaceControl) (m : Message) : Bulletin × RaceControl :=
  match m with
  | .clientList list =>
    if rc.armed then
      let (standings, tracker) := rc.tracker.start list.players
      (.publish standings, { rc with tracker := tracker, armed := false })
    else (.silent, rc)
  | m =>
    match eventOf m with
    | some event =>
      let (standings, tracker) := rc.tracker.observe event
      (.publish standings, { rc with tracker := tracker })
    | none => (.silent, rc)

/-! ## Runs -/

inductive Step where
  | armStart
  | forceStop
  | apply (order : Order)
  | route (m : Message)
  deriving DecidableEq, Repr

def step (rc : RaceControl) : Step → Bulletin × RaceControl
  | .armStart => rc.armStart
  | .forceStop => rc.forceStop
  | .apply order => rc.apply order
  | .route m => rc.route m

/-- The bulletin of each step, and race control after all of them. -/
def run (rc : RaceControl) : List Step → List Bulletin × RaceControl
  | [] => ([], rc)
  | s :: steps =>
    let (bulletin, rc) := rc.step s
    let (more, rc) := rc.run steps
    (bulletin :: more, rc)

end RaceControl

end RaceSteward
