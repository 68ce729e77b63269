import RaceSteward.Link.Connection

/-!
# Scripted connections

A script says what callers and the server do, one act after another. After each act the workers come
to rest, unless the act holds them back or there is no network at all.

* `Session.run`: what each act answers, and the connection after the last one.
-/

namespace RaceSteward.Link.Session

inductive Act where
  | start
  /-- Starts, and holds the workers back until the next act is done. -/
  | startHeld
  | sendBatch (batch : List Message)
  | recv
  | stop
  /-- The server sends bytes in one write. -/
  | serve (bytes : Bytes)
  | hangUp
  /-- A chat order of so many letters that the server does not read. -/
  | stall (letters : Nat)
  deriving DecidableEq, Repr

/-- What an act answers by itself. -/
inductive Answer where
  | nothing
  | pending (count : Nat)
  | received (messages : List Message)
  | failed (e : Error)
  deriving DecidableEq, Repr

def Answer.ofStart : Except Error Unit → Answer
  | .ok () => nothing
  | .error e => failed e

def Answer.ofSend : Except Error Nat → Answer
  | .ok count => pending count
  | .error e => failed e

/-- The letters of a stalled chat order. -/
def stalled (letters : Nat) : Message :=
  .orderChat ⟨String.ofList (List.replicate letters 'x')⟩

/-- The act itself, before any worker moves. -/
def act (c : Connection) : Act → Answer × Connection
  | .start => let (r, c) := c.start; (.ofStart r, c)
  | .startHeld => let (r, c) := c.start; (.ofStart r, c)
  | .sendBatch batch => let (r, c) := c.sendBatch batch; (.ofSend r, c)
  | .recv => let (messages, c) := c.recv; (.received messages, c)
  | .stop => (.nothing, c.stop)
  | .serve bytes => (.nothing, c.attempt (.arrive bytes))
  | .hangUp => (.nothing, c.attempt .hangUp)
  | .stall letters => let (r, c) := c.send (stalled letters); (.ofSend r, c)

/-- How the workers come to rest after an act. -/
def rest (listens : Bool) (c : Connection) : Act → Connection
  | .startHeld => c
  | .stall _ => c.settle ⟨listens, false⟩
  | _ => c.settle ⟨listens, true⟩

/-- What can be seen after an act. -/
structure Sight where
  answer : Answer
  /-- The messages that the server has read. -/
  heard : List Message
  /-- The messages still queued. -/
  pending : Nat
  state : State
  /-- The failures given to the fatal handler. -/
  fatal : List Error
  deriving DecidableEq, Repr

/-- What can be seen of the step from one connection to another. -/
def sight (before after : Connection) (answer : Answer) : Sight where
  answer := answer
  heard := Connection.heard (after.written.drop before.written.length)
  pending := after.outbound.size
  state := after.state
  fatal := after.fatal.drop before.fatal.length

/-- One act, and rest. -/
def step (listens : Bool) (c : Connection) (a : Act) : Sight × Connection :=
  let (answer, acted) := act c a
  let rested := rest listens acted a
  (sight c rested answer, rested)

/-- One act without a network. -/
def idleStep (c : Connection) (a : Act) : Sight × Connection :=
  let (answer, acted) := act c a
  (sight c acted answer, acted)

def run (step : Connection → Act → Sight × Connection) (c : Connection) :
    List Act → List Sight × Connection
  | [] => ([], c)
  | a :: acts =>
    let (sight, c) := step c a
    let (sights, c) := run step c acts
    (sight :: sights, c)

/-- The end of a script: the connection is stopped. -/
def finish (listens : Bool) (c : Connection) : Connection :=
  c.stop.settle ⟨listens, true⟩

end RaceSteward.Link.Session
