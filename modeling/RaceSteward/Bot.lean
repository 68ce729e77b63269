import RaceSteward.Config
import RaceSteward.Console.Command
import RaceSteward.Console.Reply
import RaceSteward.Link.Connection
import RaceSteward.RaceControl

/-!
# The bot

The bot joins a connection, race control and the console. Race control works in a loop: each tick it
applies the orders queued by the console, takes everything received and routes it, then looks whether
the connection is closed. A countdown is a task of its own that says its lines one by one and at the
end queues an order to arm a start.

A countdown gives way to others at every pause. Pauses that are over as soon as they begin, as they
can be with an interval of zero, are not modelled: a countdown that is called off while it says a line
would get past such a pause and end at a later one.

Everything that can happen is an `Event`, and `Bot.step?` is the state after it, if it can happen.
-/

namespace RaceSteward

open Console (Command RaceOrder ModerationOrder Reply)
open Link (Connection)

/-! ## Failures -/

/-- What can go wrong. Whatever goes wrong below keeps its own words; the one failure of the bot's own
is that race control is gone. -/
inductive Failure where
  | link (cause : Link.Error)
  | decode (cause : DecodeError)
  /-- Race control has already ended. -/
  | dispatcherGone
  deriving DecidableEq, Repr

def Failure.message : Failure → String
  | link cause => cause.message
  | decode cause => cause.message
  | dispatcherGone => "dispatcher is no longer running"

/-! ## Countdowns -/

/-- Where a countdown stands. -/
inductive Countdown.Phase where
  /-- Begun, and nothing said. -/
  | fresh
  /-- About to say its next line. -/
  | speaking
  /-- Between two lines. -/
  | sleeping
  /-- All said, about to arm a start. -/
  | arming
  | done
  deriving DecidableEq, Repr

structure Countdown where
  /-- The lines not yet said. -/
  script : List String
  /-- The number of forced finishes when it began. -/
  epoch : Nat
  phase : Countdown.Phase
  /-- It has been called off and ends at its next pause. -/
  aborted : Bool
  deriving DecidableEq, Repr

namespace Countdown

/-- Calls a countdown off: one that pauses ends, one that is about to act does so first. -/
def abort (t : Countdown) : Countdown :=
  match t.phase with
  | .fresh => { t with phase := .done }
  | .sleeping => { t with phase := .done }
  | _ => { t with aborted := true }

/-- The countdown after a line that was queued. There is a pause before the next line, and every pause
is taken to last: one that has been called off gets no further. -/
def pause (t : Countdown) (rest : List String) : Countdown :=
  let phase : Phase := if rest.isEmpty then .arming else if t.aborted then .done else .sleeping
  { t with script := rest, phase := phase }

end Countdown

/-! ## The loop of race control -/

/-- Where the loop stands. -/
inductive Loop where
  | fresh
  /-- Between two ticks. -/
  | resting
  /-- Applying orders. -/
  | ordering
  /-- About to take what was received. -/
  | collecting
  /-- Routing what was received. -/
  | routing (batch : List Message)
  /-- About to look at the connection. -/
  | checking
  /-- Over, and waiting for the connection to stop. -/
  | leaving (result : Except Failure Unit)
  | finished (result : Except Failure Unit)

namespace Loop

def isFinished : Loop → Bool
  | finished _ => true
  | _ => false

def result? : Loop → Option (Except Failure Unit)
  | finished result => some result
  | _ => none

end Loop

structure Bot where
  config : Config
  connection : Connection
  control : RaceControl
  /-- The orders queued by the console and by countdowns, oldest first. -/
  orders : List Order
  /-- How many forced finishes there have been. -/
  epoch : Nat
  /-- The bot has been asked to stop, or race control has ended. -/
  stopping : Bool
  loop : Loop
  countdowns : List Countdown

namespace Bot

def new (config : Config) : Bot where
  config := config
  connection := .new config.link
  control := .new
  orders := []
  epoch := 0
  stopping := false
  loop := .fresh
  countdowns := []

/-! ## Commands -/

/-- Queues one message for the server. -/
def say (b : Bot) (m : Message) : Except Failure Unit × Bot :=
  match b.connection.send m with
  | (.ok _, connection) => (.ok (), { b with connection := connection })
  | (.error e, connection) => (.error (.link e), { b with connection := connection })

/-- Queues an order; nobody takes it when the loop has ended. -/
def order (b : Bot) (o : Order) : Except Failure Unit × Bot :=
  if b.loop.isFinished then (.error .dispatcherGone, b)
  else (.ok (), { b with orders := b.orders ++ [o] })

def beginCountdown (b : Bot) (script : List String) : Bot :=
  { b with countdowns := b.countdowns ++ [⟨script, b.epoch, .fresh, false⟩] }

/-- A reply that follows only on success. -/
def replyAfter (reply : Reply) : Except Failure Unit × Bot → Except Failure Reply × Bot
  | (.ok (), b) => (.ok reply, b)
  | (.error e, b) => (.error e, b)

def race (b : Bot) : RaceOrder → Except Failure Reply × Bot
  | .missing => (.ok (.say [Console.raceInvalid]), b)
  | .start => (.ok .silent, b.beginCountdown Console.countdownScript)
  | .readyStart => (.ok .silent, b.beginCountdown Console.readyCountdownScript)
  | .finish =>
    let epoch := b.epoch + 1
    replyAfter .silent <|
      order { b with epoch := epoch, countdowns := b.countdowns.map .abort } (.forceStop epoch)
  | .stop => (.ok .quitting, { b with stopping := true })
  | .help => (.ok (.say Console.raceHelp), b)

def moderate (b : Bot) : ModerationOrder → Except Failure Reply × Bot
  | .missing => (.ok (.say [Console.moderationInvalid]), b)
  | .cheat (some on) => replyAfter .silent (b.say (.orderGlobalCheat ⟨if on then 1 else 0⟩))
  | .cheat none => (.ok (.say [Console.cheatUsage]), b)
  | .kick _ => (.ok (.say [Console.kickUnsupported]), b)
  | .help => (.ok (.say Console.moderationHelp), b)

/-- Carries out one command of the console. -/
def execute (b : Bot) : Command → Except Failure Reply × Bot
  | .empty => (.ok .silent, b)
  | .chat line => replyAfter .silent (b.say (.broadcast line))
  | .race order => b.race order
  | .moderation order => b.moderate order

/-! ## Countdowns at work -/

def setCountdown (b : Bot) (i : Nat) (t : Countdown) : Bot :=
  { b with countdowns := b.countdowns.set i t }

/-- A countdown goes on after a pause. -/
def wake? (b : Bot) (i : Nat) : Option Bot := do
  let t ← b.countdowns[i]?
  match t.phase with
  | .fresh => some (b.setCountdown i { t with phase := .speaking })
  | .sleeping => some (b.setCountdown i { t with phase := .speaking })
  | _ => none

/-- A countdown queues its next line; an overflow ends it. -/
def speak? (b : Bot) (i : Nat) : Option Bot := do
  let t ← b.countdowns[i]?
  match t.phase, t.script with
  | .speaking, line :: rest =>
    match b.say (.broadcast line) with
    | (.ok (), b) => some (b.setCountdown i (t.pause rest))
    | (.error _, b) => some (b.setCountdown i { t with phase := .done })
  | _, _ => none

/-- A countdown that has said everything queues its order. -/
def arm? (b : Bot) (i : Nat) : Option Bot := do
  let t ← b.countdowns[i]?
  match t.phase with
  | .arming => some ((b.order (.armStart t.epoch)).2.setCountdown i { t with phase := .done })
  | _ => none

/-- A countdown that pauses sees that the bot stops. -/
def quit? (b : Bot) (i : Nat) : Option Bot := do
  let t ← b.countdowns[i]?
  match t.phase with
  | .sleeping => if b.stopping then some (b.setCountdown i { t with phase := .done }) else none
  | _ => none

/-! ## The loop at work -/

/-- The loop is over: the connection is asked to stop. -/
def leave (b : Bot) (result : Except Failure Unit) : Bot :=
  { b with connection := b.connection.stop, loop := .leaving result }

/-- Queues what race control has to say and goes on, unless that overflows. -/
def issue (b : Bot) (sent : List Message) (next : Loop) : Bot :=
  if sent.isEmpty then { b with loop := next }
  else match b.connection.sendBatch sent with
    | (.ok _, connection) => { b with connection := connection, loop := next }
    | (.error e, connection) => leave { b with connection := connection } (.error (.link e))

/-- The loop starts the connection. -/
def beginLoop (b : Bot) : Bot :=
  match b.connection.start with
  | (.ok (), connection) => { b with connection := connection, loop := .resting }
  | (.error e, connection) =>
    { b with connection := connection, loop := .finished (.error (.link e)), stopping := true }

/-- The next step of the loop. -/
def advanceLoop? (b : Bot) : Option Bot :=
  match b.loop with
  | .fresh => some b.beginLoop
  | .resting => some (if b.stopping then b.leave (.ok ()) else { b with loop := .ordering })
  | .ordering =>
    match b.orders with
    | o :: orders =>
      let (bulletin, control) := b.control.apply o
      some (issue { b with orders := orders, control := control } bulletin.sent .ordering)
    | [] => some { b with loop := .collecting }
  | .collecting =>
    let (received, connection) := b.connection.recv
    some { b with connection := connection, loop := .routing received }
  | .routing (m :: batch) =>
    let (bulletin, control) := b.control.route m
    some (issue { b with control := control } bulletin.sent (.routing batch))
  | .routing [] => some { b with loop := .checking }
  | .checking =>
    some (if b.connection.state = .closed then b.leave (.ok ()) else { b with loop := .resting })
  | .leaving result =>
    if b.connection.awaited then none
    else some { b with loop := .finished result, stopping := true }
  | .finished _ => none

/-! ## Events -/

/-- What can happen to the connection without the bot. -/
def isOutside : Link.Connection.Event → Bool
  | .start => false
  | .sendBatch _ => false
  | .recv => false
  | .stop => false
  | .stopAbandoned => false
  | _ => true

inductive Event where
  /-- The console carries out a command. -/
  | execute (command : Command)
  /-- Somebody asks the bot to stop. -/
  | requestStop
  | wake (countdown : Nat)
  | speak (countdown : Nat)
  | arm (countdown : Nat)
  | quit (countdown : Nat)
  | loop
  /-- A worker of the connection, or the server. -/
  | connection (event : Link.Connection.Event)
  deriving DecidableEq, Repr

def step? (b : Bot) : Event → Option Bot
  | .execute command => some (b.execute command).2
  | .requestStop => some { b with stopping := true }
  | .wake i => b.wake? i
  | .speak i => b.speak? i
  | .arm i => b.arm? i
  | .quit i => b.quit? i
  | .loop => b.advanceLoop?
  | .connection e =>
    if isOutside e then (b.connection.step? e).map fun c => { b with connection := c } else none

/-- The state after events, if each can happen. -/
def run? (b : Bot) : List Event → Option Bot
  | [] => some b
  | e :: es => do (← b.step? e).run? es

/-- An event if it can happen, nothing otherwise. -/
def attempt (b : Bot) (e : Event) : Bot :=
  (b.step? e).getD b

/-! ## Ticks -/

/-- The steps of the loop up to its next pause. -/
def runLoop : Nat → Bot → Bot
  | 0, b => b
  | n + 1, b =>
    match b.advanceLoop? with
    | some b => match b.loop with
      | .resting => b
      | _ => runLoop n b
    | none => b

/-- One tick of the loop. -/
def settleLoop (b : Bot) : Bot :=
  runLoop (b.orders.length + b.connection.inbound.size + 6) b

end Bot

end RaceSteward
