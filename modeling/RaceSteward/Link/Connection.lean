import RaceSteward.Frame
import RaceSteward.Link.Settings
import RaceSteward.Link.State
import RaceSteward.Message.Codec

/-!
# One connection

A connection has a mailbox each way and three workers: one dials and asks who is online, one writes
what is in the outbound mailbox, one reads frames into the inbound mailbox. A stop flag ends them
all; when they have ended, the connection is closed.

Everything that can happen is an `Event`, and `Connection.step?` is the state after it, if it can
happen. The workers, the callers and the server take their steps in any order, so a run is any list
of events.
-/

namespace RaceSteward.Link

/-! ## Workers -/

/-- Where the worker that dials stands. -/
inductive Dialler where
  | absent
  | spawned
  | dialling
  /-- Connected, about to queue its question. -/
  | greeting
  /-- About to give both halves of the socket away. -/
  | handingOver
  | done
  deriving DecidableEq, Repr

/-- Where the worker that writes stands. -/
inductive Writer where
  | absent
  /-- Waiting for its half of the socket. -/
  | waiting
  /-- Between two ticks. -/
  | resting
  /-- Past its look at the stop flag, about to take everything queued. -/
  | collecting
  /-- The bytes of a frame that the socket has not yet taken, and the messages after it. -/
  | writing (frame : Bytes) (batch : List Message)
  | done
  deriving DecidableEq, Repr

/-- Where the worker that reads stands. -/
inductive Reader where
  | absent
  /-- Waiting for its half of the socket. -/
  | waiting
  | reading
  | done
  deriving DecidableEq, Repr

/-- A half of the socket on its way to a worker. -/
inductive Handover where
  | pending
  | offered
  /-- It will never come. -/
  | withdrawn
  deriving DecidableEq, Repr

/-- What callers have done with a connection. -/
inductive Lifecycle where
  | idle
  | running
  | stopped
  deriving DecidableEq, Repr

/-- The frame of a message. -/
def frameOf (m : Message) : Bytes :=
  Frame.encode m.encode

/-- The worker that writes, with a batch ahead of it. -/
def Writer.begin : List Message → Writer
  | [] => .resting
  | m :: batch => .writing (frameOf m) batch

structure Connection where
  settings : Settings
  outbound : Mailbox Message
  inbound : Mailbox Message
  state : State
  /-- The stop flag. -/
  stopping : Bool
  lifecycle : Lifecycle
  dialler : Dialler
  writer : Writer
  reader : Reader
  writerHalf : Handover
  readerHalf : Handover
  /-- What the server has sent and the reader has not taken. -/
  arrived : Bytes
  /-- The server will send nothing more. -/
  hungUp : Bool
  /-- What the socket has taken. -/
  written : Bytes
  /-- The failures given to the fatal handler, in order. -/
  fatal : List Error
  /-- The end of all workers has been seen. -/
  retired : Bool
  /-- A caller waits for the end of all workers. -/
  awaited : Bool
  deriving DecidableEq, Repr

namespace Connection

def new (settings : Settings) : Connection where
  settings := settings
  outbound := .empty settings.watermarks
  inbound := .empty settings.watermarks
  state := .disconnected
  stopping := false
  lifecycle := .idle
  dialler := .absent
  writer := .absent
  reader := .absent
  writerHalf := .pending
  readerHalf := .pending
  arrived := []
  hungUp := false
  written := []
  fatal := []
  retired := false
  awaited := false

/-! ## What all workers share -/

def advance (c : Connection) (next : State) : Connection :=
  { c with state := c.state.advance next }

/-- Gives a failure to the fatal handler. -/
def report (c : Connection) (e : Error) : Connection :=
  { c with fatal := c.fatal ++ [e] }

/-- Begins to close and raises the stop flag. -/
def beginStop (c : Connection) : Connection :=
  { c.advance .closing with stopping := true }

/-- Tears the connection down; a failure that ends the process then goes to the fatal handler. -/
def fail (c : Connection) (e : Error) : Connection :=
  if e.isFatal then c.beginStop.report e else c.beginStop

/-- Whether no worker is running. -/
def isQuiet (c : Connection) : Bool :=
  (c.dialler = .absent || c.dialler = .done) && (c.writer = .absent || c.writer = .done) &&
    (c.reader = .absent || c.reader = .done)

/-! ## Callers -/

/-- Sets the workers going, once. -/
def start (c : Connection) : Except Error Unit × Connection :=
  match c.lifecycle with
  | .idle =>
    (.ok (), { c with
      lifecycle := .running, dialler := .spawned, writer := .waiting, reader := .waiting })
  | _ => (.error .alreadyStarted, c)

/-- Asks every worker to stop. Of a connection that runs, the caller then awaits the end. -/
def stop (c : Connection) : Connection :=
  let stopped := { c.beginStop with lifecycle := .stopped }
  match c.lifecycle with
  | .idle => stopped.advance .closed
  | .running => { stopped with awaited := true }
  | .stopped => stopped

/-- Queues a batch as one contiguous run. An overflow goes to the fatal handler too. -/
def sendBatch (c : Connection) (batch : List Message) : Except Error Nat × Connection :=
  match c.outbound.extend batch with
  | (.ok pending, outbound) => (.ok pending, { c with outbound := outbound })
  | (.error overflow, outbound) =>
    let e := Error.capacityExceeded overflow.pending
    (.error e, { c with outbound := outbound }.report e)

def send (c : Connection) (m : Message) : Except Error Nat × Connection :=
  c.sendBatch [m]

/-- Takes everything received since the last call, oldest first. -/
def recv (c : Connection) : List Message × Connection :=
  let (received, inbound) := c.inbound.drain
  (received, { c with inbound := inbound })

/-! ## The worker that dials -/

/-- The worker ends without giving the socket away. -/
def endDialler (c : Connection) : Connection :=
  { c with dialler := .done, writerHalf := .withdrawn, readerHalf := .withdrawn }

/-- Queues the question who is online ahead of everything else. -/
def greet (c : Connection) : Connection :=
  match c.outbound.pushFront .whoIsOnline with
  | (.ok _, outbound) => { c with outbound := outbound, dialler := .handingOver }
  | (.error overflow, outbound) =>
    endDialler ({ c with outbound := outbound }.report (.capacityExceeded overflow.pending))

/-- Gives the halves of the socket away; the second only if the first was taken. -/
def handOver (c : Connection) : Connection :=
  if c.writer = .done then c.endDialler
  else if c.reader = .done then
    { c with dialler := .done, writerHalf := .offered, readerHalf := .withdrawn }
  else { c with dialler := .done, writerHalf := .offered, readerHalf := .offered }

/-! ## The worker that writes -/

/-- A tick: the worker looks at the stop flag, which ends it. -/
def tick (c : Connection) : Connection :=
  { c with writer := if c.stopping then .done else .collecting }

/-- Everything queued becomes the batch. The stop flag may have gone up since the worker looked. -/
def collect (c : Connection) : Connection :=
  let (batch, outbound) := c.outbound.drain
  { c with outbound := outbound, writer := .begin batch }

/-- The socket takes the first `n` bytes of what is left of a frame. -/
def accept (c : Connection) (n : Nat) (frame : Bytes) (batch : List Message) : Connection :=
  { c with
    written := c.written ++ frame.take n
    writer := match frame.drop n with
      | [] => .begin batch
      | rest => .writing rest batch }

/-! ## The worker that reads -/

/-- The reader ends with a failure. -/
def failReading (c : Connection) (e : Error) : Connection :=
  fail { c with reader := .done } e

/-- Takes what stands at the front of the arrived bytes, if that is a frame, a refused header, or
the end of the stream. -/
def receive? (c : Connection) : Option Connection :=
  match Frame.next c.settings.maxFrame c.arrived with
  | .whole payload rest =>
    let c := { c with arrived := rest }
    match Message.decode payload with
    | .ok m =>
      match c.inbound.push m with
      | (.ok _, inbound) => some { c with inbound := inbound }
      | (.error overflow, inbound) =>
        some ({ c with inbound := inbound }.failReading (.capacityExceeded overflow.pending))
    | .error e => some (c.failReading (.malformed e))
  | .tooLarge length _ => some (c.failReading (.frameTooLarge length c.settings.maxFrame))
  | .incomplete =>
    if c.hungUp then some (c.failReading (.receiveFailed .unexpectedEof)) else none

/-! ## Events -/

inductive Event where
  -- callers
  | start
  | sendBatch (batch : List Message)
  | recv
  | stop
  /-- The caller that awaits the end is told of it. -/
  | stopReturns
  /-- The caller that awaits the end gives up. -/
  | stopAbandoned
  -- the worker that dials
  | dial
  | dialAbandoned
  | dialSucceeds
  | dialFails (cause : IoFailure)
  | greet
  | handOver
  -- the worker that writes
  | writerBegins
  | writerLeaves
  | tick
  | collect
  /-- The socket takes so many bytes. -/
  | accept (n : Nat)
  | writeFails (cause : IoFailure)
  -- the worker that reads
  | readerBegins
  | readerLeaves
  | receive
  | readFails (cause : IoFailure)
  -- the server
  | arrive (bytes : Bytes)
  | hangUp
  /-- All workers have ended. -/
  | retire
  deriving DecidableEq, Repr

/-- The state after an event, if the event can happen. -/
def step? (c : Connection) : Event → Option Connection
  | .start => some c.start.2
  | .sendBatch batch => some (c.sendBatch batch).2
  | .recv => some c.recv.2
  | .stop => some c.stop
  | .stopReturns => if c.awaited && c.retired then some { c with awaited := false } else none
  | .stopAbandoned => if c.awaited then some { c with awaited := false } else none
  | .dial =>
    if c.dialler = .spawned then some { c.advance .connecting with dialler := .dialling } else none
  | .dialAbandoned => if c.dialler = .dialling && c.stopping then some c.endDialler else none
  | .dialSucceeds =>
    if c.dialler = .dialling then some { c.advance .connected with dialler := .greeting } else none
  | .dialFails cause =>
    if c.dialler = .dialling then
      some (c.endDialler.fail (.connectFailed c.settings.addr cause))
    else none
  | .greet => if c.dialler = .greeting then some c.greet else none
  | .handOver => if c.dialler = .handingOver then some c.handOver else none
  | .writerBegins =>
    if c.writer = .waiting && c.writerHalf = .offered then some { c with writer := .resting }
    else none
  | .writerLeaves =>
    if c.writer = .waiting && (c.stopping || c.writerHalf = .withdrawn) then
      some { c with writer := .done }
    else none
  | .tick => if c.writer = .resting then some c.tick else none
  | .collect => if c.writer = .collecting then some c.collect else none
  | .accept n =>
    match c.writer with
    | .writing frame batch => some (c.accept n frame batch)
    | _ => none
  | .writeFails cause =>
    match c.writer with
    | .writing .. => some (fail { c with writer := .done } (.sendFailed cause))
    | _ => none
  | .readerBegins =>
    if c.reader = .waiting && c.readerHalf = .offered then some { c with reader := .reading }
    else none
  | .readerLeaves =>
    if (c.reader = .waiting && (c.stopping || c.readerHalf = .withdrawn)) ||
        (c.reader = .reading && c.stopping) then
      some { c with reader := .done }
    else none
  | .receive => if c.reader = .reading then c.receive? else none
  | .readFails cause =>
    if c.reader = .reading then some (c.failReading (.receiveFailed cause)) else none
  | .arrive bytes => if c.hungUp then none else some { c with arrived := c.arrived ++ bytes }
  | .hangUp => some { c with hungUp := true }
  | .retire =>
    if c.dialler = .done && c.writer = .done && c.reader = .done && !c.retired then
      some { c.advance .closed with retired := true }
    else none

/-- The state after events, if each can happen. -/
def run? (c : Connection) : List Event → Option Connection
  | [] => some c
  | e :: es => do (← c.step? e).run? es

/-! ## Bringing a connection to rest -/

/-- The server of a scripted run. -/
structure Peer where
  /-- It answers a call. -/
  listens : Bool
  /-- It reads what is written. -/
  reads : Bool
  deriving DecidableEq, Repr

/-- An event if it can happen, nothing otherwise. -/
def attempt (c : Connection) (e : Event) : Connection :=
  (c.step? e).getD c

/-- An event as often as it can happen, at most `n` times. -/
def exhaust (e : Event) : Nat → Connection → Connection
  | 0, c => c
  | n + 1, c =>
    match c.step? e with
    | some c => exhaust e n c
    | none => c

/-- Dials, and gives the workers what they wait for. -/
def settleDialler (peer : Peer) (c : Connection) : Connection :=
  [.dial, .dialAbandoned, if peer.listens then .dialSucceeds else .dialFails .refused, .greet,
    .handOver, .writerBegins, .readerBegins, .writerLeaves, .readerLeaves].foldl attempt c

/-- Reads everything that has arrived. -/
def settleReader (c : Connection) : Connection :=
  exhaust .receive (c.arrived.length + 1) c

/-- Writes the batch that is being written, a whole frame at a time. -/
def flush : Nat → Connection → Connection
  | 0, c => c
  | n + 1, c =>
    match c.writer with
    | .writing frame batch => flush n (c.accept frame.length frame batch)
    | _ => c

/-- How many messages the worker has still to write. -/
def backlog (c : Connection) : Nat :=
  match c.writer with
  | .writing _ batch => batch.length + 1
  | _ => 0

/-- One tick, and the writing of its batch; a server that does not read lets the time run out. -/
def settleWriter (peer : Peer) (c : Connection) : Connection :=
  let c := (c.attempt .tick).attempt .collect
  if peer.reads then flush c.backlog c else c.attempt (.writeFails .writeTimedOut)

/-- Ends what the stop flag ends. -/
def settleEnd (c : Connection) : Connection :=
  [.readerLeaves, .writerLeaves, .retire, .stopReturns].foldl attempt c

/-- Lets every worker do what it can. -/
def settle (peer : Peer) (c : Connection) : Connection :=
  settleEnd (settleWriter peer (settleReader (settleDialler peer c)))

/-- The messages in what a peer has read. -/
def heard (bytes : Bytes) : List Message :=
  (Frame.split 4294967295 bytes).payloads.filterMap fun payload =>
    match Message.decode payload with
    | .ok m => some m
    | .error _ => none

end Connection

end RaceSteward.Link
