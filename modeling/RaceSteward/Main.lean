import RaceSteward.Console.Exit
import RaceSteward.Invocation
import Std.Async.DNS
import Std.Async.TCP

/-!
# The program

Runs one bot between a terminal and a server. The network, the clock and the terminal become events
of the bot; what the bot does with them is decided elsewhere.
-/

namespace RaceSteward.Program

open Std.Async (Async AsyncTask)
open Std.Async.TCP.Socket (Client)
open Link (IoFailure)

/-! ## Work in the background -/

/-- What is under way outside the bot. -/
structure Outside where
  socket : Option Client := none
  dialling : Option (AsyncTask Client) := none
  receiving : Option (AsyncTask (Option ByteArray)) := none
  /-- The sending of one frame, and when it began. -/
  sending : Option (AsyncTask Unit × Nat) := none
  /-- The reading of one line of the terminal. -/
  listening : Option (AsyncTask ByteArray) := none
  /-- When each countdown goes on. -/
  wakings : Array Nat := #[]
  /-- When the next tick is due. -/
  nextTick : Nat := 0

def ioFailure (e : IO.Error) : IoFailure :=
  ⟨.other, toString e⟩

def millis (s : Span) : Nat :=
  s.toNanos / 1000000

def endpoint (ip : Std.Net.IPAddr) (port : UInt16) : Std.Net.SocketAddress :=
  match ip with
  | .v4 addr => .v4 ⟨addr, port⟩
  | .v6 addr => .v6 ⟨addr, port⟩

/-- Tries the addresses of the host one after another. -/
def dial (s : Link.Settings) : Async Client := do
  let mut failure := IO.userError "the host has no address"
  for ip in ← Std.Async.DNS.getAddrInfo s.host "" do
    try
      let socket ← Client.mk
      socket.connect (endpoint ip s.port)
      socket.noDelay
      return socket
    catch e => failure := e
  throw failure

/-- The result of work that has finished. -/
def finished? {α : Type} (work : AsyncTask α) : IO (Option (Except IO.Error α)) := do
  if ← IO.hasFinished work then return some (Task.get work) else return none

/-! ## The connection -/

/-- What the workers of the connection do without the network. -/
def inward : List Link.Connection.Event :=
  [.dial, .dialAbandoned, .greet, .handOver, .writerBegins, .readerBegins, .writerLeaves,
    .readerLeaves, .retire, .stopReturns]

def moveInward (b : Bot) : Bot :=
  inward.foldl (fun b e => b.attempt (.connection e)) b

/-- The dialling of the server. -/
def driveDialler (o : Outside) (b : Bot) : IO (Outside × Bot) := do
  if b.connection.dialler ≠ .dialling then return (o, b)
  match o.dialling with
  | none =>
    return ({ o with dialling := some (← (dial b.config.link).toIO) }, b)
  | some work =>
    match ← finished? work with
    | none => return (o, b)
    | some (.ok socket) =>
      return ({ o with socket := some socket }, b.attempt (.connection .dialSucceeds))
    | some (.error e) => return (o, b.attempt (.connection (.dialFails (ioFailure e))))

/-- The frames that have arrived, all of them. -/
def readArrived (b : Bot) : Bot :=
  { b with connection :=
      b.connection.exhaust .receive (b.connection.arrived.length + 1) }

/-- The receiving of bytes. -/
def driveReader (o : Outside) (b : Bot) : IO (Outside × Bot) := do
  if b.connection.reader ≠ .reading then return (o, b)
  let some socket := o.socket | return (o, b)
  match o.receiving with
  | none =>
    return ({ o with receiving := some (← (socket.recv? 65536).toIO) }, b)
  | some work =>
    match ← finished? work with
    | none => return (o, b)
    | some result =>
      let event := match result with
        | .ok (some bytes) => .arrive bytes.toList
        | .ok none => .hangUp
        | .error e => .readFails (ioFailure e)
      return ({ o with receiving := none }, readArrived (b.attempt (.connection event)))

/-- The sending of frames, as far as the socket takes them at once. -/
partial def driveWriter (o : Outside) (b : Bot) (now : Nat) : IO (Outside × Bot) := do
  let .writing frame _ := b.connection.writer | return (o, b)
  let some socket := o.socket | return (o, b)
  match o.sending with
  | none =>
    let work ← (socket.send ⟨frame.toArray⟩).toIO
    IO.sleep 1
    driveWriter { o with sending := some (work, now) } b now
  | some (work, since) =>
    match ← finished? work with
    | some (.ok ()) =>
      driveWriter { o with sending := none } (b.attempt (.connection (.accept frame.length))) now
    | some (.error e) => return (o, b.attempt (.connection (.writeFails (ioFailure e))))
    | none =>
      if now < since + millis b.config.link.writeTimeout then return (o, b)
      else return (o, b.attempt (.connection (.writeFails .writeTimedOut)))

/-! ## Countdowns and ticks -/

/-- A countdown says its next line when its time has come. -/
def driveCountdown (now : Nat) (x : Outside × Bot) (i : Nat) : Outside × Bot :=
  let (o, b) := x
  if now < o.wakings.getD i 0 then x
  else
    let b := (((b.attempt (.quit i)).attempt (.wake i)).attempt (.speak i)).attempt (.arm i)
    let next := now + millis b.config.countdownInterval
    ({ o with wakings := (o.wakings ++ Array.replicate (i + 1 - o.wakings.size) 0).set! i next }, b)

/-- A tick of race control and one of the worker that writes. -/
def driveTick (o : Outside) (b : Bot) (now : Nat) : Outside × Bot :=
  if now < o.nextTick then (o, b)
  else
    ({ o with nextTick := now + millis b.config.dispatchTick },
      (b.settleLoop.attempt (.connection .tick)).attempt (.connection .collect))

/-- Everything that can go on at a time. What the socket has taken is not kept. -/
def drive (o : Outside) (b : Bot) (now : Nat) : IO (Outside × Bot) := do
  let (o, b) := (List.range b.countdowns.length).foldl (driveCountdown now) (o, b)
  let (o, b) := driveTick o (moveInward b) now
  let (o, b) ← driveDialler o b
  let (o, b) ← driveReader o (moveInward b)
  let (o, b) ← driveWriter o b now
  return (o, { b with connection := { b.connection with written := [] } })

/-! ## The terminal -/

/-- One line with its end; nothing at the end of the input. -/
partial def readLine (input : IO.FS.Stream) (line : ByteArray) : IO ByteArray := do
  let byte ← input.read 1
  if byte.isEmpty ∨ byte.toList = [10] then return line ++ byte
  else readLine input (line ++ byte)

/-- Carries out one line at a time: why the console has ended, if it has. -/
def driveConsole (o : Outside) (b : Bot) : IO (Option Console.Exit × Outside × Bot) := do
  match o.listening with
  | none =>
    let work ← IO.asTask (do readLine (← IO.getStdin) .empty) .dedicated
    return (none, { o with listening := some work }, b)
  | some work =>
    match ← finished? work with
    | none => return (if b.stopping then some .botStopped else none, o, b)
    | some (.error _) => return (some .inputClosed, o, b)
    | some (.ok line) =>
      let lines := Console.lines line.toList
      let (exit, printed, b) := Console.obey b lines
      IO.print printed
      (← IO.getStdout).flush
      return (if lines.isEmpty then some .inputClosed else exit, { o with listening := none }, b)

/-! ## From start to end -/

/-- The exit status of a bot whose loop has ended. -/
def conclude (result : Except Failure Unit) : IO UInt32 := do
  match result with
  | .ok () => return 0
  | .error e =>
    IO.eprintln s!"Error: {e.message}"
    return 1

/-- Runs a bot until its loop has ended or a failure ends the process. -/
partial def serve (attended : Bool) (o : Outside) (b : Bot) : IO UInt32 := do
  let (exit, o, b) ← if attended then driveConsole o b else pure (none, o, b)
  let b := if exit.isSome then b.attempt .requestStop else b
  let (o, b) ← drive o b (← IO.monoMsNow)
  if let e :: _ := b.connection.fatal then
    IO.eprintln s!"fatal transport failure, exiting: {e.message}"
    return 1
  if let some result := b.loop.result? then return ← conclude result
  IO.sleep 1
  serve (attended && exit.isNone) o b

end RaceSteward.Program

open RaceSteward in
def main (args : List String) : IO UInt32 := do
  match Invocation.ofArgs args with
  | .help =>
    IO.println Invocation.helpText
    return 0
  | .version =>
    IO.println Invocation.versionText
    return 0
  | .refused why =>
    IO.eprintln (Invocation.refusalText why)
    return 2
  | .run host port =>
    let (config, replaced) := Config.ofArgs host port
    if replaced then
      IO.eprintln s!"invalid port {port}, using {config.link.port.toNat}"
    Program.serve true {} (.new config)
