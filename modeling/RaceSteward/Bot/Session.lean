import RaceSteward.Console.Exit
import RaceSteward.Link.Session

/-!
# Scripted sessions

A session is a bot, a scripted server and a console. After each act everything comes to rest: what
was received has been routed, countdowns have gone as far as they go, and what was queued has been
written, unless the connection closes.

* `Bot.Session.run`: what can be seen of a whole session.
-/

namespace RaceSteward.Bot

open Link (Connection)

/-! ## Coming to rest -/

/-- How countdowns are paced: their lines follow one another at once, or no pause ever ends. -/
inductive Pacing where
  | atOnce
  | never
  deriving DecidableEq, Repr

/-- What a countdown does before its next pause. -/
def stepCountdown (pacing : Pacing) (b : Bot) (i : Nat) : Bot :=
  match b.countdowns[i]? with
  | none => b
  | some t =>
    if t.phase = .sleeping ∧ b.stopping then b.attempt (.quit i)
    else if t.phase = .sleeping ∧ pacing = .never then b
    else ((b.attempt (.wake i)).attempt (.speak i)).attempt (.arm i)

/-- Every countdown in turn, as often as a script has lines. -/
def settleCountdowns (pacing : Pacing) (b : Bot) : Bot :=
  Console.readyCountdownScript.foldl
    (fun b _ => (List.range b.countdowns.length).foldl (stepCountdown pacing) b) b

def overConnection (b : Bot) (f : Connection → Connection) : Bot :=
  { b with connection := f b.connection }

/-- Everyone goes as far as possible before the next pause of the loop. -/
def round (peer : Connection.Peer) (pacing : Pacing) (b : Bot) : Bot :=
  let b := b.settleCountdowns pacing
  let b := b.overConnection fun c => (c.settleDialler peer).settleReader
  let b := b.settleLoop
  b.overConnection fun c => (c.settleWriter peer).settleEnd

/-- Four rounds bring everyone to rest: one works, one sees a connection close, one leaves it, one
ends what waited for that. -/
def settle (peer : Connection.Peer) (pacing : Pacing) (b : Bot) : Bot :=
  round peer pacing (round peer pacing (round peer pacing (round peer pacing b)))

/-! ## Sessions -/

namespace Session

inductive Act where
  /-- The console is given one line. -/
  | line (text : String)
  /-- The console is given an input, and an output that may be broken. -/
  | console (input : Bytes) (broken : Bool)
  /-- The server sends bytes in one write. -/
  | serve (bytes : Bytes)
  | hangUp
  deriving DecidableEq, Repr

/-- What an act answers by itself. -/
inductive Answer where
  | reply (reply : Console.Reply)
  | failed (e : Failure)
  | exit (exit : Console.Exit) (printed : String)
  | nothing

def Answer.quits : Answer → Bool
  | reply r => r.quit
  | exit e _ => decide (e = .quit)
  | _ => false

/-- The act itself, before anything else moves. -/
def act (b : Bot) : Act → Answer × Bot
  | .line text =>
    match b.execute (.parse text) with
    | (.ok reply, b) => (.reply reply, b)
    | (.error e, b) => (.failed e, b)
  | .console input broken =>
    let (exit, printed, b) := Console.run b input
    (.exit exit (if broken then "" else printed), b)
  | .serve bytes => (.nothing, b.attempt (.connection (.arrive bytes)))
  | .hangUp => (.nothing, b.attempt (.connection .hangUp))

/-- What can be seen of a stretch of a session. -/
structure Sight where
  /-- The messages that the server has read. -/
  heard : List Message
  /-- The failures given to the fatal handler. -/
  fatal : List Link.Error
  deriving DecidableEq, Repr

def sight (before after : Bot) : Sight where
  heard := Connection.heard (after.connection.written.drop before.connection.written.length)
  fatal := after.connection.fatal.drop before.connection.fatal.length

/-- What an act shows; nothing for one that is skipped. -/
inductive Shown where
  | skipped
  /-- The answer, what was seen, and whether the bot has stopped without having been told to. -/
  | shown (answer : Answer) (sight : Sight) (closed : Bool)

/-- A session under way: the bot, and whether it was told to shut down. -/
structure Stage where
  bot : Bot
  quit : Bool

/-- Whether the bot has stopped without having been told to. -/
def Stage.closed (s : Stage) : Bool :=
  s.bot.loop.isFinished && !s.quit

/-- The server, and how countdowns are paced. -/
structure Setting where
  peer : Connection.Peer
  pacing : Pacing
  deriving DecidableEq, Repr

def Act.isLine : Act → Bool
  | line _ => true
  | _ => false

/-- One act. After a quit every act is skipped, after a close every act but a line. -/
def step (setting : Setting) (s : Stage) (a : Act) : Shown × Stage :=
  if s.quit || (s.closed && !a.isLine) then (.skipped, s)
  else
    let (answer, acted) := act s.bot a
    let stage : Stage := ⟨acted.settle setting.peer setting.pacing, answer.quits⟩
    (.shown answer (sight s.bot stage.bot) stage.closed, stage)

def steps (setting : Setting) (s : Stage) : List Act → List Shown × Stage
  | [] => ([], s)
  | a :: acts =>
    let (shown, s) := step setting s a
    let (more, s) := steps setting s acts
    (shown :: more, s)

/-- What can be seen of a whole session. -/
structure Record where
  /-- Until the first act. -/
  first : Sight
  steps : List Shown
  /-- Whether the bot has stopped without having been told to. -/
  closed : Bool
  /-- How race control ended. -/
  shutdown : Except Failure Unit
  /-- From the last act on. -/
  tail : Sight

/-- A bot is started, goes through the acts, and is shut down. -/
def run (config : Config) (setting : Setting) (acts : List Act) : Record :=
  let new := Bot.new config
  let started := new.settle setting.peer setting.pacing
  let (shown, stage) := steps setting ⟨started, false⟩ acts
  let ended := (stage.bot.attempt .requestStop).settle setting.peer setting.pacing
  { first := sight new started
    steps := shown
    closed := stage.closed
    shutdown := ended.loop.result?.getD (.error .dispatcherGone)
    tail := sight stage.bot ended }

end Session

end RaceSteward.Bot
