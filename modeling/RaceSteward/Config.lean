import RaceSteward.Link.Settings
import RaceSteward.Text

/-!
# Configuration

Everything the bot needs to know before it runs, from the texts of a command line or from JSON.

* `Config.ofArgs`: a port that is no number from 0 to 65535 gives way to the usual one.
-/

namespace RaceSteward

structure Config where
  link : Link.Settings
  /-- How often race control empties the mailbox. -/
  dispatchTick : Span
  /-- The pause between two lines of a countdown. -/
  countdownInterval : Span
  deriving DecidableEq, Repr

namespace Config

/-- The usual times around the settings of a connection. -/
def around (link : Link.Settings) : Config :=
  ⟨link, .ofMillis 10, .ofMillis 1000⟩

def default : Config := around .default

/-! ## Arguments -/

/-- The number that digits, with perhaps a plus in front, stand for, if it is a port. -/
def port? (s : List Char) : Option UInt16 :=
  let digits := match s with
    | '+' :: rest => rest
    | s => s
  if digits.isEmpty || !digits.all Char.isDigit then none
  else
    let value := Json.Numeral.natOf digits
    if value < 65536 then some (UInt16.ofNat value) else none

/-- The configuration for a host and the text of a port, and whether the port had to be replaced. -/
def ofArgs (host port : String) : Config × Bool :=
  match port? (Text.trim port.toList) with
  | some port => (around (.forServer host port), false)
  | none => (around (.forServer host Link.Settings.defaultPort), true)

/-! ## JSON -/

def toJson (c : Config) : Json :=
  .record [("client", c.link.toJson), ("dispatch_tick", c.dispatchTick.toJson),
    ("countdown_interval", c.countdownInterval.toJson)]

def ofJson? (j : Json) : Option Config := do
  match ← j.fields? .ignored ["client", "dispatch_tick", "countdown_interval"] with
  | [link, dispatchTick, countdownInterval] =>
    some ⟨← Link.Settings.ofJson? link, ← Span.ofJson? dispatchTick,
      ← Span.ofJson? countdownInterval⟩
  | _ => none

def toJsonText (c : Config) : String :=
  c.toJson.toText

def ofJsonText? (s : String) : Option Config := do
  ofJson? (← Json.parse? s)

end Config

end RaceSteward
