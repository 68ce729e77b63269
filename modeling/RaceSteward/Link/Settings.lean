import RaceSteward.Config.Span
import RaceSteward.Mailbox

/-!
# Settings of a connection

Where the server is, how long a frame and how full a mailbox may be, and the times of the sender.
-/

namespace RaceSteward.Link

structure Settings where
  host : String
  port : UInt16
  /-- Frames that declare as many bytes, or more, are refused. -/
  maxFrame : UInt32
  warn : Nat
  nuke : Nat
  /-- How often the sender empties the mailbox. -/
  tickPeriod : Span
  /-- The longest that one frame may take to be written. -/
  writeTimeout : Span
  deriving DecidableEq, Repr

namespace Settings

def defaultHost : String := "127.0.0.1"

def defaultPort : UInt16 := 6172

/-- The usual settings for a server. -/
def forServer (host : String) (port : UInt16) : Settings :=
  ⟨host, port, 2048, 2048, 3072, .ofMillis 10, .ofMillis 1000⟩

def default : Settings := forServer defaultHost defaultPort

/-- Host and port, as they are dialled. -/
def addr (s : Settings) : String :=
  s!"{s.host}:{s.port.toNat}"

def watermarks (s : Settings) : Watermarks := ⟨s.warn, s.nuke⟩

/-- The largest count of messages. -/
def maxCount : Nat := 18446744073709551615

def toJson (s : Settings) : Json :=
  .record [("host", .ofString s.host), ("port", .ofNat s.port.toNat),
    ("max_frame_size", .ofNat s.maxFrame.toNat), ("warn_capacity", .ofNat s.warn),
    ("nuke_capacity", .ofNat s.nuke), ("tick_period", s.tickPeriod.toJson),
    ("write_timeout", s.writeTimeout.toJson)]

def ofJson? (j : Json) : Option Settings := do
  match ← j.fields? .ignored ["host", "port", "max_frame_size", "warn_capacity", "nuke_capacity",
      "tick_period", "write_timeout"] with
  | [host, port, maxFrame, warn, nuke, tickPeriod, writeTimeout] =>
    some ⟨← host.asText?, UInt16.ofNat (← port.asNat? 65535), ← maxFrame.asWord?,
      ← warn.asNat? maxCount, ← nuke.asNat? maxCount, ← Span.ofJson? tickPeriod,
      ← Span.ofJson? writeTimeout⟩
  | _ => none

end Settings

end RaceSteward.Link
