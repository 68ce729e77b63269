import RaceSteward.Frame
import RaceSteward.Message.Codec
import RaceSteward.RaceControl

/-!
# Race control over a stream

A stream of bytes, cut into frames, decoded and routed message by message until a frame or a message
fails.

* `RaceControl.overStream`: the bulletin of each message, why the stream ended, and race control
  after it.
-/

namespace RaceSteward.RaceControl

/-- What a stream has come to. -/
structure StreamEnd where
  /-- One for each message, in order. -/
  bulletins : List Bulletin
  stop : Link.Error
  control : RaceControl
  deriving DecidableEq, Repr

/-- Routes every message of a stream that has ended. -/
def overStream (rc : RaceControl) (limit : UInt32) (stream : Bytes) : StreamEnd :=
  match _h : Frame.next limit stream with
  | .whole payload rest =>
    match Message.decode payload with
    | .ok m =>
      let (bulletin, rc) := rc.route m
      let more := overStream rc limit rest
      { more with bulletins := bulletin :: more.bulletins }
    | .error e => ⟨[], .malformed e, rc⟩
  | .tooLarge length _ => ⟨[], .frameTooLarge length limit, rc⟩
  | .incomplete => ⟨[], .receiveFailed .unexpectedEof, rc⟩
termination_by stream.length
decreasing_by exact Frame.length_lt_of_next_whole (by assumption)

/-- The messages sent for each message of the stream. -/
def StreamEnd.replies (s : StreamEnd) : List (List Message) :=
  s.bulletins.map (·.sent)

end RaceSteward.RaceControl
