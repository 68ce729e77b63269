import RaceSteward.Wire.Cursor

/-!
# Failures of a connection

What can go wrong between the client and the server. Four kinds end the process, the others only the
connection.
-/

namespace RaceSteward.Link

/-- The class of a failure of the network. -/
inductive IoKind where
  | unexpectedEof
  | timedOut
  | brokenPipe
  | connectionRefused
  | other
  deriving DecidableEq, Repr

def IoKind.name : IoKind → String
  | unexpectedEof => "UnexpectedEof"
  | timedOut => "TimedOut"
  | brokenPipe => "BrokenPipe"
  | connectionRefused => "ConnectionRefused"
  | other => "Other"

/-- A failure of the network and its description. -/
structure IoFailure where
  kind : IoKind
  text : String
  deriving DecidableEq, Repr

namespace IoFailure

/-- The peer ended the stream where more bytes were due. -/
def unexpectedEof : IoFailure := ⟨.unexpectedEof, "early eof"⟩

/-- A frame was not taken within its time. -/
def writeTimedOut : IoFailure := ⟨.timedOut, "frame write timed out"⟩

/-- The other end of the pipe is gone. -/
def brokenPipe : IoFailure := ⟨.brokenPipe, "broken pipe"⟩

/-- Nobody listens at the address. -/
def refused : IoFailure := ⟨.connectionRefused, "connection refused"⟩

end IoFailure

inductive Error where
  | connectFailed (addr : String) (cause : IoFailure)
  | sendFailed (cause : IoFailure)
  | receiveFailed (cause : IoFailure)
  /-- A header declares as many bytes as the limit, or more. -/
  | frameTooLarge (length limit : UInt32)
  /-- A frame arrived whole and is no message. -/
  | malformed (cause : DecodeError)
  /-- A mailbox is at its hard limit. -/
  | capacityExceeded (pending : Nat)
  | alreadyStarted
  deriving DecidableEq, Repr

namespace Error

def message : Error → String
  | connectFailed addr cause => s!"connect to {addr} failed: {cause.text}"
  | sendFailed cause => s!"send failed: {cause.text}"
  | receiveFailed cause => s!"receive failed: {cause.text}"
  | frameTooLarge length limit => s!"frame of {length.toNat} bytes exceeds limit of {limit.toNat}"
  | malformed cause => s!"malformed frame: {cause.message}"
  | capacityExceeded pending => s!"message queue overflow: {pending} messages pending"
  | alreadyStarted => "transport already started"

/-- The failures that end the process: connecting, sending, receiving, overflow. -/
def isFatal : Error → Bool
  | connectFailed .. => true
  | sendFailed _ => true
  | receiveFailed _ => true
  | capacityExceeded _ => true
  | frameTooLarge .. => false
  | malformed _ => false
  | alreadyStarted => false

end Error

end RaceSteward.Link
