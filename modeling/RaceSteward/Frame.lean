import RaceSteward.Bytes
import RaceSteward.Link.Error

/-!
# Frames

A stream is cut into frames: a four-byte length, then that many bytes of payload. A length at or
above the limit is refused before any byte of the payload is looked at.

* `Frame.next` looks at the front of what has arrived, `Frame.split` cuts a whole stream.
* `Frame.next_encode`: a frame in front of anything is found again.
-/

namespace RaceSteward.Frame

/-- The length, then the payload. -/
def encode (payload : Bytes) : Bytes :=
  Word.toBytes (UInt32.ofNat payload.length) ++ payload

/-- What stands at the front of the bytes that have arrived. -/
inductive Front where
  /-- A whole frame, and the bytes after it. -/
  | whole (payload rest : Bytes)
  /-- A length at or above the limit, and the bytes after the header. -/
  | tooLarge (length : UInt32) (unread : Bytes)
  /-- Part of a header, or a header with part of its payload. -/
  | incomplete
  deriving DecidableEq, Repr

def next (limit : UInt32) (stream : Bytes) : Front :=
  match stream with
  | a :: b :: c :: d :: rest =>
    let length := Word.ofBytes a b c d
    if limit ≤ length then .tooLarge length rest
    else if (rest.take length.toNat).length = length.toNat then
      .whole (rest.take length.toNat) (rest.drop length.toNat)
    else .incomplete
  | _ => .incomplete

/-! ## The front of a stream -/

theorem length_lt_of_next_whole {limit : UInt32} {stream payload rest : Bytes}
    (h : next limit stream = .whole payload rest) : rest.length < stream.length := by
  unfold next at h
  split at h
  · simp only at h
    split at h
    · cases h
    · split at h
      · simp only [Front.whole.injEq] at h
        obtain ⟨-, rfl⟩ := h
        simp only [List.length_drop, List.length_cons]
        omega
      · cases h
  · cases h

theorem next_header (limit length : UInt32) (rest : Bytes) :
    next limit (Word.toBytes length ++ rest) =
      if limit ≤ length then .tooLarge length rest
      else if (rest.take length.toNat).length = length.toNat then
        .whole (rest.take length.toNat) (rest.drop length.toNat)
      else .incomplete := by
  have h := Word.ofBytes_toBytes length
  simp only [next, Word.toBytes, List.cons_append, List.nil_append, h]

theorem next_encode {limit : UInt32} {payload : Bytes} (h : payload.length < limit.toNat)
    (rest : Bytes) : next limit (encode payload ++ rest) = .whole payload rest := by
  have hl := limit.toNat_lt
  have hn : (UInt32.ofNat payload.length).toNat = payload.length := by
    rw [UInt32.toNat_ofNat']
    omega
  have hlimit : ¬ limit ≤ UInt32.ofNat payload.length := by
    rw [UInt32.le_iff_toNat_le, hn]
    omega
  rw [encode, List.append_assoc, next_header, if_neg hlimit, hn, List.take_left, if_pos rfl,
    List.drop_left]

/-! ## A whole stream -/

/-- A stream that has ended, cut into frames. -/
structure Split where
  payloads : List Bytes
  /-- Why no further frame was cut. -/
  stop : Link.Error
  /-- The bytes after the last frame. -/
  rest : Bytes
  /-- What the reader left behind a header that it refused, if it refused one. -/
  unread : Option Bytes
  deriving DecidableEq, Repr

/-- Cuts frames off the front of a stream that has ended until that fails. -/
def split (limit : UInt32) (stream : Bytes) : Split :=
  match _h : next limit stream with
  | .whole payload rest =>
    let more := split limit rest
    { more with payloads := payload :: more.payloads }
  | .tooLarge length unread => ⟨[], .frameTooLarge length limit, stream, some unread⟩
  | .incomplete => ⟨[], .receiveFailed .unexpectedEof, stream, none⟩
termination_by stream.length
decreasing_by exact length_lt_of_next_whole (by assumption)

/-! ## Writing to a pipe that nobody reads -/

/-- The near end of a pipe: how many more bytes it takes, and whether the far end still stands. -/
structure Pipe where
  room : Nat
  isOpen : Bool
  deriving DecidableEq, Repr

/-- The bytes of a frame that a pipe takes before the time is up, and how the write ends. -/
def write (pipe : Pipe) (payload : Bytes) : Bytes × Except Link.Error Unit :=
  let frame := encode payload
  if !pipe.isOpen then ([], .error (.sendFailed .brokenPipe))
  else if (frame.drop pipe.room).isEmpty then (frame, .ok ())
  else (frame.take pipe.room, .error (.sendFailed .writeTimedOut))

end RaceSteward.Frame
