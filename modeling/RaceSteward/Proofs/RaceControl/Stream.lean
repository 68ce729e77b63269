import RaceSteward.RaceControl.Stream
import RaceSteward.Proofs.Frame.Messages

/-!
# A stream is routed as its messages

Race control over a stream of bytes does what race control does with the messages that the stream
conveys, message by message (`RaceControl.overStream_of_conveys`). In particular the frames of any
messages are routed as these messages, narrowed to characters with a byte
(`RaceControl.overStream_encode`).
-/

namespace RaceSteward

namespace RaceControl

variable {limit : UInt32} {stream rest : Bytes}

/-- Bulletins of messages that came before. -/
def StreamEnd.after (before : List Bulletin) (s : StreamEnd) : StreamEnd :=
  { s with bulletins := before ++ s.bulletins }

theorem overStream_of_whole {payload : Bytes} {m : Message}
    (hfront : Frame.next limit stream = .whole payload rest)
    (hdecode : Message.decode payload = .ok m) (rc : RaceControl) :
    rc.overStream limit stream =
      ((rc.route m).2.overStream limit rest).after [(rc.route m).1] := by
  rw [overStream]
  split
  · rename_i payload' rest' hfront'
    rw [hfront] at hfront'
    cases hfront'
    rw [hdecode]
    rfl
  · rename_i hfront'
    rw [hfront] at hfront'
    cases hfront'
  · rename_i hfront'
    rw [hfront] at hfront'
    cases hfront'

theorem overStream_nil (rc : RaceControl) :
    rc.overStream limit [] = ⟨[], .receiveFailed .unexpectedEof, rc⟩ := by
  rw [overStream]
  rfl

@[simp] theorem run_route_cons (rc : RaceControl) (m : Message) (messages : List Message) :
    rc.run ((m :: messages).map .route) =
      ((rc.route m).1 :: ((rc.route m).2.run (messages.map .route)).1,
        ((rc.route m).2.run (messages.map .route)).2) := rfl

theorem overStream_of_conveys {messages : List Message}
    (h : Frame.Conveys limit stream messages rest) (rc : RaceControl) :
    rc.overStream limit stream =
      ((rc.run (messages.map .route)).2.overStream limit rest).after
        (rc.run (messages.map .route)).1 := by
  obtain ⟨payloads, rfl, hlengths, hmessages⟩ := h
  induction payloads generalizing rc messages with
  | nil =>
    rw [List.map_nil, eq_comm, List.map_eq_nil_iff] at hmessages
    subst hmessages
    rfl
  | cons payload payloads ih =>
    cases messages with
    | nil => cases hmessages
    | cons m messages =>
      rw [List.map_cons, List.map_cons, List.cons.injEq] at hmessages
      obtain ⟨hdecode, hmessages⟩ := hmessages
      obtain ⟨hlength, hlengths⟩ := List.forall_mem_cons.mp hlengths
      have hfront := Frame.next_encode hlength (payloads.flatMap Frame.encode ++ rest)
      rw [List.flatMap_cons, List.append_assoc, overStream_of_whole hfront hdecode,
        ih _ hlengths hmessages, run_route_cons]
      rfl

/-- The frames of messages are routed as the messages themselves, as they arrive: message by message
the bulletins are the same, and so is race control in the end. Then the stream is over, which is
fatal. -/
theorem overStream_encode (rc : RaceControl) (limit : UInt32) (messages : List Message)
    (h : ∀ m ∈ messages, m.encode.length < limit.toNat) :
    let routed := rc.overStream limit (Frame.ofMessages messages)
    let direct := rc.run (messages.map fun m => .route m.narrow)
    routed.bulletins = direct.1 ∧ routed.control = direct.2 ∧
      routed.stop = .receiveFailed .unexpectedEof ∧ routed.stop.isFatal = true ∧
      ((∀ m ∈ messages, m.IsSingleByte) → direct = rc.run (messages.map .route)) := by
  intro routed direct
  have hrouted : routed = ⟨direct.1, .receiveFailed .unexpectedEof, direct.2⟩ := by
    refine (overStream_of_conveys (Frame.conveys_ofMessages h) rc).trans ?_
    rw [overStream_nil, List.map_map, StreamEnd.after, List.append_nil]
    rfl
  refine ⟨by rw [hrouted], by rw [hrouted], by rw [hrouted], by rw [hrouted]; rfl, ?_⟩
  intro hsingle
  have hnarrow : (messages.map fun m => Step.route m.narrow) = messages.map .route :=
    List.map_congr_left fun m hm => by rw [Message.narrow_eq_self_iff.mpr (hsingle m hm)]
  exact congrArg rc.run hnarrow

/-- An armed start, a race with a wide nickname that concludes inside the run, and a late event. -/
theorem overStream_encode_race :
    let routed := overStream { new with armed := true } 2048 (Frame.ofMessages
      [.clientList ⟨[⟨1, "Zoë€", 0⟩, ⟨2, "bo", 0⟩]⟩, .cheatState ⟨2, 1⟩,
        .clientDisconnected ⟨1⟩, .clientDisconnected ⟨2⟩])
    routed.replies = [[], [], [.broadcast "bo: DNF. Reason: Cheat",
      .broadcast "Zoë?: DNF. Reason: Logout"], []] ∧
      routed.stop = .receiveFailed .unexpectedEof := by
  have h := overStream_encode { new with armed := true } 2048
    [.clientList ⟨[⟨1, "Zoë€", 0⟩, ⟨2, "bo", 0⟩]⟩, .cheatState ⟨2, 1⟩, .clientDisconnected ⟨1⟩,
      .clientDisconnected ⟨2⟩] (by decide)
  obtain ⟨hbulletins, -, hstop, -⟩ := h
  refine ⟨?_, hstop⟩
  rw [StreamEnd.replies, hbulletins]
  rfl

end RaceControl

end RaceSteward
