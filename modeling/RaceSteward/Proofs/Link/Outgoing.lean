import RaceSteward.Proofs.Frame.Messages
import RaceSteward.Proofs.Link.Workers

/-!
# What reaches the socket

The outbound side of a connection, along a run: what callers have put into the mailbox, what the
worker that writes has in hand, and the messages whose frames the socket has taken whole. Whatever
the timing, these three put together are the question who is online and then everything stored, in
order; the socket has taken the frames of the first, and perhaps the beginning of the next one.

* `Connection.Accounted.step`: each move keeps the account.
* `Connection.written_of_run`: what the socket has taken, and what a peer makes of it.
-/

namespace RaceSteward.Link.Connection

open RaceSteward.Frame (ofMessages)

/-- What can be seen of the outbound side along a run. -/
structure Outgoing where
  /-- What callers have put into the mailbox, in order. -/
  stored : List Message
  /-- The question who is online has been put in front. -/
  asked : Bool
  /-- The messages whose frames the socket has taken whole, in order. -/
  completed : List Message
  /-- The messages taken from the mailbox whose frames the socket has not taken whole. -/
  inHand : List Message
  deriving DecidableEq, Repr

namespace Outgoing

def empty : Outgoing := ⟨[], false, [], []⟩

/-- Everything put into the mailbox, in the order in which it is to go out. -/
def queued (out : Outgoing) : List Message :=
  if out.asked then .whoIsOnline :: out.stored else out.stored

theorem queued_store (out : Outgoing) (more : List Message) :
    { out with stored := out.stored ++ more }.queued = out.queued ++ more := by
  obtain ⟨stored, asked, completed, inHand⟩ := out
  cases asked <;> rfl

/-- The socket has taken the rest of a frame. -/
def complete (out : Outgoing) : Outgoing :=
  { out with completed := out.completed ++ out.inHand.take 1, inHand := out.inHand.drop 1 }

/-- What an event adds. A full mailbox stores nothing; to collect is to take everything queued. -/
def note (out : Outgoing) (c : Connection) (e : Event) (_ : Connection) : Outgoing :=
  match e with
  | .sendBatch batch => { out with stored := out.stored ++ if c.outbound.isFull then [] else batch }
  | .greet => { out with asked := true }
  | .collect => { out with inHand := c.outbound.pending }
  | .accept n =>
    match c.writer with
    | .writing frame _ => if frame.length ≤ n then out.complete else out
    | _ => out
  | _ => out

/-- The account of a run of a new connection. -/
def ofRun (settings : Settings) (es : List Event) : Outgoing :=
  accumulate note empty (new settings) es

/-! ## Where the socket stands -/

/-- The socket stands between two frames, and nothing is in hand. -/
def Between (out : Outgoing) (written : Bytes) : Prop :=
  out.inHand = [] ∧ written = ofMessages out.completed

/-- The socket stands before the last bytes of the frame of the first message in hand. -/
def Within (out : Outgoing) (written left : Bytes) (batch : List Message) : Prop :=
  ∃ m part, out.inHand = m :: batch ∧ frameOf m = part ++ left ∧ left ≠ [] ∧
    written = ofMessages out.completed ++ part

/-- Where the socket stands, by where the worker that writes stands. -/
def Tells (out : Outgoing) (written : Bytes) : Writer → Prop
  | .writing left batch => out.Within written left batch
  | .done => out.Between written ∨ ∃ left batch, out.Within written left batch
  | _ => out.Between written

variable {out : Outgoing} {written left : Bytes} {batch : List Message}

theorem tells_begin (hwritten : written = ofMessages out.completed) :
    out.Tells written (.begin out.inHand) := by
  cases hhand : out.inHand with
  | nil => exact ⟨hhand, hwritten⟩
  | cons m batch =>
    refine ⟨m, [], hhand, rfl, Frame.encode_ne_nil _, ?_⟩
    rw [hwritten, List.append_nil]

theorem Within.complete (h : out.Within written left batch) :
    out.complete.Tells (written ++ left) (.begin batch) := by
  obtain ⟨m, part, hhand, hframe, -, rfl⟩ := h
  have hcompleted : out.complete.completed = out.completed ++ [m] := by
    rw [Outgoing.complete, hhand]
    rfl
  have hbatch : out.complete.inHand = batch := by
    rw [Outgoing.complete, hhand]
    rfl
  rw [← hbatch]
  apply tells_begin
  rw [hcompleted, Frame.ofMessages_concat, List.append_assoc, ← hframe]
  rfl

theorem Within.accept {n : Nat} (h : out.Within written left batch) (hn : n < left.length) :
    out.Within (written ++ left.take n) (left.drop n) batch := by
  obtain ⟨m, part, hhand, hframe, -, rfl⟩ := h
  refine ⟨m, part ++ left.take n, hhand, ?_, ?_, List.append_assoc ..⟩
  · rw [hframe, List.append_assoc, List.take_append_drop]
  · rw [ne_eq, List.drop_eq_nil_iff]
    omega

theorem Tells.between_or_within {w : Writer} (h : out.Tells written w) :
    out.Between written ∨ ∃ left batch, out.Within written left batch := by
  cases w with
  | writing left batch => exact .inr ⟨left, batch, h⟩
  | done => exact h
  | _ => exact .inl h

end Outgoing

/-! ## The account of a connection -/

/-- The account tells what has become of everything put into the outbound mailbox. -/
structure Accounted (out : Outgoing) (c : Connection) : Prop where
  -- the question comes once, before the socket is given away
  asked : out.asked = true → c.dialler = .handingOver ∨ c.dialler = .done
  handing : c.dialler = .handingOver → out.asked = true
  offered : c.writerHalf = .offered → out.asked = true
  unasked : out.asked = false → out.completed = [] ∧ out.inHand = []
  balance : out.completed ++ out.inHand ++ c.outbound.pending = out.queued
  tells : out.Tells c.written c.writer

variable {settings : Settings} {out : Outgoing} {c d : Connection}

theorem accounted_new (settings : Settings) : Accounted .empty (new settings) where
  asked h := by cases h
  handing h := by cases h
  offered h := by cases h
  unasked _ := ⟨rfl, rfl⟩
  balance := rfl
  tells := ⟨rfl, rfl⟩

theorem Accounted.not_asked (h : Accounted out c) (hdialler : c.dialler ≠ .handingOver)
    (hbusy : c.dialler ≠ .done) : ¬ out.asked = true := by
  intro hasked
  rcases h.asked hasked with hhanding | hdone
  · exact hdialler hhanding
  · exact hbusy hdone

theorem Accounted.asked_of_working (h : Accounted out c) (hs : Staffed c)
    (habsent : c.writer ≠ .absent) (hwaiting : c.writer ≠ .waiting) (hdone : c.writer ≠ .done) :
    ¬ out.asked = false := by
  rw [h.offered (hs.writer_offered habsent hwaiting hdone)]
  decide

/-! ## One move -/

theorem accept_of_le {n : Nat} {frame : Bytes} (h : frame.length ≤ n) (c : Connection)
    (batch : List Message) :
    c.accept n frame batch = { c with written := c.written ++ frame, writer := .begin batch } := by
  rw [accept, List.take_of_length_le h, List.drop_of_length_le h]

theorem accept_of_lt {n : Nat} {frame : Bytes} (h : n < frame.length) (c : Connection)
    (batch : List Message) :
    c.accept n frame batch = { c with
      written := c.written ++ frame.take n, writer := .writing (frame.drop n) batch } := by
  rw [accept]
  split
  · rename_i hdrop
    rw [List.drop_eq_nil_iff] at hdrop
    omega
  · rfl

theorem pending_of_extend {batch : List Message} {result : Except Overflow Nat}
    {outbound : Mailbox Message} (h : c.outbound.extend batch = (result, outbound)) :
    outbound.pending = c.outbound.pending ++ if c.outbound.isFull then [] else batch := by
  have hpending := Mailbox.pending_extend c.outbound batch
  rw [h] at hpending
  rw [hpending]
  split
  · rw [List.append_nil]
  · rfl

theorem Accounted.send {batch : List Message} {result : Except Overflow Nat}
    {outbound : Mailbox Message} (h : Accounted out c)
    (hqueue : c.outbound.extend batch = (result, outbound)) :
    Accounted (out.note c (.sendBatch batch) d) { c with outbound := outbound } := by
  have hbalance := h.balance
  exact { h with
    balance := by
      show out.completed ++ out.inHand ++ outbound.pending = _
      rw [pending_of_extend hqueue, ← List.append_assoc, hbalance]
      exact (out.queued_store _).symm }

theorem Accounted.endDialler (h : Accounted out c) : Accounted out c.endDialler where
  asked _ := .inr rfl
  handing hhanding := by cases hhanding
  offered hoffered := by cases hoffered
  unasked := h.unasked
  balance := h.balance
  tells := h.tells

theorem Accounted.ask {result : Except Overflow Nat} {outbound : Mailbox Message}
    (h : Accounted out c) (hdialler : c.dialler = .greeting)
    (hqueue : c.outbound.pushFront .whoIsOnline = (result, outbound)) :
    Accounted { out with asked := true }
      { c with outbound := outbound, dialler := .handingOver } := by
  have hasked := h.not_asked (by rw [hdialler]; decide) (by rw [hdialler]; decide)
  rw [Bool.not_eq_true] at hasked
  obtain ⟨hcompleted, hhand⟩ := h.unasked hasked
  have hbalance := h.balance
  rw [hcompleted, hhand, Outgoing.queued, hasked] at hbalance
  have hpending := Mailbox.pending_pushFront c.outbound .whoIsOnline
  rw [hqueue] at hpending
  exact {
    asked := fun _ => .inl rfl
    handing := fun _ => rfl
    offered := fun _ => rfl
    unasked := fun hnever => by cases hnever
    balance := by
      show out.completed ++ out.inHand ++ outbound.pending = .whoIsOnline :: out.stored
      rw [hcompleted, hhand, hpending]
      exact congrArg (Message.whoIsOnline :: ·) hbalance
    tells := h.tells }

theorem Accounted.collect (h : Accounted out c) (hs : Staffed c)
    (hwriter : c.writer = .collecting) :
    Accounted { out with inHand := c.outbound.pending }
      { c with outbound := c.outbound.drain.2, writer := .begin c.outbound.pending } := by
  have hasked := h.asked_of_working hs (by rw [hwriter]; decide) (by rw [hwriter]; decide)
    (by rw [hwriter]; decide)
  have htells := h.tells
  have hbalance := h.balance
  rw [hwriter] at htells
  obtain ⟨hhand, hwritten⟩ := htells
  exact { h with
    unasked := fun hnever => absurd hnever hasked
    balance := by
      rw [hhand, List.append_nil] at hbalance
      exact (List.append_nil _).trans hbalance
    tells := Outgoing.tells_begin hwritten }

theorem Accounted.accept {n : Nat} {frame : Bytes} {batch : List Message} (h : Accounted out c)
    (hs : Staffed c) (hwriter : c.writer = .writing frame batch) :
    Accounted (out.note c (.accept n) d) (c.accept n frame batch) := by
  have hasked := h.asked_of_working hs (by rw [hwriter]; nofun) (by rw [hwriter]; nofun)
    (by rw [hwriter]; nofun)
  have hwithin : out.Within c.written frame batch := by
    have htells := h.tells
    rw [hwriter] at htells
    exact htells
  simp only [Outgoing.note, hwriter]
  by_cases hn : frame.length ≤ n
  · rw [if_pos hn, accept_of_le hn]
    exact { h with
      unasked := fun hnever => absurd hnever hasked
      balance := by
        show out.completed ++ out.inHand.take 1 ++ out.inHand.drop 1 ++ c.outbound.pending = _
        rw [List.append_assoc out.completed, List.take_append_drop]
        exact h.balance
      tells := hwithin.complete }
  · rw [if_neg hn, accept_of_lt (Nat.lt_of_not_le hn)]
    exact { h with tells := hwithin.accept (Nat.lt_of_not_le hn) }

theorem Accounted.step {e : Event} (h : Accounted out c) (hs : Staffed c) (hstep : Step c e d) :
    Accounted (out.note c e d) d := by
  cases hstep with
  | start hidle =>
    obtain ⟨hdialler, hwriter, -, -⟩ := hs.idle hidle
    have hasked := h.not_asked (by rw [hdialler]; decide) (by rw [hdialler]; decide)
    have htells := h.tells
    rw [hwriter] at htells
    exact { h with
      asked := fun hnever => absurd hnever hasked
      handing := fun hhanding => by cases hhanding
      tells := htells }
  | sendBatch hqueue => exact h.send hqueue
  | sendOverflow hqueue => exact { h.send hqueue with }
  | dial hdialler | dialSucceeds hdialler =>
    have hasked := h.not_asked (by rw [hdialler]; decide) (by rw [hdialler]; decide)
    exact { h with
      asked := fun hnever => absurd hnever hasked
      handing := fun hhanding => by cases hhanding }
  | dialAbandoned | handOverNone => exact h.endDialler
  | dialFails => exact { h.endDialler with }
  | greet hdialler hqueue => exact h.ask hdialler hqueue
  | greetOverflow hdialler hqueue => exact { (h.ask hdialler hqueue).endDialler with }
  | handOver hdialler | handOverWriter hdialler =>
    -- the socket is given away only behind the question
    have hasked := h.handing hdialler
    exact { h with
      asked := fun _ => .inr rfl
      handing := fun _ => hasked
      offered := fun _ => hasked }
  | writerBegins hwriter | tick hwriter =>
    have htells := h.tells
    rw [hwriter] at htells
    exact { h with tells := htells }
  | writerLeaves hwriter | tickStops hwriter =>
    have htells := h.tells
    rw [hwriter] at htells
    exact { h with tells := .inl htells }
  | collect hwriter => exact h.collect hs hwriter
  | accept hwriter => exact h.accept hs hwriter
  | @writeFails cause frame batch hwriter =>
    have htells := h.tells
    rw [hwriter] at htells
    exact { h with tells := .inr ⟨frame, batch, htells⟩ }
  | receiveOverflow | receiveMalformed | receiveTooLarge | receiveEnd | readFails =>
    rw [failReading_eq]
    exact { h with }
  | _ => exact { h with }

/-! ## What the account says -/

theorem Accounted.handled_prefix (h : Accounted out c) :
    out.completed ++ out.inHand <+: .whoIsOnline :: out.stored := by
  cases hasked : out.asked with
  | false =>
    obtain ⟨hcompleted, hhand⟩ := h.unasked hasked
    rw [hcompleted, hhand]
    exact List.nil_prefix
  | true =>
    have hbalance := h.balance
    rw [Outgoing.queued, if_pos hasked] at hbalance
    exact ⟨c.outbound.pending, hbalance⟩

/-- The socket has taken whole frames, and perhaps the beginning of the next one. -/
theorem Accounted.exists_part (h : Accounted out c) :
    ∃ part, c.written = ofMessages out.completed ++ part ∧
      (part = [] ∨ ∃ m left, out.completed ++ [m] <+: .whoIsOnline :: out.stored ∧
        frameOf m = part ++ left ∧ left ≠ []) := by
  rcases h.tells.between_or_within with ⟨-, hwritten⟩ | ⟨left, batch, m, part, hhand, hm, hleft, hw⟩
  · exact ⟨[], by rw [hwritten, List.append_nil], .inl rfl⟩
  · refine ⟨part, hw, .inr ⟨m, left, ?_, hm, hleft⟩⟩
    have hhandled := h.handled_prefix
    rw [hhand, List.append_cons] at hhandled
    exact (List.prefix_append _ batch).trans hhandled

theorem written_prefix_of_step {e : Event} (hstep : Step c e d) : c.written <+: d.written := by
  cases hstep with
  | accept hwriter => exact List.prefix_append _ _
  | receiveOverflow | receiveMalformed | receiveTooLarge | receiveEnd | readFails =>
    rw [failReading_eq]
    exact List.prefix_rfl
  | _ => exact List.prefix_rfl

/-- The worker that writes has ended, with these bytes taken by the socket. -/
structure WriterGone (written : Bytes) (c : Connection) : Prop where
  done : c.writer = .done
  started : c.lifecycle ≠ .idle
  written_eq : c.written = written

theorem WriterGone.step {written : Bytes} {e : Event} (h : WriterGone written c)
    (hstep : Step c e d) : WriterGone written d := by
  obtain ⟨hdone, hstarted, hwritten⟩ := h
  cases hstep with
  | start hidle => exact absurd hidle hstarted
  | stopIdle hidle => exact absurd hidle hstarted
  | stopRunning | stopAgain => exact ⟨hdone, nofun, hwritten⟩
  | writerBegins hwriter | writerLeaves hwriter | tick hwriter | tickStops hwriter
  | collect hwriter | accept hwriter | writeFails hwriter =>
    rw [hdone] at hwriter
    cases hwriter
  | receiveOverflow | receiveMalformed | receiveTooLarge | receiveEnd | readFails =>
    rw [failReading_eq]
    exact ⟨hdone, hstarted, hwritten⟩
  | _ => exact ⟨hdone, hstarted, hwritten⟩

/-! ## A whole run -/

theorem accounted_of_run {es : List Event} (hrun : (new settings).run? es = some c) :
    Accounted (.ofRun settings es) c := by
  have hstart : Accounted .empty (new settings) ∧ Staffed (new settings) :=
    ⟨accounted_new settings, staffed_new settings⟩
  have hkept := accumulate_keeps (P := fun out c => Accounted out c ∧ Staffed c)
    (fun ⟨h, hs⟩ hstep => ⟨h.step hs hstep, hs.step hstep⟩) hstart hrun
  exact hkept.1

/-- At every moment of every run the socket has taken a beginning of the frames of the question who
is online and of everything stored, in order, each once. A peer gets exactly the messages completed.
-/
theorem written_of_run {settings : Settings} {es later : List Event} {c d : Connection}
    (hrun : (new settings).run? es = some c) (hlater : c.run? later = some d) :
    let out := Outgoing.ofRun settings es
    let log := Message.whoIsOnline :: out.stored
    c.written <+: d.written ∧ (c.writer = .done → d.written = c.written) ∧
      c.written <+: ofMessages log ∧
      out.completed ++ out.inHand ++ c.outbound.pending = (if out.asked then log else out.stored) ∧
      ∃ part, c.written = ofMessages out.completed ++ part ∧ out.completed <+: log ∧
        (part = [] ∨
          ∃ m left, out.completed ++ [m] <+: log ∧ frameOf m = part ++ left ∧ left ≠ []) ∧
        ∀ limit : UInt32, (∀ m ∈ log, m.encode.length < limit.toNat) →
          Frame.split limit c.written =
            ⟨out.completed.map (·.encode), .receiveFailed .unexpectedEof, part, none⟩ ∧
          (out.completed.map (·.encode)).map Message.decode =
            out.completed.map fun m => .ok m.narrow := by
  intro out log
  have h : Accounted out c := accounted_of_run hrun
  have hcompleted : out.completed <+: log := (List.prefix_append _ _).trans h.handled_prefix
  obtain ⟨part, hwritten, hpart⟩ := h.exists_part
  refine ⟨?_, ?_, ?_, h.balance, part, hwritten, hcompleted, hpart, ?_⟩
  · exact run_keeps (P := (c.written <+: ·.written))
      (fun hprefix hstep => hprefix.trans (written_prefix_of_step hstep)) List.prefix_rfl hlater
  · intro hdone
    have hgone : WriterGone c.written c :=
      ⟨hdone, (staffed_of_run hrun).not_idle_of_writer (by rw [hdone]; decide), rfl⟩
    exact (run_keeps (fun hgone hstep => hgone.step hstep) hgone hlater).written_eq
  · rcases hpart with rfl | ⟨m, left, hnext, hframe, -⟩
    · rw [hwritten, List.append_nil]
      exact Frame.ofMessages_prefix hcompleted
    · have hframes := Frame.ofMessages_prefix hnext
      rw [Frame.ofMessages_concat] at hframes
      refine List.IsPrefix.trans ⟨left, ?_⟩ hframes
      rw [hwritten, List.append_assoc, ← hframe]
      rfl
  · intro limit hlimit
    have hbelow : ∀ m ∈ out.completed, m.encode.length < limit.toNat :=
      fun m hm => hlimit m (hcompleted.subset hm)
    have hincomplete : Frame.Incomplete limit part := by
      rcases hpart with rfl | ⟨m, left, hnext, hframe, hleft⟩
      · exact .inl (by decide)
      · have hm : m ∈ log := hnext.subset (List.mem_append_right _ List.mem_cons_self)
        exact Frame.incomplete_of_append hframe hleft (hlimit m hm)
    constructor
    · rw [hwritten]
      exact Frame.split_ofMessages hbelow hincomplete
    · rw [List.map_map]
      exact List.map_congr_left fun m hm => Frame.decode_encode_of_lt (hbelow m hm)

/-- A line is queued before the connection comes up and two after it; the socket takes two frames and
three bytes of the third, then it fails. -/
def brokenOff : List Event :=
  [.sendBatch [.broadcast "café €"], .start, .dial, .dialSucceeds, .greet, .handOver,
    .sendBatch [.broadcast "b", .broadcast "c"], .writerBegins, .tick, .collect, .accept 5,
    .accept 3, .accept 64, .accept 3, .writeFails .brokenPipe]

theorem written_of_run_brokenOff :
    ∃ c d, (new .default).run? brokenOff = some c ∧
      c.run? [.sendBatch [.broadcast "d"], .recv] = some d ∧ d.written = c.written ∧
      c.written <+: ofMessages
        [.whoIsOnline, .broadcast "café €", .broadcast "b", .broadcast "c"] ∧
      (Frame.split 2048 c.written).payloads.map Message.decode =
        [.ok .whoIsOnline, .ok (.broadcast "café ?")] := by
  obtain ⟨c, hrun, hdone⟩ : ∃ c, (new .default).run? brokenOff = some c ∧ c.writer = .done :=
    ⟨_, rfl, rfl⟩
  obtain ⟨d, hlater⟩ : ∃ d, c.run? [.sendBatch [.broadcast "d"], .recv] = some d := by
    cases hrun
    exact ⟨_, rfl⟩
  obtain ⟨-, hstill, hprefix, -, part, -, -, -, hpeer⟩ := written_of_run hrun hlater
  obtain ⟨hsplit, hdecode⟩ := hpeer 2048 (by decide +kernel)
  refine ⟨c, d, hrun, hlater, hstill hdone, hprefix, ?_⟩
  rw [hsplit]
  exact hdecode

end RaceSteward.Link.Connection
