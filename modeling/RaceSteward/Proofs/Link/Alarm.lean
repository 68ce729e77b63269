import RaceSteward.Link.Session
import RaceSteward.Proofs.Link.Step
import RaceSteward.Proofs.Mailbox.Pressure

/-!
# Overflows of the outbound mailbox

Every batch that is answered with an overflow is given to the fatal handler, with that same overflow,
and as long as no worker runs nothing else is. What the overflow leaves behind depends on what it
found: a full mailbox stays as it was, any other has taken the batch that fills it.

* `Link.Connection.overflow_unchanged_iff`: when an overflow leaves the mailbox as it was.
* `Link.Session.pressure_and_alarm`: how full a mailbox gets, what it answers, and what becomes known
  of that.
-/

namespace RaceSteward.Link

namespace Connection

variable {c c' : Connection} {batch : List Message}

theorem exists_of_sendBatch_eq_error {e : Error} (h : c.sendBatch batch = (.error e, c')) :
    ∃ overflow outbound, c.outbound.extend batch = (.error overflow, outbound) ∧
      e = .capacityExceeded overflow.pending ∧
      c' = { c with outbound := outbound, fatal := c.fatal ++ [e] } := by
  rcases hqueue : c.outbound.extend batch with ⟨overflow | pending, outbound⟩
  · rw [sendBatch_of_error hqueue] at h
    cases h
    exact ⟨overflow, outbound, rfl, rfl, rfl⟩
  · rw [sendBatch_of_ok hqueue] at h
    cases h

/-- A batch is answered with an overflow that counts so many messages. What is said of the two
mailboxes is said of the operations of one, and of the outbound mailbox of a connection before and
after a caller sends the batch. -/
inductive Overflows : Mailbox Message → List Message → Nat → Mailbox Message → Prop where
  | deliver {q q' : Mailbox Message} {op : Mailbox.Op Message} {batch : List Message} {count : Nat}
    (hop : op.batch? = some batch) (h : q.step op = (.delivered (.error ⟨count⟩), q')) :
    Overflows q batch count q'
  | send {c c' : Connection} {batch : List Message} {count : Nat}
    (h : c.sendBatch batch = (.error (.capacityExceeded count), c')) :
    Overflows c.outbound batch count c'.outbound

theorem Overflows.extend_eq {q q' : Mailbox Message} {count : Nat}
    (h : Overflows q batch count q') : q.extend batch = (.error ⟨count⟩, q') := by
  rcases h with ⟨hop, hstep⟩ | hsend
  · rw [Mailbox.step_of_batch hop, Prod.mk.injEq, Mailbox.Answer.delivered.injEq] at hstep
    exact Prod.ext hstep.1 hstep.2
  · obtain ⟨overflow, outbound, hqueue, hcount, rfl⟩ := exists_of_sendBatch_eq_error hsend
    cases hcount
    exact hqueue

/-- A message or a batch that is answered with an overflow leaves the mailbox as it was exactly if it
was full before; otherwise all of it has been stored behind what was pending. -/
theorem overflow_unchanged_iff {q q' : Mailbox Message} {count : Nat}
    (h : Overflows q batch count q') :
    count = q'.size ∧ (q'.pending = q.pending ↔ q.limits.nuke ≤ q.size) ∧
      (q.size < q.limits.nuke → q'.pending = q.pending ++ batch) := by
  have hextend := h.extend_eq
  obtain ⟨hcount, hleft⟩ := Mailbox.extend_eq_error_iff.mp hextend
  refine ⟨hcount, Mailbox.pending_eq_iff_of_overflow hextend, fun hroom => ?_⟩
  rcases hleft with ⟨hfull, -⟩ | ⟨-, -, rfl⟩
  · omega
  · rfl

/-- The second of two messages reaches the mark: it is answered with an overflow and stored. -/
theorem stored_at_mark :
    let q : Mailbox Message := ((Mailbox.empty ⟨2, 2⟩).step (.push (.broadcast "a"))).2
    let q' := (q.step (.push (.broadcast "b"))).2
    q.step (.push (.broadcast "b")) = (.delivered (.error ⟨2⟩), q') ∧
      q.pending = [.broadcast "a"] ∧ q'.pending = [.broadcast "a", .broadcast "b"] ∧
      q'.pending ≠ q.pending :=
  ⟨rfl, rfl, rfl, by decide⟩

/-- A batch that reaches the mark of an outbound mailbox, and a message that finds it full. -/
theorem overflow_unchanged_iff_twice :
    let c := new { Settings.default with nuke := 2 }
    let filled := (c.sendBatch [.broadcast "a", .broadcast "b"]).2
    let refused := (filled.send (.broadcast "c")).2
    filled.outbound.pending = [.broadcast "a", .broadcast "b"] ∧
      refused.outbound.pending = [.broadcast "a", .broadcast "b"] := by
  intro c filled refused
  have hroom : c.outbound.size < c.outbound.limits.nuke := by decide
  have hfull : filled.outbound.limits.nuke ≤ filled.outbound.size := by decide
  have hbatch : Overflows c.outbound [.broadcast "a", .broadcast "b"] 2 filled.outbound := .send rfl
  have hmessage : Overflows filled.outbound [.broadcast "c"] 2 refused.outbound := .send rfl
  obtain ⟨-, -, hstored⟩ := overflow_unchanged_iff hbatch
  obtain ⟨-, hunchanged, -⟩ := overflow_unchanged_iff hmessage
  exact ⟨hstored hroom, (hunchanged.mpr hfull).trans (hstored hroom)⟩

end Connection

namespace Session

/-! ## Calls without a network -/

/-- Only callers act, and none of them starts the connection before it has been stopped. -/
def isOffline (stopped : Bool) : List Act → Bool
  | [] => true
  | .start :: acts => stopped && isOffline stopped acts
  | .stop :: acts => isOffline true acts
  | .sendBatch _ :: acts | .recv :: acts => isOffline stopped acts
  | .startHeld :: _ | .serve _ :: _ | .hangUp :: _ | .stall _ :: _ => false

/-- The failure with which a batch was answered, if it was. -/
def refusal? : Act → Answer → Option Error
  | .sendBatch _, .failed e => some e
  | _, _ => none

/-- The failures with which batches were answered, in order. -/
def refusals (acts : List Act) (sights : List Sight) : List Error :=
  (acts.zip sights).filterMap fun p => refusal? p.1 p.2.answer

/-- What a connection keeps that nobody has started. -/
structure Offline (stopped : Bool) (c : Connection) : Prop where
  not_idle : stopped = true → c.lifecycle ≠ .idle
  dialler : c.dialler = .absent
  writer : c.writer = .absent
  reader : c.reader = .absent

/-- A step gives to the fatal handler the failure that a batch is answered with, which counts what is
pending then, and nothing else. -/
structure Alarms (c : Connection) (a : Act) : Prop where
  fatal : (idleStep c a).2.fatal = c.fatal ++ (refusal? a (idleStep c a).1.answer).toList
  seen : (idleStep c a).1.fatal = (refusal? a (idleStep c a).1.answer).toList
  counts : ∀ e ∈ refusal? a (idleStep c a).1.answer,
    e = .capacityExceeded (idleStep c a).1.pending

variable {c : Connection} {stopped : Bool} {a : Act} {acts : List Act}

theorem idleStep_of_act {answer : Answer} {c' : Connection} (h : act c a = (answer, c')) :
    idleStep c a = (sight c c' answer, c') := by
  rw [idleStep, h]

theorem alarms_of_act {answer : Answer} {c' : Connection} (h : act c a = (answer, c'))
    (hfatal : c'.fatal = c.fatal ++ (refusal? a answer).toList)
    (hcounts : ∀ e ∈ refusal? a answer, e = .capacityExceeded c'.outbound.size) : Alarms c a := by
  have hseen : (sight c c' answer).fatal = (refusal? a answer).toList := by
    rw [sight, hfatal, List.drop_left]
  have hstep := idleStep_of_act h
  constructor
  · rw [hstep]
    exact hfatal
  · rw [hstep]
    exact hseen
  · rw [hstep]
    exact hcounts

theorem alarms_of_fatal_eq {answer : Answer} {c' : Connection} (h : act c a = (answer, c'))
    (hfatal : c'.fatal = c.fatal) (hrefusal : refusal? a answer = none) : Alarms c a := by
  apply alarms_of_act h
  · rw [hrefusal, hfatal]
    exact (List.append_nil _).symm
  · rw [hrefusal]
    rintro _ ⟨⟩

theorem alarms_sendBatch (c : Connection) (batch : List Message) : Alarms c (.sendBatch batch) := by
  have hact : act c (.sendBatch batch) =
      (.ofSend (c.sendBatch batch).1, (c.sendBatch batch).2) := rfl
  rcases hqueue : c.outbound.extend batch with ⟨overflow | pending, outbound⟩
  · rw [Connection.sendBatch_of_error hqueue] at hact
    apply alarms_of_act hact rfl
    rintro _ ⟨⟩
    exact congrArg Error.capacityExceeded (Mailbox.extend_eq_error_iff.mp hqueue).1
  · rw [Connection.sendBatch_of_ok hqueue] at hact
    exact alarms_of_fatal_eq hact rfl rfl

theorem offline_new (settings : Settings) : Offline false (.new settings) :=
  ⟨nofun, rfl, rfl, rfl⟩

theorem Offline.sendBatch (h : Offline stopped c) (batch : List Message) :
    Offline stopped (c.sendBatch batch).2 := by
  rcases hqueue : c.outbound.extend batch with ⟨overflow | pending, outbound⟩
  · rw [Connection.sendBatch_of_error hqueue]
    exact ⟨h.not_idle, h.dialler, h.writer, h.reader⟩
  · rw [Connection.sendBatch_of_ok hqueue]
    exact ⟨h.not_idle, h.dialler, h.writer, h.reader⟩

theorem fatal_stop (c : Connection) : c.stop.fatal = c.fatal := by
  unfold Connection.stop
  split <;> rfl

theorem Offline.stop (h : Offline stopped c) : Offline true c.stop := by
  unfold Connection.stop
  split <;> exact ⟨nofun, h.dialler, h.writer, h.reader⟩

/-- Whether the connection has been stopped once an act is done. -/
def stoppedBy (stopped : Bool) : Act → Bool
  | .stop => true
  | _ => stopped

/-- One call of an unstarted connection: it raises an alarm exactly if it is refused, and no worker
appears. -/
theorem Offline.step (h : Offline stopped c) (hacts : isOffline stopped (a :: acts) = true) :
    Alarms c a ∧ Offline (stoppedBy stopped a) (idleStep c a).2 ∧
      isOffline (stoppedBy stopped a) acts = true := by
  rcases a with _ | _ | batch | _ | _ | bytes | _ | letters
  · -- a start comes after a stop and is refused
    rw [isOffline, Bool.and_eq_true] at hacts
    have hact : act c .start = (.failed .alreadyStarted, c) := by
      rw [act, Connection.start_of_not_idle (h.not_idle hacts.1)]
      rfl
    refine ⟨alarms_of_fatal_eq hact rfl rfl, ?_, hacts.2⟩
    rw [idleStep_of_act hact]
    exact h
  · cases hacts
  · exact ⟨alarms_sendBatch c batch, h.sendBatch batch, hacts⟩
  · exact ⟨alarms_of_fatal_eq rfl rfl rfl, ⟨h.not_idle, h.dialler, h.writer, h.reader⟩, hacts⟩
  · exact ⟨alarms_of_fatal_eq rfl (fatal_stop c) rfl, h.stop, hacts⟩
  · cases hacts
  · cases hacts
  · cases hacts

/-- What a run of calls of an unstarted connection gives to the fatal handler. -/
structure Alarmed (before : Connection) (acts : List Act) (sights : List Sight)
    (after : Connection) : Prop where
  answered : sights.length = acts.length
  /-- Each refused batch, once and in order, and nothing else. -/
  fatal : after.fatal = before.fatal ++ refusals acts sights
  seen : ∀ p ∈ acts.zip sights, p.2.fatal = (refusal? p.1 p.2.answer).toList
  counts : ∀ p ∈ acts.zip sights, ∀ e ∈ refusal? p.1 p.2.answer, e = .capacityExceeded p.2.pending
  absent : after.dialler = .absent ∧ after.writer = .absent ∧ after.reader = .absent

theorem Offline.run (h : Offline stopped c) (hacts : isOffline stopped acts = true) :
    Alarmed c acts (run idleStep c acts).1 (run idleStep c acts).2 := by
  induction acts generalizing c stopped with
  | nil =>
    have hnone : ([] : List Act).zip (run idleStep c []).1 = [] := rfl
    refine ⟨rfl, (List.append_nil _).symm, ?_, ?_, h.dialler, h.writer, h.reader⟩
    · rw [hnone]
      exact List.forall_mem_nil _
    · rw [hnone]
      exact List.forall_mem_nil _
  | cons a acts ih =>
    obtain ⟨halarms, hoffline, hrest⟩ := h.step hacts
    have hrun := ih hoffline hrest
    have hcons : Session.run idleStep c (a :: acts) =
        ((idleStep c a).1 :: (Session.run idleStep (idleStep c a).2 acts).1,
          (Session.run idleStep (idleStep c a).2 acts).2) := rfl
    rw [hcons]
    refine ⟨congrArg (· + 1) hrun.answered, ?_, ?_, ?_, hrun.absent⟩
    · rw [hrun.fatal, halarms.fatal, List.append_assoc, refusals, refusals, List.zip_cons_cons,
        List.filterMap_cons]
      rcases refusal? a (idleStep c a).1.answer with _ | e
      · rfl
      · rfl
    · intro p hp
      rcases List.mem_cons.mp hp with rfl | hp
      · exact halarms.seen
      · exact hrun.seen p hp
    · intro p hp
      rcases List.mem_cons.mp hp with rfl | hp
      · exact halarms.counts
      · exact hrun.counts p hp

/-- What a mailbox holds and refuses, and what a connection that nobody has started gives to the
fatal handler: each refused batch, once and in order, and nothing else. -/
theorem pressure_and_alarm {α : Type} {limits : Watermarks} (hnuke : 0 < limits.nuke) {most : Nat}
    (hmost : 1 ≤ most) :
    let queued (ops : List (Mailbox.Op α)) : Mailbox α := ((Mailbox.empty limits).run ops).2
    (∀ ops, Mailbox.BatchesWithin most ops →
      (queued ops).size ≤ limits.nuke - 1 + most + Mailbox.ahead ops) ∧
    (∀ ops op batch, op.batch? = some batch →
      let after := queued (ops ++ [op])
      (queued ops).step op = (.delivered
        (if (queued ops).size < limits.nuke ∧ after.size < limits.nuke then .ok after.size
          else .error ⟨after.size⟩), after)) ∧
    (∀ ops more op batch, op.batch? = some batch → limits.nuke ≤ (queued ops).size →
      .drain ∉ more →
      let full := queued (ops ++ more)
      full.step op = (.delivered (.error ⟨full.size⟩), full)) ∧
    (∀ ops op batch, op.batch? = some batch → (queued (ops ++ [.drain, op])).pending = batch) ∧
    ∀ settings acts, isOffline false acts = true →
      Alarmed (.new settings) acts (run idleStep (.new settings) acts).1
        (run idleStep (.new settings) acts).2 := by
  intro queued
  have hlimits : ∀ ops, (queued ops).limits = limits := Mailbox.limits_run (.empty limits)
  refine ⟨?_, ?_, ?_, ?_, ?_⟩
  · intro ops hops
    exact Mailbox.size_run_le (q := .empty limits) (Nat.zero_le _) hmost hops
  · intro ops op batch hop after
    have hafter : after = ((queued ops).extend batch).2 := by
      show queued (ops ++ [op]) = _
      rw [show queued (ops ++ [op]) = ((queued ops).step op).2 from Mailbox.run_concat ..,
        Mailbox.step_of_batch hop]
    rw [Mailbox.step_of_batch hop, Mailbox.answer_extend, ← hafter, hlimits]
  · intro ops more op batch hop hfull hmore full
    have happend : full = ((queued ops).run more).2 := Mailbox.run_append ..
    rw [← hlimits ops] at hfull
    rw [happend]
    exact Mailbox.refused_run hfull hmore hop
  · intro ops op batch hop
    have happend : queued (ops ++ [.drain, op]) = ((queued ops).run [.drain, op]).2 :=
      Mailbox.run_append ..
    rw [← hlimits ops] at hnuke
    rw [happend]
    exact Mailbox.stored_after_drain hnuke hop
  · intro settings acts hacts
    exact (offline_new settings).run hacts

/-- A batch that overruns the mark, a message that is refused and one that is put ahead of them fill
the mailbox as far as it goes. Two batches for a connection that is stopped meanwhile are refused. -/
theorem pressure_and_alarm_overrun :
    let ops : List (Mailbox.Op Nat) := [.push 0, .extend [1, 2], .push 3, .pushFront 4]
    let q := ((Mailbox.empty ⟨1, 2⟩).run ops).2
    let acts : List Act := [.sendBatch [.broadcast "a", .broadcast "b"], .stop, .start,
      .sendBatch [.broadcast "c"], .recv]
    let settings := { Settings.default with nuke := 2 }
    (0 < (⟨1, 2⟩ : Watermarks).nuke ∧ 1 ≤ 2 ∧ Mailbox.BatchesWithin 2 ops) ∧
      q.size = 4 ∧ q.size ≤ 2 - 1 + 2 + 1 ∧
      ((Mailbox.empty ⟨1, 2⟩).run (ops ++ [.push 5])).2.size = 4 ∧
      ((Mailbox.empty ⟨1, 2⟩).run (ops ++ [.drain, .push 5])).2.pending = [5] ∧
      (run idleStep (.new settings) acts).2.fatal = [.capacityExceeded 2, .capacityExceeded 2] := by
  intro ops q acts settings
  have hnuke : 0 < (⟨1, 2⟩ : Watermarks).nuke := by decide
  have hmost : 1 ≤ 2 := by decide
  have hops : Mailbox.BatchesWithin 2 ops := by
    intro batch hbatch
    simp only [ops, List.mem_cons, reduceCtorEq, Mailbox.Op.extend.injEq, List.not_mem_nil,
      or_false, false_or] at hbatch
    rw [hbatch]
    decide
  obtain ⟨hsize, -, hrefused, hstored, halarmed⟩ := pressure_and_alarm (α := Nat) hnuke hmost
  have hfull : (⟨1, 2⟩ : Watermarks).nuke ≤ q.size := by decide
  have hpush := hrefused ops [] (.push 5) [5] rfl hfull (List.not_mem_nil)
  refine ⟨⟨hnuke, hmost, hops⟩, rfl, hsize ops hops, ?_, hstored ops (.push 5) [5] rfl, ?_⟩
  · rw [Mailbox.run_concat]
    exact congrArg (·.2.size) hpush
  · exact (halarmed settings acts rfl).fatal

end Session

end RaceSteward.Link
