import RaceSteward.Proofs.Link.Lifetime
import RaceSteward.Proofs.Link.Receiver
import RaceSteward.Proofs.Link.Workers

/-!
# What callers take of the inbound mailbox

In every run, however it ends, callers have taken exactly the messages that had been pushed when
they last took, in order, and the others are still pending (`Connection.delivered_of_run`). A reader
that has ended pushes nothing more (`Connection.Silent.run`), and while a connection that has been
started is not asked to stop it closes only after its reader has ended (`Connection.closes_of_run`).
-/

namespace RaceSteward.Link.Connection

variable {settings : Settings} {log : Log} {c d : Connection} {es : List Event}

/-! ## Taking -/

theorem Log.follow_eq_accumulate (log : Log) (c : Connection) (es : List Event) :
    log.follow c es = accumulate Log.extend log c es := by
  induction es generalizing log c with
  | nil => rfl
  | cons e es ih =>
    rw [Log.follow, accumulate]
    cases c.step? e with
    | none => rfl
    | some d => exact ih (log.extend c e d) d

theorem history_append (hrun : (new settings).run? es = some c) (later : List Event) :
    history settings (es ++ later) = (history settings es).follow c later := by
  simp only [history, Log.follow_eq_accumulate]
  exact accumulate_append hrun later

/-- What was pushed has been taken or is pending, and all of it was taken that was there when
callers last took. -/
structure Delivered (log : Log) (c : Connection) : Prop where
  messages : log.received ++ c.inbound.pending = log.messages
  count : log.received.length = log.drains.getLastD 0

theorem delivered_new (settings : Settings) : Delivered .empty (new settings) := ⟨rfl, rfl⟩

theorem Delivered.read {more : List Message} (h : Delivered log c)
    (hpending : d.inbound.pending = c.inbound.pending ++ more) : Delivered (log.read c d) d := by
  have hmore : (c.inbound.pending ++ more).drop c.inbound.size = more := List.drop_left
  refine ⟨?_, h.count⟩
  have hmessages := h.messages
  rw [Log.messages] at hmessages ⊢
  rw [Log.read, hpending, hmore, List.map_append, ← hmessages, List.map_map]
  simp [Function.comp_def]

theorem Delivered.fail (h : Delivered log c) (arrived : Bytes) (e : Error) :
    Delivered (log.read c ({ c with arrived := arrived }.failReading e))
      ({ c with arrived := arrived }.failReading e) := by
  rw [Log.read_fail, failReading_eq]
  exact { h with }

theorem Mailbox.exists_pending_push {α : Type} {q q' : Mailbox α} {a : α}
    {result : Except Overflow Nat} (h : q.push a = (result, q')) :
    ∃ more, q'.pending = q.pending ++ more := by
  have hpending := q.pending_extend [a]
  rw [← Mailbox.push, h] at hpending
  by_cases hfull : q.isFull = true
  · exact ⟨[], by simpa [hfull] using hpending⟩
  · exact ⟨[a], by simpa [hfull] using hpending⟩

theorem Delivered.step {e : Event} (h : Delivered log c) (hstep : Step c e d) :
    Delivered (log.extend c e d) d := by
  cases hstep with
  | recv =>
    constructor
    · exact (List.append_nil _).trans h.messages
    · have hlength := congrArg List.length h.messages
      rw [Log.messages, List.length_map] at hlength
      simpa [Log.extend, recv, Mailbox.drain] using hlength
  | receive hreader hfront hdecode hpush =>
    obtain ⟨more, hmore⟩ := Mailbox.exists_pending_push hpush
    exact h.read hmore
  | receiveOverflow hreader hfront hdecode hpush =>
    obtain ⟨more, hmore⟩ := Mailbox.exists_pending_push hpush
    exact h.read (by rw [inbound_failReading]; exact hmore)
  | receiveMalformed => exact h.fail _ _
  | receiveTooLarge | receiveEnd => exact h.fail c.arrived _
  | readFails => exact { h.fail c.arrived _ with }
  | _ => exact { h with }

theorem delivered_of_run (hrun : (new settings).run? es = some c) :
    Delivered (history settings es) c := by
  rw [history, Log.follow_eq_accumulate]
  exact accumulate_keeps (fun h hstep => h.step hstep) (delivered_new settings) hrun

theorem received_follow (hes : .recv ∉ es) (log : Log) (c : Connection) :
    (log.follow c es).received = log.received ∧ (log.follow c es).drains = log.drains := by
  induction es generalizing log c with
  | nil => exact ⟨rfl, rfl⟩
  | cons e es ih =>
    rw [List.mem_cons, not_or] at hes
    rw [Log.follow]
    cases c.step? e with
    | none => exact ⟨rfl, rfl⟩
    | some d =>
      have hextend : (log.extend c e d).received = log.received ∧
          (log.extend c e d).drains = log.drains := by
        cases e with
        | recv => exact absurd rfl hes.1
        | _ => exact ⟨rfl, rfl⟩
      have hrest := ih hes.2 (log.extend c e d) d
      rw [hextend.1, hextend.2] at hrest
      exact hrest

/-! ## A reader that has ended -/

/-- The reader of a connection that has been started has ended. -/
structure Silent (c : Connection) : Prop where
  started : c.lifecycle ≠ .idle
  reader : c.reader = .done

theorem Silent.step {e : Event} (h : Silent c) (hstep : Step c e d) (he : e ≠ .recv) :
    Silent d ∧ d.inbound = c.inbound := by
  have hreader := h.reader
  cases hstep with
  | start hidle | stopIdle hidle => exact absurd hidle h.started
  | recv => exact absurd rfl he
  | stopRunning | stopAgain => exact ⟨⟨nofun, hreader⟩, rfl⟩
  | readerBegins hopen | readerLeaves hopen | readerStops hopen | receive hopen
  | receiveOverflow hopen | receiveMalformed hopen | receiveTooLarge hopen | receiveEnd hopen
  | readFails hopen =>
    rw [hreader] at hopen
    cases hopen
  | _ => exact ⟨⟨h.started, hreader⟩, rfl⟩

theorem Silent.run (h : Silent c) (hes : .recv ∉ es) (hrun : c.run? es = some d) :
    Silent d ∧ d.inbound = c.inbound := by
  induction es generalizing c with
  | nil =>
    cases hrun
    exact ⟨h, rfl⟩
  | cons e es ih =>
    rw [List.mem_cons, not_or] at hes
    obtain ⟨next, hnext, hrest⟩ := Option.bind_eq_some_iff.mp hrun
    obtain ⟨hsilent, hinbound⟩ := h.step (step_of_step? hnext) (Ne.symm hes.1)
    rw [← hinbound]
    exact ih hsilent hes.2 hrest

/-! ## Closing -/

/-- A connection that runs and is closed has no reader. -/
structure Closes (c : Connection) : Prop where
  idle : c.lifecycle = .idle → c.state ≠ .closed
  running : c.lifecycle = .running → c.state = .closed → c.reader = .done

theorem State.closed_of_advance {s next : State} (hnext : next ≠ .closed)
    (h : s.advance next = .closed) : s = .closed := by
  unfold State.advance at h
  split at h
  · exact absurd h hnext
  · exact h

theorem Closes.keep (h : Closes c) (hlifecycle : d.lifecycle = c.lifecycle)
    (hstate : d.state = .closed → c.state = .closed)
    (hreader : c.reader = .done → d.reader = .done) : Closes d where
  idle hidle hclosed := h.idle (hlifecycle.symm.trans hidle) (hstate hclosed)
  running hrunning hclosed :=
    hreader (h.running (hlifecycle.symm.trans hrunning) (hstate hclosed))

theorem Closes.step {e : Event} (h : Closes c) (hs : Staffed c) (hstep : Step c e d) :
    Closes d := by
  cases hstep with
  | start hidle => exact ⟨nofun, fun _ hclosed => absurd hclosed (h.idle hidle)⟩
  | stopIdle | stopRunning | stopAgain => exact ⟨nofun, nofun⟩
  | dial | dialSucceeds | dialFails | writeFails =>
    exact h.keep rfl (State.closed_of_advance nofun) id
  | readerBegins hreader =>
    refine h.keep rfl id fun hdone => ?_
    rw [hreader] at hdone
    cases hdone
  | readerLeaves | readerStops => exact h.keep rfl id fun _ => rfl
  | receiveOverflow | receiveMalformed | receiveTooLarge | receiveEnd | readFails =>
    rw [failReading_eq]
    exact h.keep rfl (State.closed_of_advance nofun) fun _ => rfl
  | retire hdialler hwriter hreader =>
    have hstarted := hs.not_idle_of_reader (by rw [hreader]; decide)
    exact ⟨fun hidle => absurd hidle hstarted, fun _ _ => hreader⟩
  | _ => exact h.keep rfl id id

theorem closes_of_run (hrun : (new settings).run? es = some c) : Closes c := by
  have hboth := run_keeps (P := fun c => Staffed c ∧ Closes c)
    (fun h hstep => ⟨h.1.step hstep, h.2.step h.1 hstep⟩) ⟨staffed_new settings, nofun, nofun⟩ hrun
  exact hboth.2

theorem lifecycle_of_run (hstart : .start ∉ es) (hstop : .stop ∉ es) (hrun : c.run? es = some d) :
    d.lifecycle = c.lifecycle := by
  induction es generalizing c with
  | nil =>
    cases hrun
    rfl
  | cons e es ih =>
    rw [List.mem_cons, not_or] at hstart hstop
    obtain ⟨next, hnext, hrest⟩ := Option.bind_eq_some_iff.mp hrun
    have hworks := Lifetime.works_of_step (step_of_step? hnext) (Ne.symm hstart.1) (Ne.symm hstop.1)
    exact (ih hstart.2 hstop.2 hrest).trans hworks.lifecycle

end RaceSteward.Link.Connection
