import RaceSteward.Link.Connection

/-!
# What a connection can do

`Connection.Step` lists every move of a connection: when it can happen, and what it leaves. By
`Connection.step_of_step?` there are no others, so an invariant is one case for each move and never
unfolds a worker.
-/

namespace RaceSteward.Link.Connection

/-! ## What callers and the reader leave -/

theorem start_of_not_idle {c : Connection} (h : c.lifecycle ≠ .idle) :
    c.start = (.error .alreadyStarted, c) := by
  unfold Connection.start
  split
  · exact absurd ‹_› h
  · rfl

theorem sendBatch_of_ok {c : Connection} {batch : List Message} {pending : Nat}
    {outbound : Mailbox Message} (h : c.outbound.extend batch = (.ok pending, outbound)) :
    c.sendBatch batch = (.ok pending, { c with outbound := outbound }) := by
  rw [sendBatch, h]

theorem sendBatch_of_error {c : Connection} {batch : List Message} {overflow : Overflow}
    {outbound : Mailbox Message} (h : c.outbound.extend batch = (.error overflow, outbound)) :
    c.sendBatch batch = (.error (.capacityExceeded overflow.pending),
      { c with outbound := outbound }.report (.capacityExceeded overflow.pending)) := by
  rw [sendBatch, h]

theorem failReading_eq (c : Connection) (e : Error) :
    c.failReading e = { c.beginStop with
      reader := .done, fatal := c.fatal ++ if e.isFatal then [e] else [] } := by
  unfold failReading fail
  split
  · rfl
  · rw [List.append_nil]
    rfl

@[simp] theorem inbound_failReading (c : Connection) (e : Error) :
    (c.failReading e).inbound = c.inbound := by
  rw [failReading_eq]
  rfl

@[simp] theorem fatal_failReading (c : Connection) (e : Error) :
    (c.failReading e).fatal = c.fatal ++ if e.isFatal then [e] else [] := by
  rw [failReading_eq]

/-! ## The moves -/

/-- One move: the event, what must hold before it, and the connection after it. -/
inductive Step (c : Connection) : Event → Connection → Prop where
  -- callers
  | start (hidle : c.lifecycle = .idle) :
    Step c .start { c with
      lifecycle := .running, dialler := .spawned, writer := .waiting, reader := .waiting }
  | startRefused (hidle : c.lifecycle ≠ .idle) : Step c .start c
  | sendBatch {batch : List Message} {pending : Nat} {outbound : Mailbox Message}
    (hqueue : c.outbound.extend batch = (.ok pending, outbound)) :
    Step c (.sendBatch batch) { c with outbound := outbound }
  | sendOverflow {batch : List Message} {overflow : Overflow} {outbound : Mailbox Message}
    (hqueue : c.outbound.extend batch = (.error overflow, outbound)) :
    Step c (.sendBatch batch)
      ({ c with outbound := outbound }.report (.capacityExceeded overflow.pending))
  | recv : Step c .recv { c with inbound := c.inbound.drain.2 }
  | stopIdle (hidle : c.lifecycle = .idle) :
    Step c .stop ({ c.beginStop with lifecycle := .stopped }.advance .closed)
  | stopRunning (hrunning : c.lifecycle = .running) :
    Step c .stop { c.beginStop with lifecycle := .stopped, awaited := true }
  | stopAgain (hstopped : c.lifecycle = .stopped) :
    Step c .stop { c.beginStop with lifecycle := .stopped }
  | stopReturns (hawaited : c.awaited = true) (hretired : c.retired = true) :
    Step c .stopReturns { c with awaited := false }
  | stopAbandoned (hawaited : c.awaited = true) : Step c .stopAbandoned { c with awaited := false }
  -- the worker that dials
  | dial (hdialler : c.dialler = .spawned) :
    Step c .dial { c.advance .connecting with dialler := .dialling }
  | dialAbandoned (hdialler : c.dialler = .dialling) (hstopping : c.stopping = true) :
    Step c .dialAbandoned c.endDialler
  | dialSucceeds (hdialler : c.dialler = .dialling) :
    Step c .dialSucceeds { c.advance .connected with dialler := .greeting }
  | dialFails {cause : IoFailure} (hdialler : c.dialler = .dialling) :
    Step c (.dialFails cause)
      (c.endDialler.beginStop.report (.connectFailed c.settings.addr cause))
  | greet {pending : Nat} {outbound : Mailbox Message} (hdialler : c.dialler = .greeting)
    (hqueue : c.outbound.pushFront .whoIsOnline = (.ok pending, outbound)) :
    Step c .greet { c with outbound := outbound, dialler := .handingOver }
  | greetOverflow {overflow : Overflow} {outbound : Mailbox Message}
    (hdialler : c.dialler = .greeting)
    (hqueue : c.outbound.pushFront .whoIsOnline = (.error overflow, outbound)) :
    Step c .greet
      ({ c with outbound := outbound }.report (.capacityExceeded overflow.pending)).endDialler
  | handOver (hdialler : c.dialler = .handingOver) (hwriter : c.writer ≠ .done)
    (hreader : c.reader ≠ .done) :
    Step c .handOver { c with dialler := .done, writerHalf := .offered, readerHalf := .offered }
  | handOverWriter (hdialler : c.dialler = .handingOver) (hwriter : c.writer ≠ .done)
    (hreader : c.reader = .done) :
    Step c .handOver { c with dialler := .done, writerHalf := .offered, readerHalf := .withdrawn }
  | handOverNone (hdialler : c.dialler = .handingOver) (hwriter : c.writer = .done) :
    Step c .handOver c.endDialler
  -- the worker that writes
  | writerBegins (hwriter : c.writer = .waiting) (hhalf : c.writerHalf = .offered) :
    Step c .writerBegins { c with writer := .resting }
  | writerLeaves (hwriter : c.writer = .waiting)
    (hwhy : c.stopping = true ∨ c.writerHalf = .withdrawn) :
    Step c .writerLeaves { c with writer := .done }
  | tick (hwriter : c.writer = .resting) (hstopping : c.stopping = false) :
    Step c .tick { c with writer := .collecting }
  | tickStops (hwriter : c.writer = .resting) (hstopping : c.stopping = true) :
    Step c .tick { c with writer := .done }
  | collect (hwriter : c.writer = .collecting) :
    Step c .collect { c with outbound := c.outbound.drain.2, writer := .begin c.outbound.pending }
  | accept {n : Nat} {frame : Bytes} {batch : List Message}
    (hwriter : c.writer = .writing frame batch) : Step c (.accept n) (c.accept n frame batch)
  | writeFails {cause : IoFailure} {frame : Bytes} {batch : List Message}
    (hwriter : c.writer = .writing frame batch) :
    Step c (.writeFails cause) ({ c with writer := .done }.beginStop.report (.sendFailed cause))
  -- the worker that reads
  | readerBegins (hreader : c.reader = .waiting) (hhalf : c.readerHalf = .offered) :
    Step c .readerBegins { c with reader := .reading }
  | readerLeaves (hreader : c.reader = .waiting)
    (hwhy : c.stopping = true ∨ c.readerHalf = .withdrawn) :
    Step c .readerLeaves { c with reader := .done }
  | readerStops (hreader : c.reader = .reading) (hstopping : c.stopping = true) :
    Step c .readerLeaves { c with reader := .done }
  | receive {payload rest : Bytes} {m : Message} {pending : Nat} {inbound : Mailbox Message}
    (hreader : c.reader = .reading)
    (hfront : Frame.next c.settings.maxFrame c.arrived = .whole payload rest)
    (hdecode : Message.decode payload = .ok m) (hpush : c.inbound.push m = (.ok pending, inbound)) :
    Step c .receive { c with arrived := rest, inbound := inbound }
  | receiveOverflow {payload rest : Bytes} {m : Message} {overflow : Overflow}
    {inbound : Mailbox Message} (hreader : c.reader = .reading)
    (hfront : Frame.next c.settings.maxFrame c.arrived = .whole payload rest)
    (hdecode : Message.decode payload = .ok m)
    (hpush : c.inbound.push m = (.error overflow, inbound)) :
    Step c .receive
      ({ c with arrived := rest, inbound := inbound }.failReading
        (.capacityExceeded overflow.pending))
  | receiveMalformed {payload rest : Bytes} {e : DecodeError} (hreader : c.reader = .reading)
    (hfront : Frame.next c.settings.maxFrame c.arrived = .whole payload rest)
    (hdecode : Message.decode payload = .error e) :
    Step c .receive ({ c with arrived := rest }.failReading (.malformed e))
  | receiveTooLarge {length : UInt32} {unread : Bytes} (hreader : c.reader = .reading)
    (hfront : Frame.next c.settings.maxFrame c.arrived = .tooLarge length unread) :
    Step c .receive (c.failReading (.frameTooLarge length c.settings.maxFrame))
  | receiveEnd (hreader : c.reader = .reading)
    (hfront : Frame.next c.settings.maxFrame c.arrived = .incomplete) (hhungUp : c.hungUp = true) :
    Step c .receive (c.failReading (.receiveFailed .unexpectedEof))
  | readFails {cause : IoFailure} (hreader : c.reader = .reading) :
    Step c (.readFails cause) (c.failReading (.receiveFailed cause))
  -- the server
  | arrive {bytes : Bytes} (hhungUp : c.hungUp = false) :
    Step c (.arrive bytes) { c with arrived := c.arrived ++ bytes }
  | hangUp : Step c .hangUp { c with hungUp := true }
  | retire (hdialler : c.dialler = .done) (hwriter : c.writer = .done) (hreader : c.reader = .done)
    (hretired : c.retired = false) : Step c .retire { c.advance .closed with retired := true }

/-! ## There are no other moves -/

variable {c d : Connection}

theorem step_start (c : Connection) : Step c .start c.start.2 := by
  by_cases hlifecycle : c.lifecycle = .idle
  · rw [Connection.start, hlifecycle]
    exact .start hlifecycle
  · rw [start_of_not_idle hlifecycle]
    exact .startRefused hlifecycle

theorem step_sendBatch (c : Connection) (batch : List Message) :
    Step c (.sendBatch batch) (c.sendBatch batch).2 := by
  cases hqueue : c.outbound.extend batch with
  | mk result outbound =>
    cases result with
    | ok pending =>
      rw [sendBatch_of_ok hqueue]
      exact .sendBatch hqueue
    | error overflow =>
      rw [sendBatch_of_error hqueue]
      exact .sendOverflow hqueue

theorem step_stop (c : Connection) : Step c .stop c.stop := by
  cases hlifecycle : c.lifecycle with
  | idle =>
    rw [Connection.stop, hlifecycle]
    exact .stopIdle hlifecycle
  | running =>
    rw [Connection.stop, hlifecycle]
    exact .stopRunning hlifecycle
  | stopped =>
    rw [Connection.stop, hlifecycle]
    exact .stopAgain hlifecycle

theorem step_greet (h : c.dialler = .greeting) : Step c .greet c.greet := by
  cases hqueue : c.outbound.pushFront .whoIsOnline with
  | mk result outbound =>
    cases result with
    | ok pending =>
      simp only [Connection.greet, hqueue]
      exact .greet h hqueue
    | error overflow =>
      simp only [Connection.greet, hqueue]
      exact .greetOverflow h hqueue

theorem step_handOver (h : c.dialler = .handingOver) : Step c .handOver c.handOver := by
  unfold Connection.handOver
  split
  · exact .handOverNone h ‹_›
  · split
    · exact .handOverWriter h ‹_› ‹_›
    · exact .handOver h ‹_› ‹_›

theorem step_tick (h : c.writer = .resting) : Step c .tick c.tick := by
  unfold Connection.tick
  split
  · exact .tickStops h ‹_›
  · exact .tick h (Bool.eq_false_iff.mpr ‹_›)

theorem step_receive (hreader : c.reader = .reading) (h : c.receive? = some d) :
    Step c .receive d := by
  unfold receive? at h
  split at h
  · rename_i payload rest hfront
    split at h
    · rename_i m hdecode
      dsimp only at h
      split at h
      · rename_i pending inbound hpush
        cases h
        exact .receive hreader hfront hdecode hpush
      · rename_i overflow inbound hpush
        cases h
        exact .receiveOverflow hreader hfront hdecode hpush
    · rename_i e hdecode
      cases h
      exact .receiveMalformed hreader hfront hdecode
  · rename_i hfront
    cases h
    exact .receiveTooLarge hreader hfront
  · rename_i hfront
    split at h
    · rename_i hhungUp
      cases h
      exact .receiveEnd hreader hfront hhungUp
    · cases h

theorem step_of_step? {e : Event} (h : c.step? e = some d) : Step c e d := by
  cases e with
  | start => cases h; exact step_start c
  | sendBatch batch => cases h; exact step_sendBatch c batch
  | recv => cases h; exact .recv
  | stop => cases h; exact step_stop c
  | stopReturns =>
    simp only [step?, Bool.and_eq_true, Option.ite_none_right_eq_some, Option.some.injEq] at h
    obtain ⟨⟨hawaited, hretired⟩, rfl⟩ := h
    exact .stopReturns hawaited hretired
  | stopAbandoned =>
    simp only [step?, Option.ite_none_right_eq_some, Option.some.injEq] at h
    obtain ⟨hawaited, rfl⟩ := h
    exact .stopAbandoned hawaited
  | dial =>
    simp only [step?, Option.ite_none_right_eq_some, Option.some.injEq] at h
    obtain ⟨hdialler, rfl⟩ := h
    exact .dial hdialler
  | dialAbandoned =>
    simp only [step?, Bool.and_eq_true, decide_eq_true_eq, Option.ite_none_right_eq_some,
      Option.some.injEq] at h
    obtain ⟨⟨hdialler, hstopping⟩, rfl⟩ := h
    exact .dialAbandoned hdialler hstopping
  | dialSucceeds =>
    simp only [step?, Option.ite_none_right_eq_some, Option.some.injEq] at h
    obtain ⟨hdialler, rfl⟩ := h
    exact .dialSucceeds hdialler
  | dialFails cause =>
    simp only [step?, Option.ite_none_right_eq_some, Option.some.injEq] at h
    obtain ⟨hdialler, rfl⟩ := h
    exact .dialFails hdialler
  | greet =>
    simp only [step?, Option.ite_none_right_eq_some, Option.some.injEq] at h
    obtain ⟨hdialler, rfl⟩ := h
    exact step_greet hdialler
  | handOver =>
    simp only [step?, Option.ite_none_right_eq_some, Option.some.injEq] at h
    obtain ⟨hdialler, rfl⟩ := h
    exact step_handOver hdialler
  | writerBegins =>
    simp only [step?, Bool.and_eq_true, decide_eq_true_eq, Option.ite_none_right_eq_some,
      Option.some.injEq] at h
    obtain ⟨⟨hwriter, hhalf⟩, rfl⟩ := h
    exact .writerBegins hwriter hhalf
  | writerLeaves =>
    simp only [step?, Bool.and_eq_true, Bool.or_eq_true, decide_eq_true_eq,
      Option.ite_none_right_eq_some, Option.some.injEq] at h
    obtain ⟨⟨hwriter, hwhy⟩, rfl⟩ := h
    exact .writerLeaves hwriter hwhy
  | tick =>
    simp only [step?, Option.ite_none_right_eq_some, Option.some.injEq] at h
    obtain ⟨hwriter, rfl⟩ := h
    exact step_tick hwriter
  | collect =>
    simp only [step?, Option.ite_none_right_eq_some, Option.some.injEq] at h
    obtain ⟨hwriter, rfl⟩ := h
    exact .collect hwriter
  | accept n =>
    cases hwriter : c.writer with
    | writing frame batch =>
      simp only [step?, hwriter, Option.some.injEq] at h
      obtain rfl := h
      exact .accept hwriter
    | _ => simp [step?, hwriter] at h
  | writeFails cause =>
    cases hwriter : c.writer with
    | writing frame batch =>
      simp only [step?, hwriter, Option.some.injEq] at h
      obtain rfl := h
      exact .writeFails hwriter
    | _ => simp [step?, hwriter] at h
  | readerBegins =>
    simp only [step?, Bool.and_eq_true, decide_eq_true_eq, Option.ite_none_right_eq_some,
      Option.some.injEq] at h
    obtain ⟨⟨hreader, hhalf⟩, rfl⟩ := h
    exact .readerBegins hreader hhalf
  | readerLeaves =>
    simp only [step?, Bool.and_eq_true, Bool.or_eq_true, decide_eq_true_eq,
      Option.ite_none_right_eq_some, Option.some.injEq] at h
    obtain ⟨⟨hreader, hwhy⟩ | ⟨hreader, hstopping⟩, rfl⟩ := h
    · exact .readerLeaves hreader hwhy
    · exact .readerStops hreader hstopping
  | receive =>
    simp only [step?, Option.ite_none_right_eq_some] at h
    exact step_receive h.1 h.2
  | readFails cause =>
    simp only [step?, Option.ite_none_right_eq_some, Option.some.injEq] at h
    obtain ⟨hreader, rfl⟩ := h
    exact .readFails hreader
  | arrive bytes =>
    simp only [step?, Option.ite_none_left_eq_some, Option.some.injEq,
      Bool.not_eq_true] at h
    obtain ⟨hhungUp, rfl⟩ := h
    exact .arrive hhungUp
  | hangUp => cases h; exact .hangUp
  | retire =>
    simp only [step?, Bool.and_eq_true, Bool.not_eq_true', decide_eq_true_eq,
      Option.ite_none_right_eq_some, Option.some.injEq] at h
    obtain ⟨⟨⟨⟨hdialler, hwriter⟩, hreader⟩, hretired⟩, rfl⟩ := h
    exact .retire hdialler hwriter hreader hretired

/-! ## Along a run -/

section Along

variable {σ : Type} {es : List Event}

/-- What somebody who notes every event has noted after a run. -/
def accumulate (f : σ → Connection → Event → Connection → σ) (s : σ) (c : Connection) :
    List Event → σ
  | [] => s
  | e :: es =>
    match c.step? e with
    | none => s
    | some d => accumulate f (f s c e d) d es

/-- What each move keeps of the notes and the connection, a run keeps. -/
theorem accumulate_keeps {f : σ → Connection → Event → Connection → σ}
    {P : σ → Connection → Prop}
    (hkeeps : ∀ {s c e d}, P s c → Step c e d → P (f s c e d) d) {s : σ} (h : P s c)
    (hrun : c.run? es = some d) : P (accumulate f s c es) d := by
  induction es generalizing s c with
  | nil =>
    cases hrun
    exact h
  | cons e es ih =>
    obtain ⟨next, hnext, hrest⟩ := Option.bind_eq_some_iff.mp hrun
    rw [accumulate, hnext]
    exact ih (hkeeps h (step_of_step? hnext)) hrest

theorem run_keeps {P : Connection → Prop} (hkeeps : ∀ {c e d}, P c → Step c e d → P d) (h : P c)
    (hrun : c.run? es = some d) : P d :=
  accumulate_keeps (f := fun _ _ _ _ => ()) (P := fun _ => P) (s := ()) (fun hc => hkeeps hc) h
    hrun

theorem accumulate_append {f : σ → Connection → Event → Connection → σ} {s : σ}
    (hrun : c.run? es = some d) (later : List Event) :
    accumulate f s c (es ++ later) = accumulate f (accumulate f s c es) d later := by
  induction es generalizing s c with
  | nil =>
    cases hrun
    rfl
  | cons e es ih =>
    obtain ⟨next, hnext, hrest⟩ := Option.bind_eq_some_iff.mp hrun
    rw [List.cons_append, accumulate, accumulate, hnext]
    exact ih hrest

theorem run?_append (c : Connection) (es later : List Event) :
    c.run? (es ++ later) = (c.run? es).bind (·.run? later) := by
  induction es generalizing c with
  | nil => rfl
  | cons e es ih =>
    simp only [List.cons_append, run?]
    cases c.step? e with
    | none => rfl
    | some d => exact ih d

end Along

end RaceSteward.Link.Connection
