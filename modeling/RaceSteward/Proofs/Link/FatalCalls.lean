import RaceSteward.Proofs.Link.Workers

/-!
# Failures that end the process

Which worker has given which failure to the fatal handler, along a run. A worker does so at most
once, and has ended then; a dialler that has done so has taken the socket with it, so nobody else
does. Once the stop flag is up, only a worker that was engaged with the network when it went up
still can, and one that was may: the flag is looked at before the batch is taken and not again.

* `Connection.Called.step`: each move adds at most one call, of a worker that has made none.
* `Connection.engaged_of_step`: nobody becomes engaged once the stop flag is up.
* `Connection.calls_of_run`: the calls of a run, and those that can still come.
-/

namespace RaceSteward.Link

inductive Worker where
  | dialler
  | writer
  | reader
  deriving DecidableEq, Repr

namespace Connection

/-- Whose move an event is, if it is a worker's. -/
def Event.worker? : Event → Option Worker
  | .dial | .dialAbandoned | .dialSucceeds | .dialFails _ | .greet | .handOver => some .dialler
  | .writerBegins | .writerLeaves | .tick | .collect | .accept _ | .writeFails _ => some .writer
  | .readerBegins | .readerLeaves | .receive | .readFails _ => some .reader
  | _ => none

/-- A failure that a worker gives to the fatal handler. -/
structure FatalCall where
  worker : Worker
  error : Error
  deriving DecidableEq, Repr

/-- The calls of a worker's move come after those before. -/
def noteCalls (calls : List FatalCall) (c : Connection) (e : Event) (d : Connection) :
    List FatalCall :=
  match e.worker? with
  | some worker => calls ++ (d.fatal.drop c.fatal.length).map (⟨worker, ·⟩)
  | none => calls

/-- The calls of the workers along a run. -/
def calls (c : Connection) (es : List Event) : List FatalCall :=
  accumulate noteCalls [] c es

/-- The next move of the worker may fail so that the process ends. -/
def Exposed (c : Connection) : Worker → Prop
  | .dialler => c.dialler = .dialling ∨ c.dialler = .greeting
  | .writer => ∃ frame batch, c.writer = .writing frame batch
  | .reader => c.reader = .reading

/-- The worker is at work on the network, or may yet come to be although the stop flag is up. -/
def Engaged (c : Connection) : Worker → Prop
  | .dialler => c.dialler = .spawned ∨ c.dialler = .dialling ∨ c.dialler = .greeting
  | .writer => c.writer = .collecting ∨ ∃ frame batch, c.writer = .writing frame batch
  | .reader => c.reader = .reading ∨ c.reader = .waiting ∧ c.readerHalf ≠ .withdrawn

/-- The worker has ended: the dialler with the whole socket, the others with their half of it. -/
def Finished (c : Connection) : Worker → Prop
  | .dialler => c.dialler = .done ∧ c.writerHalf = .withdrawn ∧ c.readerHalf = .withdrawn
  | .writer => c.writer = .done ∧ c.writerHalf = .offered
  | .reader => c.reader = .done ∧ c.readerHalf = .offered

variable {c d : Connection} {e : Event} {w : Worker} {calls : List FatalCall}

theorem Exposed.engaged (h : Exposed c w) : Engaged c w := by
  cases w with
  | dialler => exact .inr h
  | writer => exact .inr h
  | reader => exact .inl h

theorem Exposed.not_finished (h : Exposed c w) : ¬ Finished c w := by
  cases w with
  | dialler =>
    rintro ⟨hdone, -, -⟩
    rcases h with hdialler | hdialler
    · cases hdialler.symm.trans hdone
    · cases hdialler.symm.trans hdone
  | writer =>
    rintro ⟨hdone, -⟩
    obtain ⟨frame, batch, hwriter⟩ := h
    cases hwriter.symm.trans hdone
  | reader =>
    rintro ⟨hdone, -⟩
    cases Eq.trans (Eq.symm h) hdone

/-! ## One move -/

theorem noteCalls_of_eq (h : d.fatal = c.fatal) (e : Event) (calls : List FatalCall) :
    noteCalls calls c e d = calls := by
  unfold noteCalls
  cases e.worker? with
  | none => rfl
  | some w =>
    rw [h, List.drop_length]
    exact List.append_nil calls

theorem noteCalls_of_concat {error : Error} (hworker : e.worker? = some w)
    (h : d.fatal = c.fatal ++ [error]) (calls : List FatalCall) :
    noteCalls calls c e d = calls ++ [⟨w, error⟩] := by
  rw [noteCalls, hworker, h, List.drop_left]
  rfl

/-- What a move adds: nothing, or the call of a worker that ends with it. -/
def Adds (calls : List FatalCall) (c : Connection) (e : Event) (d : Connection) : Prop :=
  noteCalls calls c e d = calls ∧ c.fatal <+: d.fatal ∨
    ∃ w error, noteCalls calls c e d = calls ++ [⟨w, error⟩] ∧ d.fatal = c.fatal ++ [error] ∧
      Exposed c w ∧ Finished d w

theorem adds_of_eq (h : d.fatal = c.fatal) (e : Event) (calls : List FatalCall) :
    Adds calls c e d :=
  .inl ⟨noteCalls_of_eq h e calls, h ▸ List.prefix_rfl⟩

theorem adds_of_concat (error : Error) (hworker : e.worker? = some w)
    (h : d.fatal = c.fatal ++ [error]) (hexposed : Exposed c w) (hfinished : Finished d w)
    (calls : List FatalCall) : Adds calls c e d :=
  .inr ⟨w, error, noteCalls_of_concat hworker h calls, h, hexposed, hfinished⟩

theorem adds_of_failReading {b : Connection} {error : Error} (hs : Staffed c)
    (hreader : c.reader = .reading) (hworker : e.worker? = some .reader)
    (hfatal : b.fatal = c.fatal) (hhalf : b.readerHalf = c.readerHalf)
    (calls : List FatalCall) : Adds calls c e (b.failReading error) := by
  have hoffered : b.readerHalf = .offered := hhalf.trans (hs.reader_offered hreader)
  have hfinished : Finished (b.failReading error) .reader := by
    rw [failReading_eq]
    exact ⟨rfl, hoffered⟩
  have hfatal' := fatal_failReading b error
  rw [hfatal] at hfatal'
  split at hfatal'
  · exact adds_of_concat error hworker hfatal' hreader hfinished calls
  · rw [List.append_nil] at hfatal'
    exact adds_of_eq hfatal' e calls

theorem adds_of_step (hs : Staffed c) (hstep : Step c e d) (calls : List FatalCall) :
    Adds calls c e d := by
  cases hstep with
  | sendOverflow => exact .inl ⟨rfl, List.prefix_append _ _⟩
  | @dialFails cause hdialler =>
    refine adds_of_concat (w := .dialler) (.connectFailed c.settings.addr cause) ?_ ?_
      (.inl hdialler) ?_ calls
    · rfl
    · rfl
    · exact ⟨rfl, rfl, rfl⟩
  | @greetOverflow overflow outbound hdialler hqueue =>
    refine adds_of_concat (w := .dialler) (.capacityExceeded overflow.pending) ?_ ?_
      (.inr hdialler) ?_ calls
    · rfl
    · rfl
    · exact ⟨rfl, rfl, rfl⟩
  | @writeFails cause frame batch hwriter =>
    have hoffered := hs.writer_offered (by rw [hwriter]; nofun) (by rw [hwriter]; nofun)
      (by rw [hwriter]; nofun)
    refine adds_of_concat (w := .writer) (.sendFailed cause) ?_ ?_ ⟨frame, batch, hwriter⟩ ?_ calls
    · rfl
    · rfl
    · exact ⟨rfl, hoffered⟩
  | receiveOverflow hreader | receiveMalformed hreader | receiveTooLarge hreader
  | receiveEnd hreader | readFails hreader =>
    apply adds_of_failReading hs hreader
    · rfl
    · rfl
    · rfl
  | _ =>
    apply adds_of_eq
    rfl

theorem Finished.dialler_done (h : Finished c w) (hs : Staffed c) : c.dialler = .done := by
  apply Classical.byContradiction
  intro hbusy
  obtain ⟨hwriter, hreader⟩ := hs.pending hbusy
  cases w with
  | dialler => exact hbusy h.1
  | writer => cases hwriter.symm.trans h.2
  | reader => cases hreader.symm.trans h.2

theorem Finished.step (h : Finished c w) (hs : Staffed c) (hstep : Step c e d) : Finished d w := by
  have hdone := h.dialler_done hs
  cases hstep with
  | start hidle =>
    rw [(hs.idle hidle).1] at hdone
    cases hdone
  | dial hdialler | dialAbandoned hdialler | dialSucceeds hdialler | dialFails hdialler
  | greet hdialler | greetOverflow hdialler | handOver hdialler | handOverWriter hdialler
  | handOverNone hdialler =>
    rw [hdialler] at hdone
    cases hdone
  | writerBegins hwriter | tick hwriter | collect hwriter | accept hwriter =>
    cases w with
    | writer => exact absurd h.1 (by rw [hwriter]; nofun)
    | _ => exact h
  | writerLeaves | tickStops | writeFails =>
    cases w with
    | writer => exact ⟨rfl, h.2⟩
    | _ => exact h
  | readerBegins hreader =>
    cases w with
    | reader => exact absurd h.1 (by rw [hreader]; nofun)
    | _ => exact h
  | readerLeaves | readerStops =>
    cases w with
    | reader => exact ⟨rfl, h.2⟩
    | _ => exact h
  | receiveOverflow | receiveMalformed | receiveTooLarge | receiveEnd | readFails =>
    rw [failReading_eq]
    cases w with
    | reader => exact ⟨rfl, h.2⟩
    | _ => exact h
  | _ => cases w <;> exact h

/-! ## Once the stop flag is up -/

theorem stopping_of_step (h : c.stopping = true) (hstep : Step c e d) : d.stopping = true := by
  cases hstep with
  | receiveOverflow | receiveMalformed | receiveTooLarge | receiveEnd | readFails =>
    rw [failReading_eq]
    rfl
  | stopIdle | stopRunning | stopAgain | dialFails | writeFails => rfl
  | _ => exact h

/-- Nobody becomes engaged once the stop flag is up. -/
theorem engaged_of_step (hs : Staffed c) (hstopping : c.stopping = true) (hstep : Step c e d)
    (h : Engaged d w) : Engaged c w := by
  -- nobody but the worker that moves needs a look: it was engaged before, or it is not now
  cases hstep with
  | start hidle =>
    rw [(hs.idle hidle).2.2.2] at hstopping
    cases hstopping
  | dial hdialler =>
    cases w with
    | dialler => exact .inl hdialler
    | _ => exact h
  | dialSucceeds hdialler =>
    cases w with
    | dialler => exact .inr (.inl hdialler)
    | _ => exact h
  | dialAbandoned | dialFails | greetOverflow | handOverNone =>
    cases w with
    | dialler => simp [Engaged, endDialler, beginStop, advance, report] at h
    | writer => exact h
    | reader =>
      rcases h with hreading | ⟨hwaiting, hnever⟩
      · exact .inl hreading
      · exact absurd rfl hnever
  | greet =>
    cases w with
    | dialler => simp [Engaged] at h
    | _ => exact h
  | handOver hdialler | handOverWriter hdialler =>
    cases w with
    | dialler => simp [Engaged] at h
    | writer => exact h
    | reader =>
      rcases h with hreading | ⟨hwaiting, -⟩
      · exact .inl hreading
      · have hpending := (hs.pending (by rw [hdialler]; decide)).2
        exact .inr ⟨hwaiting, by rw [hpending]; decide⟩
  | writerBegins | writerLeaves | tickStops | writeFails =>
    cases w with
    | writer => simp [Engaged, beginStop, advance, report] at h
    | _ => exact h
  | tick hwriter hclear =>
    rw [hclear] at hstopping
    cases hstopping
  | collect hwriter =>
    cases w with
    | writer => exact .inl hwriter
    | _ => exact h
  | accept hwriter =>
    cases w with
    | writer => exact .inr ⟨_, _, hwriter⟩
    | _ => exact h
  | readerBegins hwaiting hoffered =>
    cases w with
    | reader => exact .inr ⟨hwaiting, by rw [hoffered]; decide⟩
    | _ => exact h
  | readerLeaves | readerStops =>
    cases w with
    | reader =>
      rcases h with hreading | ⟨hwaiting, -⟩
      · cases hreading
      · cases hwaiting
    | _ => exact h
  | receiveOverflow | receiveMalformed | receiveTooLarge | receiveEnd | readFails =>
    rw [failReading_eq] at h
    cases w with
    | reader =>
      rcases h with hreading | ⟨hwaiting, -⟩
      · cases hreading
      · cases hwaiting
    | _ => exact h
  | _ => cases w <;> exact h

/-! ## Along a run -/

/-- The calls of a run are among those of the fatal handler, each of another worker, which has
ended. -/
structure Called (calls : List FatalCall) (c : Connection) : Prop where
  fatal : (calls.map (·.error)).Sublist c.fatal
  nodup : (calls.map (·.worker)).Nodup
  finished : ∀ call ∈ calls, Finished c call.worker

theorem Called.step (h : Called calls c) (hs : Staffed c) (hstep : Step c e d) :
    Called (noteCalls calls c e d) d := by
  have hfinished : ∀ call ∈ calls, Finished d call.worker :=
    fun call hcall => (h.finished call hcall).step hs hstep
  rcases adds_of_step hs hstep calls with ⟨hnote, hfatal⟩ | ⟨w, error, hnote, hfatal, hw, hended⟩
  · rw [hnote]
    exact ⟨h.fatal.trans hfatal.sublist, h.nodup, hfinished⟩
  · rw [hnote]
    refine ⟨?_, ?_, ?_⟩
    · rw [hfatal, List.map_append]
      exact h.fatal.append (.refl _)
    · rw [List.map_append, List.nodup_append]
      refine ⟨h.nodup, by simp, ?_⟩
      rintro w' hw' w'' hw'' rfl
      obtain ⟨call, hcall, rfl⟩ := List.mem_map.mp hw'
      obtain rfl : call.worker = w := by simpa using hw''
      exact hw.not_finished (h.finished call hcall)
    · rw [List.forall_mem_append]
      exact ⟨hfinished, by simpa using hended⟩

theorem called_of_run {settings : Settings} {es : List Event}
    (hrun : (new settings).run? es = some c) : Called ((new settings).calls es) c := by
  have hstart : Called [] (new settings) ∧ Staffed (new settings) :=
    ⟨⟨.slnil, .nil, nofun⟩, staffed_new settings⟩
  have hkept := accumulate_keeps (P := fun calls c => Called calls c ∧ Staffed c)
    (fun ⟨h, hs⟩ hstep => ⟨h.step hs hstep, hs.step hstep⟩) hstart hrun
  exact hkept.1

/-- A dialler that has called the handler has kept the socket, so nobody else has. -/
theorem Called.alone (h : Called calls c) {call : FatalCall} (hcall : call ∈ calls)
    (hdialler : call.worker = .dialler) : calls = [call] := by
  have hkept : Finished c .dialler := hdialler ▸ h.finished call hcall
  obtain ⟨-, hwriter, hreader⟩ := hkept
  have hall : ∀ other ∈ calls, other.worker = .dialler := by
    intro other hother
    have hended := h.finished other hother
    cases hworker : other.worker with
    | dialler => rfl
    | writer =>
      rw [hworker] at hended
      cases hwriter.symm.trans hended.2
    | reader =>
      rw [hworker] at hended
      cases hreader.symm.trans hended.2
  have hnodup := h.nodup
  cases calls with
  | nil => cases hcall
  | cons first rest =>
    rw [List.map_cons, List.nodup_cons] at hnodup
    have hrest : rest = [] := by
      apply List.eq_nil_iff_forall_not_mem.mpr
      intro other hother
      apply hnodup.1
      rw [hall first List.mem_cons_self, ← hall other (List.mem_cons_of_mem _ hother)]
      exact List.mem_map_of_mem hother
    subst hrest
    rw [List.mem_singleton.mp hcall]

theorem length_le_two {workers : List Worker} (h : workers.Nodup) (hdialler : .dialler ∉ workers) :
    workers.length ≤ 2 := by
  have hsub : workers ⊆ [.writer, .reader] := by
    intro w hw
    cases w with
    | dialler => exact absurd hw hdialler
    | _ => decide
  exact h.length_le_of_subset hsub

theorem Called.length_le (h : Called calls c) : calls.length ≤ 2 := by
  by_cases hdialler : .dialler ∈ calls.map (·.worker)
  · obtain ⟨call, hcall, hworker⟩ := List.mem_map.mp hdialler
    rw [h.alone hcall hworker]
    exact Nat.le_succ 1
  · have hlength := length_le_two h.nodup hdialler
    rwa [List.length_map] at hlength

/-- A connection whose stop flag was up in `c`: whoever is engaged or has called since was engaged
then. -/
structure Closing (c : Connection) (calls : List FatalCall) (d : Connection) : Prop where
  staffed : Staffed d
  stopping : d.stopping = true
  engaged : ∀ w, Engaged d w → Engaged c w
  calls : ∀ call ∈ calls, Engaged c call.worker

theorem Closing.step {b : Connection} (h : Closing b calls c) (hstep : Step c e d) :
    Closing b (noteCalls calls c e d) d where
  staffed := h.staffed.step hstep
  stopping := stopping_of_step h.stopping hstep
  engaged w hw := h.engaged w (engaged_of_step h.staffed h.stopping hstep hw)
  calls := by
    rcases adds_of_step h.staffed hstep calls with ⟨hnote, -⟩ | ⟨w, error, hnote, -, hw, -⟩
    · rw [hnote]
      exact h.calls
    · rw [hnote, List.forall_mem_append]
      exact ⟨h.calls, by simpa using h.engaged w hw.engaged⟩

/-- Of a connection, every worker gives at most one failure to the fatal handler and has ended then,
the dialler only if nobody else does; so they are two at most. Once the stop flag is up, only
workers that were engaged at that moment still do. -/
theorem calls_of_run {settings : Settings} {es later : List Event} {c d : Connection}
    (hrun : (new settings).run? es = some c) (hlater : c.run? later = some d) :
    let calls := (new settings).calls es
    (calls.map (·.error)).Sublist c.fatal ∧ (calls.map (·.worker)).Nodup ∧ calls.length ≤ 2 ∧
      (∀ call ∈ calls, Finished c call.worker ∧ (call.worker = .dialler → calls = [call])) ∧
      (c.stopping = true → ∀ call ∈ c.calls later, Engaged c call.worker) := by
  intro calls
  have h : Called calls c := called_of_run hrun
  refine ⟨h.fatal, h.nodup, h.length_le, fun call hcall => ?_, fun hstopping => ?_⟩
  · exact ⟨h.finished call hcall, h.alone hcall⟩
  · have hstart : Closing c [] c := ⟨staffed_of_run hrun, hstopping, fun _ hw => hw, nofun⟩
    exact (accumulate_keeps (fun h hstep => h.step hstep) hstart hlater).calls

/-- A reader reads, and the writer has seen that nobody stops. -/
def ticked : List Event :=
  [.start, .dial, .dialSucceeds, .greet, .handOver, .writerBegins, .readerBegins, .tick]

/-- A reader reads, and the writer has a frame to write. -/
def busy : List Event :=
  ticked ++ [.collect]

/-- The server hangs up, which ends the reader; then the write under way fails too. -/
theorem calls_of_run_busy :
    ∃ c d, (new .default).run? (busy ++ [.hangUp, .receive]) = some c ∧ c.stopping = true ∧
      c.run? [.writeFails .brokenPipe] = some d ∧
      c.calls [.writeFails .brokenPipe] = [⟨.writer, .sendFailed .brokenPipe⟩] ∧
      Finished c .reader ∧ Engaged c .writer := by
  obtain ⟨c, hrun⟩ : ∃ c, (new .default).run? (busy ++ [.hangUp, .receive]) = some c := ⟨_, rfl⟩
  obtain ⟨d, hlater, hstopping, hcalls⟩ : ∃ d, c.run? [.writeFails .brokenPipe] = some d ∧
      c.stopping = true ∧
      c.calls [.writeFails .brokenPipe] = [⟨.writer, .sendFailed .brokenPipe⟩] := by
    cases hrun
    exact ⟨_, rfl, rfl, rfl⟩
  obtain ⟨-, -, -, hcall, hengaged⟩ := calls_of_run hrun hlater
  refine ⟨c, d, hrun, hstopping, hlater, hcalls, ?_, ?_⟩
  · exact (hcall ⟨.reader, .receiveFailed .unexpectedEof⟩ (by decide)).1
  · exact hengaged hstopping ⟨.writer, .sendFailed .brokenPipe⟩ (hcalls ▸ List.mem_cons_self)

/-- After a stop a write under way fails and the process ends; so does one of a batch that is only taken
then; and one connection gives two failures to the fatal handler. -/
theorem calls_after_stop :
    (∃ c d, (new .default).run? (busy ++ [.stop]) = some c ∧ c.stopping = true ∧ c.fatal = [] ∧
      c.run? [.writeFails .brokenPipe] = some d ∧ d.fatal = [.sendFailed .brokenPipe]) ∧
    (∃ c d, (new .default).run? (ticked ++ [.stop]) = some c ∧ c.stopping = true ∧ c.fatal = [] ∧
      c.run? [.collect, .writeFails .brokenPipe] = some d ∧
      d.fatal = [.sendFailed .brokenPipe]) ∧
    (new .default).calls (busy ++ [.hangUp, .receive, .writeFails .brokenPipe]) =
      [⟨.reader, .receiveFailed .unexpectedEof⟩, ⟨.writer, .sendFailed .brokenPipe⟩] :=
  ⟨⟨_, _, rfl, rfl, rfl, rfl, rfl⟩, ⟨_, _, rfl, rfl, rfl, rfl, rfl⟩, by decide⟩

end Connection

end RaceSteward.Link
