import RaceSteward.Proofs.Link.Step

/-!
# Runs that only the reader ends

As long as neither a caller nor the worker that writes raises the stop flag first, where the reader
stands is tied to the half of the socket that it was given and to the stop flag
(`Connection.Steady.run`).
-/

namespace RaceSteward.Link

theorem State.advance_lt_closing {a b : State} (ha : a < .closing) (hb : b < .closing) :
    a.advance b < .closing := by
  rw [State.lt_def] at ha hb ⊢
  rw [State.rank_advance]
  omega

theorem State.closing_le_advance (a : State) : .closing ≤ a.advance .closing := by
  rw [State.le_def, State.rank_advance]
  omega

theorem State.closing_le_of_le {a b : State} (h : .closing ≤ a) : .closing ≤ a.advance b := by
  rw [State.le_def] at h ⊢
  rw [State.rank_advance]
  omega

namespace Connection

/-- A caller stops the connection, or a write fails. -/
def Event.isInterruption : Event → Bool
  | .stop => true
  | .writeFails _ => true
  | _ => false

/-- No interruption comes before the stop flag is up. -/
def Undisturbed (c : Connection) : List Event → Prop
  | [] => True
  | e :: es => (e.isInterruption = true → c.stopping = true) ∧
    ∀ d, c.step? e = some d → Undisturbed d es

theorem undisturbed_of_forall {es : List Event} (h : ∀ e ∈ es, e.isInterruption = false)
    (c : Connection) : Undisturbed c es := by
  induction es generalizing c with
  | nil => exact trivial
  | cons e es ih =>
    rw [List.forall_mem_cons] at h
    refine ⟨fun hinterruption => ?_, fun d _ => ih h.2 d⟩
    rw [h.1] at hinterruption
    cases hinterruption

/-- What a run keeps about the reader, its half of the socket and the stop flag. -/
structure Steady (c : Connection) : Prop where
  idle : c.lifecycle = .idle → c.dialler = .absent ∧ c.reader = .absent
  pending : c.dialler ≠ .done → c.readerHalf = .pending
  reading : c.reader = .reading → c.readerHalf = .offered
  done : c.reader = .done → c.readerHalf ≠ .pending
  stopping : c.stopping = true →
    c.readerHalf = .withdrawn ∨ c.readerHalf = .offered ∧ c.reader = .done
  -- until the reader ends the connection is open, and its end closes it
  opened : c.stopping = false → c.reader ≠ .done → c.state < .closing
  ended : c.reader = .done → c.readerHalf = .offered → c.stopping = true ∧ .closing ≤ c.state

theorem steady_new (settings : Settings) : Steady (new settings) where
  idle _ := ⟨rfl, rfl⟩
  pending _ := rfl
  reading h := by cases h
  done h := by cases h
  stopping h := by cases h
  opened _ _ := by show State.disconnected < State.closing; decide
  ended h := by cases h

variable {c d : Connection}

theorem Steady.clear (h : Steady c) (hhalf : c.readerHalf ≠ .withdrawn)
    (hopen : c.readerHalf = .offered → c.reader ≠ .done) : c.stopping = false := by
  rw [Bool.eq_false_iff]
  intro hstopping
  rcases h.stopping hstopping with hwithdrawn | ⟨hoffered, hdone⟩
  · exact hhalf hwithdrawn
  · exact hopen hoffered hdone

/-! ## While the dialler works -/

theorem Steady.not_idle (h : Steady c) (hdialler : c.dialler ≠ .absent) : c.lifecycle ≠ .idle :=
  fun hidle => hdialler (h.idle hidle).1

theorem Steady.not_reading (h : Steady c) (hdialler : c.dialler ≠ .done) : c.reader ≠ .reading := by
  intro hreader
  have hhalf := h.reading hreader
  rw [h.pending hdialler] at hhalf
  cases hhalf

theorem Steady.not_done (h : Steady c) (hdialler : c.dialler ≠ .done) : c.reader ≠ .done :=
  fun hreader => h.done hreader (h.pending hdialler)

theorem Steady.not_stopping (h : Steady c) (hdialler : c.dialler ≠ .done) : c.stopping = false := by
  have hhalf := h.pending hdialler
  apply h.clear
  · rw [hhalf]
    decide
  · intro hoffered
    rw [hhalf] at hoffered
    cases hoffered

theorem Steady.withdraw (h : Steady c) (habsent : c.dialler ≠ .absent) (hdone : c.dialler ≠ .done)
    (hlifecycle : d.lifecycle = c.lifecycle) (hdialler : d.dialler = .done)
    (hhalf : d.readerHalf = .withdrawn) (hreader : d.reader = c.reader)
    (hopened : d.stopping = false → d.state < .closing) : Steady d where
  idle hidle := by
    rw [hlifecycle] at hidle
    exact absurd hidle (h.not_idle habsent)
  pending hbusy := absurd hdialler hbusy
  reading hreading := by
    rw [hreader] at hreading
    exact absurd hreading (h.not_reading hdone)
  done _ := by rw [hhalf]; decide
  stopping _ := .inl hhalf
  opened hstopping _ := hopened hstopping
  ended _ hoffered := by
    rw [hhalf] at hoffered
    cases hoffered

/-! ## While the reader works -/

theorem Steady.not_idle_of_reader (h : Steady c) (hreader : c.reader ≠ .absent) :
    c.lifecycle ≠ .idle :=
  fun hidle => hreader (h.idle hidle).2

theorem Steady.clear_of_reading (h : Steady c) (hreader : c.reader = .reading) :
    c.stopping = false := by
  have hhalf := h.reading hreader
  apply h.clear
  · rw [hhalf]
    decide
  · intro _
    rw [hreader]
    decide

/-- A reader leaves before it has begun only if its half will not come. -/
theorem Steady.withdrawn_of_leaves (h : Steady c) (hreader : c.reader = .waiting)
    (hwhy : c.stopping = true ∨ c.readerHalf = .withdrawn) : c.readerHalf = .withdrawn := by
  rcases hwhy with hstopping | hhalf
  · rcases h.stopping hstopping with hwithdrawn | ⟨-, hdone⟩
    · exact hwithdrawn
    · rw [hreader] at hdone
      cases hdone
  · exact hhalf

/-! ## One move -/

theorem Steady.failReading (h : Steady c) (hreader : c.reader = .reading) (e : Error) :
    Steady (c.failReading e) := by
  have hhalf := h.reading hreader
  rw [failReading_eq]
  exact {
    idle := fun hidle => absurd hidle (h.not_idle_of_reader (by rw [hreader]; decide))
    pending := h.pending
    reading := fun hreading => by cases hreading
    done := fun _ => by show c.readerHalf ≠ .pending; rw [hhalf]; decide
    stopping := fun _ => .inr ⟨hhalf, rfl⟩
    opened := fun hstopping => by cases hstopping
    ended := fun _ _ => ⟨rfl, State.closing_le_advance c.state⟩ }

theorem Steady.beginStop (h : Steady c) (hstopping : c.stopping = true) : Steady c.beginStop :=
  { h with
    stopping := fun _ => h.stopping hstopping
    opened := fun hclear => by cases hclear
    ended := fun _ _ => ⟨rfl, State.closing_le_advance c.state⟩ }

theorem Steady.step {e : Event} (h : Steady c) (hstep : Step c e d)
    (hfree : e.isInterruption = true → c.stopping = true) : Steady d := by
  -- neither a caller nor the worker that writes raises the flag
  cases hstep with
  | start hidle =>
    obtain ⟨hdialler, hreader⟩ := h.idle hidle
    have hbusy : c.dialler ≠ .done := by rw [hdialler]; decide
    have hclear := h.not_stopping hbusy
    exact {
      idle := fun hrunning => by cases hrunning
      pending := fun _ => h.pending hbusy
      reading := fun hreading => by cases hreading
      done := fun hdone => by cases hdone
      stopping := fun hstopping => by rw [hclear] at hstopping; cases hstopping
      opened := fun _ _ => h.opened hclear (h.not_done hbusy)
      ended := fun hdone => by cases hdone }
  | stopIdle =>
    have hstop := h.beginStop (hfree rfl)
    exact { hstop with
      idle := fun hidle => by cases hidle
      opened := fun hclear => by cases hclear
      ended := fun _ _ => ⟨rfl, State.closing_le_of_le (State.closing_le_advance c.state)⟩ }
  | stopRunning | stopAgain =>
    exact { h.beginStop (hfree rfl) with idle := fun hidle => by cases hidle }
  | dial hdialler | dialSucceeds hdialler =>
    have hbusy : c.dialler ≠ .done := by rw [hdialler]; decide
    have habsent : c.dialler ≠ .absent := by rw [hdialler]; decide
    exact { h with
      idle := fun hidle => absurd hidle (h.not_idle habsent)
      pending := fun _ => h.pending hbusy
      opened := fun hclear hopen => State.advance_lt_closing (h.opened hclear hopen) (by decide)
      ended := fun hdone => absurd hdone (h.not_done hbusy) }
  | dialAbandoned hdialler hstopping =>
    have hclear := h.not_stopping (by rw [hdialler]; decide)
    rw [hclear] at hstopping
    cases hstopping
  | dialFails hdialler =>
    exact h.withdraw (by rw [hdialler]; decide) (by rw [hdialler]; decide) rfl rfl rfl rfl
      (fun hclear => by cases hclear)
  | greet hdialler =>
    have hbusy : c.dialler ≠ .done := by rw [hdialler]; decide
    have habsent : c.dialler ≠ .absent := by rw [hdialler]; decide
    exact { h with
      idle := fun hidle => absurd hidle (h.not_idle habsent)
      pending := fun _ => h.pending hbusy }
  | greetOverflow hdialler =>
    have hbusy : c.dialler ≠ .done := by rw [hdialler]; decide
    exact h.withdraw (by rw [hdialler]; decide) hbusy rfl rfl rfl rfl
      (fun hclear => h.opened hclear (h.not_done hbusy))
  | handOver hdialler hwriter hreader =>
    have hbusy : c.dialler ≠ .done := by rw [hdialler]; decide
    have hclear := h.not_stopping hbusy
    exact {
      idle := fun hidle => absurd hidle (h.not_idle (by rw [hdialler]; decide))
      pending := fun hnever => absurd rfl hnever
      reading := fun _ => rfl
      done := fun _ => by show Handover.offered ≠ .pending; decide
      stopping := fun hstopping => by
        change c.stopping = true at hstopping
        rw [hclear] at hstopping
        cases hstopping
      opened := h.opened
      ended := fun hdone => absurd hdone hreader }
  | handOverWriter hdialler hwriter hreader =>
    exact absurd hreader (h.not_done (by rw [hdialler]; decide))
  | handOverNone hdialler =>
    have hbusy : c.dialler ≠ .done := by rw [hdialler]; decide
    exact h.withdraw (by rw [hdialler]; decide) hbusy rfl rfl rfl rfl
      (fun hclear => h.opened hclear (h.not_done hbusy))
  | writeFails =>
    exact { h.beginStop (hfree rfl) with }
  | readerBegins hreader hhalf =>
    exact { h with
      idle := fun hidle => absurd hidle (h.not_idle_of_reader (by rw [hreader]; decide))
      reading := fun _ => hhalf
      done := fun hdone => by cases hdone
      stopping := fun hstopping => by
        rcases h.stopping hstopping with hwithdrawn | ⟨-, hdone⟩
        · exact .inl hwithdrawn
        · rw [hreader] at hdone
          cases hdone
      opened := fun hclear _ => h.opened hclear (by rw [hreader]; decide)
      ended := fun hdone => by cases hdone }
  | readerLeaves hreader hwhy =>
    have hhalf := h.withdrawn_of_leaves hreader hwhy
    exact { h with
      idle := fun hidle => absurd hidle (h.not_idle_of_reader (by rw [hreader]; decide))
      reading := fun hreading => by cases hreading
      done := fun _ => by show c.readerHalf ≠ .pending; rw [hhalf]; decide
      stopping := fun _ => .inl hhalf
      opened := fun _ hopen => absurd rfl hopen
      ended := fun _ hoffered => by
        change c.readerHalf = .offered at hoffered
        rw [hhalf] at hoffered
        cases hoffered }
  | readerStops hreader hstopping =>
    rw [h.clear_of_reading hreader] at hstopping
    cases hstopping
  | receiveOverflow hreader | receiveMalformed hreader =>
    apply Steady.failReading
    · exact { h with }
    · exact hreader
  | receiveTooLarge hreader | receiveEnd hreader | readFails hreader =>
    exact h.failReading hreader _
  | retire hdialler hwriter hreader =>
    exact { h with
      opened := fun _ hopen => absurd hreader hopen
      ended := fun hdone hoffered =>
        ⟨(h.ended hdone hoffered).1, State.closing_le_of_le (h.ended hdone hoffered).2⟩ }
  | _ => exact { h with }

theorem Steady.run {es : List Event} (h : Steady c) (hrun : c.run? es = some d)
    (hfree : Undisturbed c es) : Steady d := by
  induction es generalizing c with
  | nil =>
    cases hrun
    exact h
  | cons e es ih =>
    obtain ⟨next, hstep, hrest⟩ := Option.bind_eq_some_iff.mp hrun
    exact ih (h.step (step_of_step? hstep) hfree.1) hrest (hfree.2 next hstep)

end Connection

end RaceSteward.Link
