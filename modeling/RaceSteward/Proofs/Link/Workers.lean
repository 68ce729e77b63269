import RaceSteward.Proofs.Link.Step

/-!
# Where the workers stand

What ties the three workers of a connection to each other, to the halves of the socket and to what
callers have done, in every run: nobody works before the start, a half of the socket is offered only
by a dialler that has ended, a worker writes or reads only with its half, and once the end of all
workers has been seen they have ended and the connection is closed (`Connection.staffed_of_run`).
-/

namespace RaceSteward.Link.Connection

structure Staffed (c : Connection) : Prop where
  idle : c.lifecycle = .idle →
    c.dialler = .absent ∧ c.writer = .absent ∧ c.reader = .absent ∧ c.stopping = false
  pending : c.dialler ≠ .done → c.writerHalf = .pending ∧ c.readerHalf = .pending
  writer : c.writerHalf ≠ .offered → c.writer = .absent ∨ c.writer = .waiting ∨ c.writer = .done
  reader : c.readerHalf ≠ .offered → c.reader = .absent ∨ c.reader = .waiting ∨ c.reader = .done
  retired : c.retired = true →
    c.dialler = .done ∧ c.writer = .done ∧ c.reader = .done ∧ c.state = .closed

variable {c d : Connection}

theorem staffed_new (settings : Settings) : Staffed (new settings) where
  idle _ := ⟨rfl, rfl, rfl, rfl⟩
  pending _ := ⟨rfl, rfl⟩
  writer _ := .inl rfl
  reader _ := .inl rfl
  retired h := by cases h

namespace Staffed

theorem not_idle_of_dialler (h : Staffed c) (hdialler : c.dialler ≠ .absent) :
    c.lifecycle ≠ .idle :=
  fun hidle => hdialler (h.idle hidle).1

theorem not_idle_of_writer (h : Staffed c) (hwriter : c.writer ≠ .absent) : c.lifecycle ≠ .idle :=
  fun hidle => hwriter (h.idle hidle).2.1

theorem not_idle_of_reader (h : Staffed c) (hreader : c.reader ≠ .absent) : c.lifecycle ≠ .idle :=
  fun hidle => hreader (h.idle hidle).2.2.1

theorem not_retired_of_dialler (h : Staffed c) (hdialler : c.dialler ≠ .done) :
    ¬ c.retired = true :=
  fun hretired => hdialler (h.retired hretired).1

theorem not_retired_of_writer (h : Staffed c) (hwriter : c.writer ≠ .done) :
    ¬ c.retired = true :=
  fun hretired => hwriter (h.retired hretired).2.1

theorem not_retired_of_reader (h : Staffed c) (hreader : c.reader ≠ .done) :
    ¬ c.retired = true :=
  fun hretired => hreader (h.retired hretired).2.2.1

theorem writer_offered (h : Staffed c) (habsent : c.writer ≠ .absent)
    (hwaiting : c.writer ≠ .waiting) (hdone : c.writer ≠ .done) : c.writerHalf = .offered := by
  apply Classical.byContradiction
  intro hhalf
  rcases h.writer hhalf with hwriter | hwriter | hwriter
  · exact habsent hwriter
  · exact hwaiting hwriter
  · exact hdone hwriter

theorem reader_offered (h : Staffed c) (hreader : c.reader = .reading) :
    c.readerHalf = .offered := by
  apply Classical.byContradiction
  intro hhalf
  have hother := h.reader hhalf
  rw [hreader] at hother
  simp at hother

/-! ## One move -/

theorem moveDialler (h : Staffed c) (habsent : c.dialler ≠ .absent) (hdone : c.dialler ≠ .done)
    (state : State) (dialler : Dialler) :
    Staffed { c with state := state, dialler := dialler } := by
  have hretired := h.not_retired_of_dialler hdone
  exact { h with
    idle := fun hidle => absurd hidle (h.not_idle_of_dialler habsent)
    pending := fun _ => h.pending hdone
    retired := fun hnever => absurd hnever hretired }

theorem endDialler (h : Staffed c) (habsent : c.dialler ≠ .absent) (hdone : c.dialler ≠ .done) :
    Staffed c.endDialler := by
  obtain ⟨hwriter, hreader⟩ := h.pending hdone
  have hretired := h.not_retired_of_dialler hdone
  exact {
    idle := fun hidle => absurd hidle (h.not_idle_of_dialler habsent)
    pending := fun hnever => absurd rfl hnever
    writer := fun _ => h.writer (by rw [hwriter]; decide)
    reader := fun _ => h.reader (by rw [hreader]; decide)
    retired := fun hnever => absurd hnever hretired }

theorem beginStop (h : Staffed c) (hstarted : c.lifecycle ≠ .idle) : Staffed c.beginStop :=
  { h with
    idle := fun hidle => absurd hidle hstarted
    retired := fun hretired => by
      obtain ⟨hdialler, hwriter, hreader, hstate⟩ := h.retired hretired
      refine ⟨hdialler, hwriter, hreader, ?_⟩
      show c.state.advance .closing = .closed
      rw [hstate, State.closed_advance] }

theorem moveWriter (h : Staffed c) (habsent : c.writer ≠ .absent) (hdone : c.writer ≠ .done)
    (writer : Writer) (hhalf : writer = .done ∨ c.writerHalf = .offered) :
    Staffed { c with writer := writer } := by
  have hretired := h.not_retired_of_writer hdone
  exact { h with
    idle := fun hidle => absurd hidle (h.not_idle_of_writer habsent)
    writer := fun hnever => .inr (.inr (hhalf.resolve_right hnever))
    retired := fun hnever => absurd hnever hretired }

theorem moveReader (h : Staffed c) (habsent : c.reader ≠ .absent) (hdone : c.reader ≠ .done)
    (reader : Reader) (hhalf : reader = .done ∨ c.readerHalf = .offered) :
    Staffed { c with reader := reader } := by
  have hretired := h.not_retired_of_reader hdone
  exact { h with
    idle := fun hidle => absurd hidle (h.not_idle_of_reader habsent)
    reader := fun hnever => .inr (.inr (hhalf.resolve_right hnever))
    retired := fun hnever => absurd hnever hretired }

theorem failReading (h : Staffed c) (hreader : c.reader = .reading) (e : Error) :
    Staffed (c.failReading e) := by
  have hstarted := h.not_idle_of_reader (by rw [hreader]; decide)
  have hended := h.moveReader (by rw [hreader]; decide) (by rw [hreader]; decide) _ (.inl rfl)
  rw [failReading_eq]
  exact { hended.beginStop hstarted with }

theorem step {e : Event} (h : Staffed c) (hstep : Step c e d) : Staffed d := by
  cases hstep with
  | start hidle =>
    obtain ⟨hdialler, -, -, -⟩ := h.idle hidle
    have hbusy : c.dialler ≠ .done := by rw [hdialler]; decide
    have hretired := h.not_retired_of_dialler hbusy
    exact {
      idle := fun hrunning => by cases hrunning
      pending := fun _ => h.pending hbusy
      writer := fun _ => .inr (.inl rfl)
      reader := fun _ => .inr (.inl rfl)
      retired := fun hnever => absurd hnever hretired }
  | stopIdle hidle =>
    obtain ⟨hdialler, -, -, -⟩ := h.idle hidle
    have hretired := h.not_retired_of_dialler (by rw [hdialler]; decide)
    exact { h with
      idle := fun hstopped => by cases hstopped
      retired := fun hnever => absurd hnever hretired }
  | stopRunning hrunning =>
    have hstopping := h.beginStop (by rw [hrunning]; decide)
    exact { hstopping with idle := fun hidle => by cases hidle }
  | stopAgain hstopped =>
    have hstopping := h.beginStop (by rw [hstopped]; decide)
    exact { hstopping with idle := fun hidle => by cases hidle }
  | dial hdialler | dialSucceeds hdialler =>
    exact h.moveDialler (by rw [hdialler]; decide) (by rw [hdialler]; decide) _ _
  | greet hdialler =>
    exact { h.moveDialler (by rw [hdialler]; decide) (by rw [hdialler]; decide) c.state _ with }
  | dialAbandoned hdialler | handOverNone hdialler =>
    exact h.endDialler (by rw [hdialler]; decide) (by rw [hdialler]; decide)
  | dialFails hdialler =>
    have habsent : c.dialler ≠ .absent := by rw [hdialler]; decide
    have hended := h.endDialler habsent (by rw [hdialler]; decide)
    exact { hended.beginStop (h.not_idle_of_dialler habsent) with }
  | greetOverflow hdialler =>
    exact { h.endDialler (by rw [hdialler]; decide) (by rw [hdialler]; decide) with }
  | handOver hdialler =>
    have hretired := h.not_retired_of_dialler (by rw [hdialler]; decide)
    exact {
      idle := fun hidle => absurd hidle (h.not_idle_of_dialler (by rw [hdialler]; decide))
      pending := fun hnever => absurd rfl hnever
      writer := fun hnever => absurd rfl hnever
      reader := fun hnever => absurd rfl hnever
      retired := fun hnever => absurd hnever hretired }
  | handOverWriter hdialler hwriter hreader =>
    have hretired := h.not_retired_of_dialler (by rw [hdialler]; decide)
    exact {
      idle := fun hidle => absurd hidle (h.not_idle_of_dialler (by rw [hdialler]; decide))
      pending := fun hnever => absurd rfl hnever
      writer := fun hnever => absurd rfl hnever
      reader := fun _ => .inr (.inr hreader)
      retired := fun hnever => absurd hnever hretired }
  | writerBegins hwriter hhalf =>
    exact h.moveWriter (by rw [hwriter]; decide) (by rw [hwriter]; decide) _ (.inr hhalf)
  | writerLeaves hwriter | tickStops hwriter =>
    exact h.moveWriter (by rw [hwriter]; decide) (by rw [hwriter]; decide) _ (.inl rfl)
  | tick hwriter =>
    have hhalf := h.writer_offered (by rw [hwriter]; decide) (by rw [hwriter]; decide)
      (by rw [hwriter]; decide)
    exact h.moveWriter (by rw [hwriter]; decide) (by rw [hwriter]; decide) _ (.inr hhalf)
  | collect hwriter =>
    have hhalf := h.writer_offered (by rw [hwriter]; decide) (by rw [hwriter]; decide)
      (by rw [hwriter]; decide)
    have hbegun := h.moveWriter (by rw [hwriter]; decide) (by rw [hwriter]; decide)
      (.begin c.outbound.pending) (.inr hhalf)
    exact { hbegun with }
  | @accept n frame batch hwriter =>
    have hhalf := h.writer_offered (by rw [hwriter]; nofun) (by rw [hwriter]; nofun)
      (by rw [hwriter]; nofun)
    have hmore := h.moveWriter (by rw [hwriter]; nofun) (by rw [hwriter]; nofun)
      (c.accept n frame batch).writer (.inr hhalf)
    exact { hmore with }
  | writeFails hwriter =>
    have hstarted := h.not_idle_of_writer (by rw [hwriter]; nofun)
    have hended := h.moveWriter (by rw [hwriter]; nofun) (by rw [hwriter]; nofun) _ (.inl rfl)
    exact { hended.beginStop hstarted with }
  | readerBegins hreader hhalf =>
    exact h.moveReader (by rw [hreader]; decide) (by rw [hreader]; decide) _ (.inr hhalf)
  | readerLeaves hreader | readerStops hreader =>
    exact h.moveReader (by rw [hreader]; decide) (by rw [hreader]; decide) _ (.inl rfl)
  | receiveOverflow hreader | receiveMalformed hreader =>
    apply Staffed.failReading
    · exact { h with }
    · exact hreader
  | receiveTooLarge hreader | receiveEnd hreader | readFails hreader =>
    exact h.failReading hreader _
  | retire hdialler hwriter hreader =>
    exact { h with
      retired := fun _ => ⟨hdialler, hwriter, hreader, State.advance_closed c.state⟩ }
  | _ => exact { h with }

end Staffed

theorem staffed_of_run {settings : Settings} {es : List Event}
    (hrun : (new settings).run? es = some c) : Staffed c :=
  run_keeps (fun h hstep => h.step hstep) (staffed_new settings) hrun

end RaceSteward.Link.Connection
