import RaceSteward.Proofs.Link.Workers

/-!
# What a call of stop has waited for

A call of stop on a connection that has not been started closes it there and then; the first one on a
connection that runs is told of the end of all workers. Either leaves a connection that has ended
(`Connection.ended_of_returns`). Any other call, made while the first one waits or after it has given
up, returns at once, whatever the workers still do (`Connection.returns_before_end`).
-/

namespace RaceSteward.Link.Connection

/-- No worker is running and the connection is closed. -/
structure Ended (c : Connection) : Prop where
  quiet : c.isQuiet = true
  closed : c.state = .closed

/-- A call of stop returns: at once, unless it finds the connection running; then when it is told of
the end of all workers. -/
def Returns (c : Connection) : Event → Prop
  | .stop => c.lifecycle ≠ .running
  | .stopReturns => True
  | _ => False

/-- A call of stop finds that another one has begun to stop the connection. -/
def FindsStopped (c : Connection) : Event → Prop
  | .stop => c.lifecycle = .stopped
  | _ => False

variable {c d : Connection}

theorem isQuiet_of_absent (hdialler : c.dialler = .absent) (hwriter : c.writer = .absent)
    (hreader : c.reader = .absent) : c.isQuiet = true := by
  rw [isQuiet, hdialler, hwriter, hreader]
  rfl

theorem Staffed.ended (h : Staffed c) (hretired : c.retired = true) : Ended c := by
  obtain ⟨hdialler, hwriter, hreader, hstate⟩ := h.retired hretired
  refine ⟨?_, hstate⟩
  rw [isQuiet, hdialler, hwriter, hreader]
  rfl

theorem ended_beginStop_iff (lifecycle : Lifecycle) :
    Ended { c.beginStop with lifecycle := lifecycle } ↔ Ended c := by
  constructor
  · rintro ⟨hquiet, hclosed⟩
    refine ⟨hquiet, ?_⟩
    change c.state.advance .closing = .closed at hclosed
    cases hstate : c.state with
    | closed => rfl
    | _ =>
      rw [hstate] at hclosed
      cases hclosed
  · rintro ⟨hquiet, hclosed⟩
    refine ⟨hquiet, ?_⟩
    show c.state.advance .closing = .closed
    rw [hclosed, State.closed_advance]

/-- When a call of stop returns, no worker is running and the connection is closed, unless the call
found that another one had begun to stop the connection: then it changes nothing about that. -/
theorem ended_of_returns {settings : Settings} {es : List Event} {e : Event}
    (hrun : (new settings).run? es = some c) (hstep : c.step? e = some d) (hreturns : Returns c e) :
    Ended d ↔ (FindsStopped c e → Ended c) := by
  have hstaffed := staffed_of_run hrun
  have hmove := step_of_step? hstep
  cases hmove with
  | stopIdle hidle =>
    obtain ⟨hdialler, hwriter, hreader, -⟩ := hstaffed.idle hidle
    have hended : Ended ({ c.beginStop with lifecycle := .stopped }.advance .closed) :=
      ⟨isQuiet_of_absent hdialler hwriter hreader, State.advance_closed _⟩
    refine iff_of_true hended fun hstopped => ?_
    rw [FindsStopped, hidle] at hstopped
    cases hstopped
  | stopRunning hrunning => exact absurd hrunning hreturns
  | stopAgain hstopped =>
    rw [ended_beginStop_iff]
    exact ⟨fun h _ => h, fun h => h hstopped⟩
  | stopReturns hawaited hretired =>
    have hended : Ended { c with awaited := false } := { hstaffed.ended hretired with }
    exact iff_of_true hended fun hnever => hnever.elim
  | _ => exact hreturns.elim

/-- The dialler of a stopped connection gives up, the others leave, and the call that waits returns. -/
theorem ended_of_returns_awaited :
    ∃ c d, (new .default).run? [.start, .dial, .stop, .dialAbandoned, .writerLeaves, .readerLeaves,
      .retire] = some c ∧ c.step? .stopReturns = some d ∧ Returns c .stopReturns ∧ Ended d := by
  obtain ⟨c, hrun⟩ : ∃ c, (new .default).run? [.start, .dial, .stop, .dialAbandoned, .writerLeaves,
    .readerLeaves, .retire] = some c := ⟨_, rfl⟩
  obtain ⟨d, hstep⟩ : ∃ d, c.step? .stopReturns = some d := by
    cases hrun
    exact ⟨_, rfl⟩
  exact ⟨c, d, hrun, hstep, trivial, (ended_of_returns hrun hstep trivial).mpr nofun⟩

/-- A second call of stop returns while the dialler still dials: the first one is waiting, or has
given up. -/
theorem returns_before_end :
    (∃ c d : Connection, (new .default).run? [.start, .dial, .stop] = some c ∧
      c.awaited = true ∧ c.step? .stop = some d ∧ Returns c .stop ∧ d.dialler = .dialling ∧
      d.state = .closing ∧ ¬ Ended d) ∧
    ∃ c d : Connection, (new .default).run? [.start, .dial, .stop, .stopAbandoned] = some c ∧
      c.awaited = false ∧ c.step? .stop = some d ∧ Returns c .stop ∧ d.dialler = .dialling ∧
      d.state = .closing ∧ ¬ Ended d :=
  ⟨⟨_, _, rfl, rfl, rfl, nofun, rfl, rfl, fun h => nomatch h.closed⟩,
    ⟨_, _, rfl, rfl, rfl, nofun, rfl, rfl, fun h => nomatch h.closed⟩⟩

end RaceSteward.Link.Connection
