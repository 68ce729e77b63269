import RaceSteward.Proofs.Link.Receiver

/-!
# Delivery is exact

What a run has pushed, handed over and reported is what the longest run of frames of the stream says
(`Exact`). How the stream was cut into pieces, and when the callers took what was there, makes no
difference to a reader that has come to rest (`Exact.unique`).

* `Connection.exists_run_atRest`: a reader that goes on reading comes to rest.
* `Connection.delivery_exact`: both together, for every run that only the reader ends.
-/

namespace RaceSteward.Link.Connection

open RaceSteward.Frame

variable {settings : Settings} {log : Log} {c d : Connection}

/-! ## Coming to rest -/

/-- A connected reader has ended, or has taken all that it can. -/
structure AtRest (c : Connection) : Prop where
  offered : c.readerHalf = .offered
  rested : c.reader = .done ∨ c.reader = .reading ∧ c.step? .receive = none

theorem receive_eq_none_iff (hreader : c.reader = .reading) :
    c.step? .receive = none ↔
      next c.settings.maxFrame c.arrived = .incomplete ∧ c.hungUp = false := by
  rw [step?, if_pos hreader]
  unfold receive?
  cases next c.settings.maxFrame c.arrived with
  | whole payload rest =>
    cases hdecode : Message.decode payload with
    | ok m =>
      simp only [hdecode]
      split <;> simp
    | error e => simp [hdecode]
  | tooLarge length unread => simp
  | incomplete => cases c.hungUp <;> simp

theorem Step.receive_cases (h : Step c .receive d) :
    d.reader = .reading ∧ d.arrived.length < c.arrived.length ∧ d.readerHalf = c.readerHalf ∨
      d.reader = .done ∧ d.readerHalf = c.readerHalf := by
  cases h with
  | receive hreader hfront => exact .inl ⟨hreader, length_lt_of_next_whole hfront, rfl⟩
  | receiveOverflow | receiveMalformed | receiveTooLarge | receiveEnd =>
    rw [failReading_eq]
    exact .inr ⟨rfl, rfl⟩

theorem run?_cons {e : Event} (h : c.step? e = some d) (es : List Event) :
    c.run? (e :: es) = d.run? es := by
  rw [run?, h]
  rfl

/-- Every message that is taken makes what has arrived shorter, so reading comes to an end. -/
theorem exists_run_atRest (hreader : c.reader = .reading) (hhalf : c.readerHalf = .offered) :
    ∃ n d, c.run? (List.replicate n .receive) = some d ∧ d.AtRest := by
  induction hlength : c.arrived.length using Nat.strongRecOn generalizing c with
  | ind n ih =>
    subst hlength
    cases hstep : c.step? .receive with
    | none => exact ⟨0, c, rfl, hhalf, .inr ⟨hreader, hstep⟩⟩
    | some d =>
      rcases (step_of_step? hstep).receive_cases with ⟨hreading, hshorter, hsame⟩ | ⟨hdone, hsame⟩
      · obtain ⟨n, rested, hrun, hrest⟩ :=
          ih d.arrived.length hshorter hreading (hsame.trans hhalf) rfl
        exact ⟨n + 1, rested, (run?_cons hstep _).trans hrun, hrest⟩
      · exact ⟨1, d, run?_cons hstep [], hsame.trans hhalf, .inl hdone⟩

/-! ## What a run tells -/

/-- What holds of a log and the connection after it. -/
structure Exact (settings : Settings) (log : Log) (c : Connection) : Prop where
  -- nothing is lost, doubled or moved between the stream and the callers
  delivered : log.received ++ c.inbound.pending = log.messages
  counted : Counted log.pushes log.drains c.inbound.size
  bounded : c.inbound.size ≤ settings.nuke
  begins : ∃ all rest, Longest settings.maxFrame log.sent all rest ∧ log.messages <+: all
  unconnected : c.readerHalf ≠ .offered → log.pushes = [] ∧ log.reports = []
  -- until the reader has ended
  underway : c.reader ≠ .done →
    Conveys settings.maxFrame log.sent log.messages c.arrived ∧ log.Fits settings ∧ log.reports = []
  opened : c.readerHalf = .offered → c.reader ≠ .done → c.stopping = false ∧ c.state < .closing
  settles : c.reader = .reading → ∃ n d, c.run? (List.replicate n .receive) = some d ∧ d.AtRest
  caughtUp : c.reader = .reading → c.step? .receive = none →
    c.hungUp = false ∧ Incomplete settings.maxFrame c.arrived ∧
      Longest settings.maxFrame log.sent log.messages c.arrived
  -- and after it
  ended : c.reader = .done → c.readerHalf = .offered →
    c.stopping = true ∧ .closing ≤ c.state ∧ Ending settings log c.hungUp

theorem Ending.conveys {hungUp : Bool} (h : Ending settings log hungUp) :
    ∃ rest, Conveys settings.maxFrame log.sent log.messages rest := by
  cases h with
  | overflow _ _ _ hconveys => exact ⟨_, hconveys⟩
  | tooLarge _ hlongest => exact ⟨_, hlongest.conveys⟩
  | malformed _ hlongest => exact ⟨_, hlongest.conveys⟩
  | endOfStream _ _ hlongest => exact ⟨_, hlongest.conveys⟩
  | outage _ hconveys => exact ⟨_, hconveys⟩

theorem Faithful.conveys (h : Faithful settings log c) :
    ∃ rest, Conveys settings.maxFrame log.sent log.messages rest := by
  by_cases hdone : c.reader = .done
  · by_cases hhalf : c.readerHalf = .offered
    · exact (h.ended hdone hhalf).conveys
    · rw [Log.messages, (h.unconnected hhalf).1]
      exact ⟨log.sent, conveys_nil _ _⟩
  · exact ⟨c.arrived, (h.underway hdone).conveys⟩

theorem Faithful.exact (h : Faithful settings log c) (hsteady : Steady c) :
    Exact settings log c where
  delivered := h.delivered
  counted := h.counted
  bounded := h.bounded
  begins := by
    obtain ⟨all, rest, hlongest⟩ := exists_longest settings.maxFrame log.sent
    obtain ⟨after, hconveys⟩ := h.conveys
    exact ⟨all, rest, hlongest, hlongest.longest log.messages after hconveys⟩
  unconnected := h.unconnected
  underway hopen :=
    ⟨(h.underway hopen).conveys, (h.underway hopen).fits, (h.underway hopen).reports⟩
  opened hhalf hopen := by
    have hclear := hsteady.clear (by rw [hhalf]; decide) (fun _ => hopen)
    exact ⟨hclear, hsteady.opened hclear hopen⟩
  settles hreader := exists_run_atRest hreader (hsteady.reading hreader)
  caughtUp hreader hnone := by
    have hunder := h.underway (by rw [hreader]; decide)
    obtain ⟨hfront, hhungUp⟩ := (receive_eq_none_iff hreader).mp hnone
    rw [h.settings_eq] at hfront
    have hrest := next_eq_incomplete_iff.mp hfront
    exact ⟨hhungUp, hrest, longest_of_stuck hunder.conveys (stuck_of_incomplete hrest)⟩
  ended hdone hhalf :=
    ⟨(hsteady.ended hdone hhalf).1, (hsteady.ended hdone hhalf).2, h.ended hdone hhalf⟩

/-! ## Two readers of one stream -/

/-- What becomes of a reader, and what it reports, when no further message stands at the front. -/
def upshot (hungUp : Bool) : Front → Reader × List Error
  | .incomplete => if hungUp then (.done, [.receiveFailed .unexpectedEof]) else (.reading, [])
  | _ => (.done, [])

/-- What a reader has come to if the network has not failed it. -/
inductive Outcome (settings : Settings) (log : Log) (c : Connection) : Prop where
  | complete {rest : Bytes} (hfits : log.Fits settings)
    (hlongest : Longest settings.maxFrame log.sent log.messages rest)
    (hupshot : (c.reader, log.reports) = upshot c.hungUp (next settings.maxFrame rest))
  | cutShort {front : List Push} {last : Push} (hpushes : log.pushes = front ++ [last])
    (hfront : ∀ push ∈ front, push.queued < settings.nuke) (hlast : last.queued = settings.nuke)
    (hreader : c.reader = .done) (hreports : log.reports = [.capacityExceeded settings.nuke])

theorem Exact.outcome (h : Exact settings log c) (hrest : c.AtRest) (houtages : log.outages = []) :
    Outcome settings log c := by
  rcases hrest.rested with hdone | ⟨hreader, hnone⟩
  · obtain ⟨-, -, hending⟩ := h.ended hdone hrest.offered
    cases hending with
    | overflow hpushes hfront hlast hconveys hreports =>
      exact .cutShort hpushes hfront hlast hdone hreports
    | tooLarge hfits hlongest hlimit hreports =>
      refine .complete hfits hlongest ?_
      rw [hdone, next_eq_tooLarge_iff.mpr ⟨rfl, hlimit⟩, hreports]
      rfl
    | malformed hfits hlongest hlength hdecode hreports =>
      refine .complete hfits hlongest ?_
      rw [hdone, next_encode hlength, hreports]
      rfl
    | endOfStream hfits hhungUp hlongest hincomplete hreports =>
      refine .complete hfits hlongest ?_
      rw [hdone, next_eq_incomplete_iff.mpr hincomplete, hreports, hhungUp]
      rfl
    | outage hfits hconveys houtage =>
      rw [houtages] at houtage
      cases houtage
  · obtain ⟨hhungUp, hincomplete, hlongest⟩ := h.caughtUp hreader hnone
    obtain ⟨-, hfits, hreports⟩ := h.underway (by rw [hreader]; decide)
    refine .complete hfits hlongest ?_
    rw [next_eq_incomplete_iff.mpr hincomplete, hreports, hhungUp, hreader]
    rfl

theorem Outcome.of_full {index : Nat} {push : Push} (h : Outcome settings log c)
    (hpush : log.pushes[index]? = some push) (hfull : push.queued = settings.nuke) :
    index + 1 = log.pushes.length ∧ c.reader = .done ∧
      log.reports = [.capacityExceeded settings.nuke] := by
  cases h with
  | complete hfits =>
    have hbelow := hfits push (List.mem_of_getElem? hpush)
    omega
  | @cutShort front last hpushes hfront hlast hreader hreports =>
    refine ⟨?_, hreader, hreports⟩
    have hindex := (List.getElem?_eq_some_iff.mp hpush).1
    rw [hpushes] at hpush hindex ⊢
    rw [List.length_append, List.length_singleton] at hindex ⊢
    by_cases hearly : index < front.length
    · rw [List.getElem?_append_left hearly] at hpush
      have hbelow := hfront push (List.mem_of_getElem? hpush)
      omega
    · omega

variable {settings' : Settings} {log' : Log} {c' : Connection}

theorem Exact.messages_prefix (h : Exact settings log c) (h' : Exact settings' log' c')
    (hlimit : settings'.maxFrame = settings.maxFrame) (hsent : log'.sent = log.sent)
    (hle : log'.messages.length ≤ log.messages.length) : log'.messages <+: log.messages := by
  obtain ⟨all, rest, hlongest, hprefix⟩ := h.begins
  obtain ⟨all', rest', hlongest', hprefix'⟩ := h'.begins
  rw [hlimit, hsent] at hlongest'
  obtain ⟨rfl, -⟩ := hlongest'.unique hlongest
  exact List.prefix_of_prefix_length_le hprefix' hprefix hle

/-- Where callers take at the same points, a mailbox that is full in one run is full in the other. -/
theorem Outcome.cutShort_unique {front : List Push} {last : Push} (h : Exact settings log c)
    (h' : Exact settings' log' c') (houtcome' : Outcome settings' log' c')
    (hlimit : settings'.maxFrame = settings.maxFrame) (hsent : log'.sent = log.sent)
    (hnuke : settings'.nuke = settings.nuke) (hdrains : log'.drains = log.drains)
    (hpushes : log.pushes = front ++ [last]) (hfront : ∀ push ∈ front, push.queued < settings.nuke)
    (hlast : last.queued = settings.nuke) :
    log'.messages = log.messages ∧ c'.reader = .done ∧
      log'.reports = [.capacityExceeded settings.nuke] := by
  have hcounted' := h'.counted
  rw [hdrains] at hcounted'
  have hlength : log.pushes.length = front.length + 1 := by
    rw [hpushes, List.length_append, List.length_singleton]
  have hcount : log.messages.length = log.pushes.length := List.length_map _
  have hcount' : log'.messages.length = log'.pushes.length := List.length_map _
  have hend : log.pushes[front.length]? = some last := by
    rw [hpushes]
    exact List.getElem?_concat_length
  -- the other run gets as far
  have hreach : front.length < log'.pushes.length := by
    apply Classical.byContradiction
    intro hshort
    cases houtcome' with
    | complete hfits' hlongest' =>
      obtain ⟨all, rest, hlongest, hprefix⟩ := h.begins
      rw [hlimit, hsent] at hlongest'
      obtain ⟨rfl, -⟩ := hlongest.unique hlongest'
      have hle := hprefix.length_le
      omega
    | @cutShort front' last' hpushes' hfront' hlast' =>
      have hlength' : log'.pushes.length = front'.length + 1 := by
        rw [hpushes', List.length_append, List.length_singleton]
      have hearly : front'.length < front.length := by omega
      have hend' : log'.pushes[front'.length]? = some last' := by
        rw [hpushes']
        exact List.getElem?_concat_length
      have hpush : log.pushes[front'.length]? = some front[front'.length] := by
        rw [hpushes, List.getElem?_append_left hearly]
        exact List.getElem?_eq_getElem hearly
      have hqueued := h.counted.queued_unique hcounted' hpush hend'
      have hbelow := hfront front[front'.length] (List.getElem_mem hearly)
      omega
  have hpush' := List.getElem?_eq_getElem hreach
  have hqueued := h.counted.queued_unique hcounted' hend hpush'
  have hfull : log'.pushes[front.length].queued = settings'.nuke := by omega
  obtain ⟨hindex, hreader, hreports⟩ := houtcome'.of_full hpush' hfull
  rw [hnuke] at hreports
  refine ⟨?_, hreader, hreports⟩
  exact (h.messages_prefix h' hlimit hsent (by omega)).eq_of_length (by omega)

/-- The runs differ only in how the bytes arrived, or neither filled its mailbox. -/
def Alike (settings settings' : Settings) (log log' : Log) : Prop :=
  log.Fits settings ∧ log'.Fits settings' ∨
    settings'.nuke = settings.nuke ∧ log'.drains = log.drains

theorem Log.Fits.last_lt {front : List Push} {last : Push} (h : log.Fits settings)
    (hpushes : log.pushes = front ++ [last]) : last.queued < settings.nuke := by
  apply h last
  rw [hpushes]
  exact List.mem_append_right front List.mem_cons_self

/-- The stream decides what a reader at rest has done, not the pieces in which it arrived. -/
theorem Exact.unique (h : Exact settings log c) (h' : Exact settings' log' c')
    (houtcome : Outcome settings log c) (houtcome' : Outcome settings' log' c')
    (hlimit : settings'.maxFrame = settings.maxFrame) (hsent : log'.sent = log.sent)
    (hhungUp : c'.hungUp = c.hungUp) (halike : Alike settings settings' log log') :
    log'.messages = log.messages ∧ log'.reports = log.reports ∧ c'.reader = c.reader := by
  cases houtcome with
  | complete hfits hlongest hupshot =>
    cases houtcome' with
    | complete hfits' hlongest' hupshot' =>
      rw [hlimit, hsent] at hlongest'
      obtain ⟨hmessages, rfl⟩ := hlongest'.unique hlongest
      rw [hlimit, hhungUp, ← hupshot] at hupshot'
      obtain ⟨hreader, hreports⟩ := Prod.mk.inj hupshot'
      exact ⟨hmessages, hreports, hreader⟩
    | cutShort hpushes' hfront' hlast' hreader' hreports' =>
      rcases halike with ⟨-, hfits'⟩ | ⟨hnuke, hdrains⟩
      · have hbelow := hfits'.last_lt hpushes'
        omega
      · obtain ⟨hmessages, hreader, hreports⟩ :=
          Outcome.cutShort_unique h' h (.complete hfits hlongest hupshot) hlimit.symm hsent.symm
            hnuke.symm hdrains.symm hpushes' hfront' hlast'
        exact ⟨hmessages.symm, hreports'.trans hreports.symm, hreader'.trans hreader.symm⟩
  | cutShort hpushes hfront hlast hreader hreports =>
    rcases halike with ⟨hfits, -⟩ | ⟨hnuke, hdrains⟩
    · have hbelow := hfits.last_lt hpushes
      omega
    · obtain ⟨hmessages, hreader', hreports'⟩ :=
        Outcome.cutShort_unique h h' houtcome' hlimit hsent hnuke hdrains hpushes hfront hlast
      exact ⟨hmessages, hreports'.trans hreports.symm, hreader'.trans hreader.symm⟩

/-! ## Every run -/

theorem exact_of_run {es : List Event} (hnuke : 1 ≤ settings.nuke)
    (hrun : (new settings).run? es = some c) (hfree : (new settings).Undisturbed es) :
    Exact settings (history settings es) c :=
  ((faithful_new hnuke).run (steady_new settings) hrun hfree).exact
    ((steady_new settings).run hrun hfree)

/-- A run that only the reader ends is exact. Of two such runs over one stream that have come to rest
and differ only in how the bytes arrived, or in when callers took without a mailbox having been full,
both have pushed the same messages and reported the same failures. -/
theorem delivery_exact {settings : Settings} {es : List Event} {c : Connection}
    (hnuke : 1 ≤ settings.nuke) (hrun : (new settings).run? es = some c)
    (hfree : (new settings).Undisturbed es) :
    Exact settings (history settings es) c ∧
      ∀ (settings' : Settings) (es' : List Event) (c' : Connection),
        1 ≤ settings'.nuke → settings'.maxFrame = settings.maxFrame →
        (new settings').run? es' = some c' → (new settings').Undisturbed es' →
        (history settings' es').sent = (history settings es).sent → c'.hungUp = c.hungUp →
        (history settings es).outages = [] → (history settings' es').outages = [] →
        c.AtRest → c'.AtRest →
        Alike settings settings' (history settings es) (history settings' es') →
        (history settings' es').messages = (history settings es).messages ∧
          (history settings' es').reports = (history settings es).reports ∧
          c'.reader = c.reader := by
  have hexact := exact_of_run hnuke hrun hfree
  refine ⟨hexact, ?_⟩
  intro settings' es' c' hnuke' hlimit hrun' hfree' hsent hhungUp houtages houtages' hrest hrest'
    halike
  have hexact' := exact_of_run hnuke' hrun' hfree'
  exact hexact.unique hexact' (hexact.outcome hrest houtages) (hexact'.outcome hrest' houtages')
    hlimit hsent hhungUp halike

/-- Room for one message at a time. -/
def cramped : Settings := { Settings.default with nuke := 2 }

/-- A connection comes up, and the bytes of two frames arrive in pieces, the first two of these
lengths; the callers take what is there in between. -/
def twoFrames (first second : Nat) : List Event :=
  let stream := frameOf .whoIsOnline ++ frameOf .whoIsOnline
  [.start, .dial, .dialSucceeds, .greet, .handOver, .readerBegins, .arrive (stream.take first),
    .arrive ((stream.drop first).take second), .receive, .recv,
    .arrive (stream.drop (first + second)), .receive, .hangUp, .receive]

theorem undisturbed_twoFrames (first second : Nat) :
    (new cramped).Undisturbed (twoFrames first second) :=
  undisturbed_of_forall (by simp [twoFrames, Event.isInterruption]) _

/-- Both frames in one piece, and cut within both headers. -/
theorem delivery_exact_of_twoFrames :
    ∃ c c', (new cramped).run? (twoFrames 16 0) = some c ∧
      (new cramped).run? (twoFrames 3 7) = some c' ∧
      Exact cramped (history cramped (twoFrames 16 0)) c ∧
      (history cramped (twoFrames 3 7)).messages = (history cramped (twoFrames 16 0)).messages ∧
      (history cramped (twoFrames 3 7)).reports = (history cramped (twoFrames 16 0)).reports ∧
      c'.reader = c.reader := by
  have hnuke : 1 ≤ cramped.nuke := by decide
  obtain ⟨c, hrun, hrest, hhungUp⟩ :
      ∃ c, (new cramped).run? (twoFrames 16 0) = some c ∧ c.AtRest ∧ c.hungUp = true :=
    ⟨_, rfl, ⟨rfl, .inl rfl⟩, rfl⟩
  obtain ⟨c', hrun', hrest', hhungUp'⟩ :
      ∃ c, (new cramped).run? (twoFrames 3 7) = some c ∧ c.AtRest ∧ c.hungUp = true :=
    ⟨_, rfl, ⟨rfl, .inl rfl⟩, rfl⟩
  obtain ⟨hexact, hsame⟩ := delivery_exact hnuke hrun (undisturbed_twoFrames 16 0)
  refine ⟨c, c', hrun, hrun', hexact, ?_⟩
  exact hsame cramped (twoFrames 3 7) c' hnuke rfl hrun' (undisturbed_twoFrames 3 7) rfl
    (hhungUp'.trans hhungUp.symm) rfl rfl hrest hrest' (.inr ⟨rfl, rfl⟩)

end RaceSteward.Link.Connection
