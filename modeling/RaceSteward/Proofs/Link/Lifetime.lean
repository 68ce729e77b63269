import RaceSteward.Proofs.Link.Step

/-!
# The life of a connection

A lifetime is a connection together with the states it has published and the calls of start and stop
made of it. Its moves are freer than those of a connection: any party may ask for any state but the
last at any moment, however late, so a call of stop is no longer one piece. Only the end is guarded
as in the connection: the call of stop that found nothing started asks for it, or who has seen all
workers end.

Every run of a connection is a lifetime. In every lifetime the published states ascend, only the
very first call can be a start that succeeds, and a closed connection has no worker and stays closed
(`Lifetime.orderly_of_leads`).
-/

namespace RaceSteward.Link

open Connection (Event Step start_of_not_idle)

theorem State.not_closed_lt (s : State) : ¬ State.closed < s := by
  cases s <;> decide

theorem Connection.state_start (c : Connection) : c.start.2.state = c.state := by
  unfold Connection.start
  split <;> rfl

/-- A call made of a connection, and what a start answered. -/
inductive Call where
  | start (result : Except Error Unit)
  | stop

structure Lifetime where
  connection : Connection
  /-- The states that could be seen, oldest first. -/
  published : List State
  /-- The calls, oldest first. -/
  calls : List Call

/-- A worker stays where it is; or it is at work, and moves on. -/
def MovesOn {α : Type} (absent done before after : α) : Prop :=
  after = before ∨ before ≠ absent ∧ before ≠ done ∧ after ≠ absent

theorem MovesOn.of_absent {α : Type} {absent done after : α}
    (h : MovesOn absent done absent after) : after = absent :=
  h.resolve_right fun hworks => hworks.1 rfl

theorem MovesOn.of_done {α : Type} {absent done after : α}
    (h : MovesOn absent done done after) : after = done :=
  h.resolve_right fun hworks => hworks.2.1 rfl

namespace Connection

/-- Anything may change but the state and what callers have done, and no worker appears or comes
back. -/
structure Works (c d : Connection) : Prop where
  state : d.state = c.state
  lifecycle : d.lifecycle = c.lifecycle
  dialler : MovesOn .absent .done c.dialler d.dialler
  writer : MovesOn .absent .done c.writer d.writer
  reader : MovesOn .absent .done c.reader d.reader

def AllAbsent (c : Connection) : Prop :=
  c.dialler = .absent ∧ c.writer = .absent ∧ c.reader = .absent

def AllDone (c : Connection) : Prop :=
  c.dialler = .done ∧ c.writer = .done ∧ c.reader = .done

theorem Works.allAbsent {c d : Connection} (h : Works c d) (habsent : c.AllAbsent) :
    d.AllAbsent := by
  obtain ⟨hstate, hlifecycle, hdialler, hwriter, hreader⟩ := h
  rw [habsent.1] at hdialler
  rw [habsent.2.1] at hwriter
  rw [habsent.2.2] at hreader
  exact ⟨hdialler.of_absent, hwriter.of_absent, hreader.of_absent⟩

theorem Works.allDone {c d : Connection} (h : Works c d) (hdone : c.AllDone) : d.AllDone := by
  obtain ⟨hstate, hlifecycle, hdialler, hwriter, hreader⟩ := h
  rw [hdone.1] at hdialler
  rw [hdone.2.1] at hwriter
  rw [hdone.2.2] at hreader
  exact ⟨hdialler.of_done, hwriter.of_done, hreader.of_done⟩

end Connection

namespace Lifetime

def new (settings : Settings) : Lifetime := ⟨.new settings, [.disconnected], []⟩

/-- Somebody asks for a state. It is taken, and published, only if it lies ahead. -/
def ask (l : Lifetime) (next : State) : Lifetime :=
  { l with
    connection := l.connection.advance next
    published := if l.connection.state < next then l.published ++ [next] else l.published }

inductive Move (l : Lifetime) : Lifetime → Prop where
  | start : Move l { l with
      connection := l.connection.start.2, calls := l.calls ++ [.start l.connection.start.1] }
  /-- A call of stop begins; what it asks for comes later. -/
  | stop : Move l { l with
      connection := { l.connection with lifecycle := .stopped }, calls := l.calls ++ [.stop] }
  /-- Anybody asks for a state, early or late. -/
  | ask (next : State) (hnext : next ≠ .closed) : Move l (l.ask next)
  /-- The call of stop that found nothing started asks for the end. -/
  | close (hfirst : l.calls.head? = some .stop) : Move l (l.ask .closed)
  /-- All workers have ended. -/
  | retire (hdone : l.connection.AllDone) : Move l (l.ask .closed)
  | work {c : Connection} (hworks : l.connection.Works c) : Move l { l with connection := c }

/-- One lifetime leads to another by some moves. -/
inductive Leads (l : Lifetime) : Lifetime → Prop where
  | refl : Leads l l
  | move {m n : Lifetime} (h : Leads l m) (hmove : Move m n) : Leads l n

/-! ## The lifetime of a run -/

/-- The states that an event asks for, in order. -/
def asks (c : Connection) (e : Event) (d : Connection) : List State :=
  match e with
  | .dial => [.connecting]
  | .dialSucceeds => [.connected]
  | .dialFails _ => [.closing]
  | .writeFails _ => [.closing]
  | .readFails _ => [.closing]
  | .receive => if d.reader = .done then [.closing] else []
  | .stop => if c.lifecycle = .idle then [.closing, .closed] else [.closing]
  | .retire => [.closed]
  | _ => []

/-- The call that an event is. -/
def call? (c : Connection) : Event → Option Call
  | .start => some (.start c.start.1)
  | .stop => some .stop
  | _ => none

/-- What is published when states are asked for one after another. -/
def publish (current : State) (published : List State) : List State → List State
  | [] => published
  | next :: later =>
    publish (current.advance next) (if current < next then published ++ [next] else published) later

/-- The lifetime after an event. -/
def note (l : Lifetime) (c : Connection) (e : Event) (d : Connection) : Lifetime where
  connection := d
  published := publish c.state l.published (asks c e d)
  calls := l.calls ++ (call? c e).toList

/-- The lifetime after a run of its connection. -/
def follow (l : Lifetime) (es : List Event) : Lifetime :=
  Connection.accumulate note l l.connection es

/-! ## Who asks -/

variable {settings : Settings} {l m n : Lifetime} {c d : Connection}

theorem Leads.trans (h : Leads l m) (h' : Leads m n) : Leads l n := by
  induction h' with
  | refl => exact h
  | move _ hmove ih => exact .move ih hmove

theorem foldl_ask (states : List State) (l : Lifetime) :
    states.foldl ask l =
      { l with
        connection := { l.connection with
          state := states.foldl State.advance l.connection.state }
        published := publish l.connection.state l.published states } := by
  induction states generalizing l with
  | nil => rfl
  | cons next states ih => exact ih (l.ask next)

theorem leads_foldl_ask {states : List State} (hstates : .closed ∉ states) (l : Lifetime) :
    Leads l (states.foldl ask l) := by
  induction states generalizing l with
  | nil => exact .refl
  | cons next states ih =>
    rw [List.mem_cons, not_or] at hstates
    exact Leads.trans (.move .refl (.ask next (Ne.symm hstates.1))) (ih hstates.2 (l.ask next))

/-! ## What a lifetime keeps -/

/-- A start that is the very first call succeeds, every other start is refused. -/
def Answers (calls : List Call) : Prop :=
  ∀ before result after, calls = before ++ .start result :: after →
    result = if before.isEmpty then .ok () else .error .alreadyStarted

/-- No worker has been set going. -/
def Unstarted (calls : List Call) : Prop :=
  ∀ result, .start result ∈ calls → result = .error .alreadyStarted

/-- What ties the calls, the workers and the states of a lifetime to each other. -/
structure Tied (l : Lifetime) : Prop where
  increasing : l.published.Pairwise (· < ·)
  first : l.published.head? = some .disconnected
  last : l.published.getLast? = some l.connection.state
  idle : l.connection.lifecycle = .idle ↔ l.calls = []
  answers : Answers l.calls
  absent : Unstarted l.calls → l.connection.AllAbsent
  closed : l.connection.state = .closed →
    l.calls ≠ [] ∧ (Unstarted l.calls ∨ l.connection.AllDone)

theorem Answers.append {calls : List Call} (h : Answers calls) (call : Call)
    (hcall : ∀ result, call = .start result →
      result = if calls.isEmpty then .ok () else .error .alreadyStarted) :
    Answers (calls ++ [call]) := by
  intro before result after heq
  rcases List.eq_nil_or_concat after with rfl | ⟨shorter, last, rfl⟩
  · obtain ⟨rfl, hsame⟩ := List.append_inj' heq rfl
    exact hcall result (List.cons.inj hsame).1
  · rw [List.concat_eq_append, ← List.cons_append, ← List.append_assoc] at heq
    exact h before result shorter (List.append_inj' heq rfl).1

theorem le_last {states : List State} {s t : State} (hasc : states.Pairwise (· < ·))
    (hlast : states.getLast? = some s) (ht : t ∈ states) : t ≤ s := by
  obtain ⟨front, rfl⟩ := List.getLast?_eq_some_iff.mp hlast
  rcases List.mem_append.mp ht with ht | ht
  · have hlt : t < s := (List.pairwise_append.mp hasc).2.2 t ht s (List.mem_singleton.mpr rfl)
    exact Nat.le_of_lt hlt
  · cases List.mem_singleton.mp ht
    exact Nat.le_refl _

theorem tied_new (settings : Settings) : Tied (new settings) where
  increasing := List.pairwise_singleton ..
  first := rfl
  last := rfl
  idle := iff_of_true rfl rfl
  answers before result after heq := by simp [new] at heq
  absent _ := ⟨rfl, rfl, rfl⟩
  closed h := by cases h

theorem Tied.ask {next : State} (h : Tied l)
    (hclosed : next = .closed → l.calls ≠ [] ∧ (Unstarted l.calls ∨ l.connection.AllDone)) :
    Tied (l.ask next) := by
  by_cases hahead : l.connection.state < next
  · have hpublished : (l.ask next).published = l.published ++ [next] := if_pos hahead
    have hstate : (l.ask next).connection.state = next := if_pos hahead
    refine { h with increasing := ?_, first := ?_, last := ?_, closed := ?_ }
    · rw [hpublished, List.pairwise_append]
      refine ⟨h.increasing, List.pairwise_singleton .., ?_⟩
      intro s hs t ht
      cases List.mem_singleton.mp ht
      exact Nat.lt_of_le_of_lt (le_last h.increasing h.last hs) hahead
    · rw [hpublished, List.head?_append, h.first]
      rfl
    · rw [hpublished, hstate, List.getLast?_concat]
    · rw [hstate]
      exact hclosed
  · have hsame : l.ask next = l := by
      unfold Lifetime.ask Connection.advance State.advance
      rw [if_neg hahead, if_neg hahead]
    rw [hsame]
    exact h

theorem Tied.call (h : Tied l) (call : Call) {lifecycle : Lifecycle}
    (hlifecycle : lifecycle ≠ .idle) (hanswers : Answers (l.calls ++ [call]))
    (hcall : call = .stop ∨ call = .start (.error .alreadyStarted)) :
    Tied { l with
      connection := { l.connection with lifecycle := lifecycle }, calls := l.calls ++ [call] } := by
  have hunstarted : Unstarted (l.calls ++ [call]) ↔ Unstarted l.calls := by
    constructor
    · exact fun hnever result hmem => hnever result (List.mem_append_left _ hmem)
    · intro hnever result hmem
      rcases List.mem_append.mp hmem with hmem | hmem
      · exact hnever result hmem
      · rcases hcall with rfl | rfl <;> simp_all
  exact { h with
    idle := iff_of_false hlifecycle (by simp)
    answers := hanswers
    absent := fun hnone => h.absent (hunstarted.mp hnone)
    closed := fun hstate =>
      ⟨by simp, (h.closed hstate).2.imp_left hunstarted.mpr⟩ }

theorem Tied.start (h : Tied l) : Tied { l with
    connection := l.connection.start.2, calls := l.calls ++ [.start l.connection.start.1] } := by
  by_cases hidle : l.connection.lifecycle = .idle
  · have hnone := h.idle.mp hidle
    rw [Connection.start, hidle, hnone]
    have hanswers : Answers [.start (.ok ())] := by
      intro before result after heq
      rcases before with _ | ⟨call, before⟩ <;> simp_all
    have hstarted : ¬ Unstarted [.start (.ok ())] := by
      intro hnever
      simpa using hnever (.ok ())
    exact { h with
      idle := iff_of_false (by simp) (by simp)
      answers := hanswers
      absent := fun hnever => absurd hnever hstarted
      closed := fun hstate => absurd hnone (h.closed hstate).1 }
  · have hsome : l.calls ≠ [] := fun hnone => hidle (h.idle.mpr hnone)
    rw [start_of_not_idle hidle]
    exact h.call _ hidle (h.answers.append _ (by simp [hsome])) (.inr rfl)

theorem Tied.move (h : Tied l) (hmove : Move l m) : Tied m := by
  cases hmove with
  | start => exact h.start
  | stop => exact h.call _ nofun (h.answers.append _ nofun) (.inl rfl)
  | ask next hnext => exact h.ask fun heq => absurd heq hnext
  | close hfirst =>
    refine h.ask fun _ => ⟨by rintro hnone; simp [hnone] at hfirst, .inl ?_⟩
    -- a start after the first call does not succeed
    intro result hmem
    obtain ⟨before, after, hcalls⟩ := List.append_of_mem hmem
    rcases before with _ | ⟨call, before⟩
    · simp [hcalls] at hfirst
    · simpa using h.answers _ _ _ hcalls
  | retire hdone =>
    refine h.ask fun _ => ⟨?_, .inr hdone⟩
    intro hnone
    have habsent := h.absent (by simp [hnone, Unstarted])
    exact absurd (habsent.1.symm.trans hdone.1) nofun
  | work hworks =>
    exact { h with
      last := by rw [hworks.state]; exact h.last
      idle := by rw [hworks.lifecycle]; exact h.idle
      absent := fun hnever => hworks.allAbsent (h.absent hnever)
      closed := fun hclosed => by
        rw [hworks.state] at hclosed
        exact (h.closed hclosed).imp_right (·.imp_right hworks.allDone) }

theorem Tied.leads (h : Tied l) (hleads : Leads l m) : Tied m := by
  induction hleads with
  | refl => exact h
  | move _ hmove ih => exact ih.move hmove

/-! ## A run is a lifetime -/

/-- The connection once an event has asked for its states. -/
def asked (c : Connection) (e : Event) (d : Connection) : Connection :=
  { c with state := (asks c e d).foldl State.advance c.state }

theorem begin_ne_absent (batch : List Message) : Writer.begin batch ≠ .absent := by
  cases batch <;> nofun

theorem accept_writer_ne_absent (c : Connection) (n : Nat) (frame : Bytes) (batch : List Message) :
    (c.accept n frame batch).writer ≠ .absent := by
  dsimp only [Connection.accept]
  split
  · exact begin_ne_absent batch
  · nofun

theorem works_of_step {e : Event} (hstep : Step c e d) (hstart : e ≠ .start) (hstop : e ≠ .stop) :
    (asked c e d).Works d := by
  cases hstep with
  | start | startRefused => exact absurd rfl hstart
  | stopIdle | stopRunning | stopAgain => exact absurd rfl hstop
  | dial hdialler | dialSucceeds hdialler | dialAbandoned hdialler | dialFails hdialler
  | greet hdialler | greetOverflow hdialler | handOver hdialler | handOverWriter hdialler
  | handOverNone hdialler =>
    refine ⟨rfl, rfl, .inr ?_, .inl rfl, .inl rfl⟩
    simp [asked, hdialler, Connection.endDialler, Connection.report, Connection.beginStop,
      Connection.advance]
  | writerBegins hwriter | writerLeaves hwriter | tick hwriter | tickStops hwriter
  | writeFails hwriter =>
    refine ⟨rfl, rfl, .inl rfl, .inr ?_, .inl rfl⟩
    simp [asked, hwriter, Connection.report, Connection.beginStop, Connection.advance]
  | collect hwriter =>
    have hbegin := begin_ne_absent c.outbound.pending
    refine ⟨rfl, rfl, .inl rfl, .inr ?_, .inl rfl⟩
    simp [asked, hwriter, hbegin]
  | @accept n frame batch hwriter =>
    have haccept := accept_writer_ne_absent c n frame batch
    refine ⟨rfl, rfl, .inl rfl, .inr ?_, .inl rfl⟩
    simp [asked, hwriter, haccept]
  | readerBegins hreader | readerLeaves hreader | readerStops hreader =>
    refine ⟨rfl, rfl, .inl rfl, .inl rfl, .inr ?_⟩
    simp [asked, hreader]
  | receive hreader =>
    refine ⟨?_, rfl, .inl rfl, .inl rfl, .inl rfl⟩
    simp [asked, asks, hreader]
  | receiveOverflow hreader | receiveMalformed hreader | receiveTooLarge hreader
  | receiveEnd hreader | readFails hreader =>
    rw [Connection.failReading_eq]
    refine ⟨rfl, rfl, .inl rfl, .inl rfl, .inr ?_⟩
    simp [asked, hreader]
  | _ => exact ⟨rfl, rfl, .inl rfl, .inl rfl, .inl rfl⟩

theorem leads_note_start (l : Lifetime) (hstep : Step l.connection .start d) :
    Leads l (note l l.connection .start d) := by
  have hd : d = l.connection.start.2 := by
    cases hstep with
    | start hidle => rw [Connection.start, hidle]
    | startRefused hidle => rw [start_of_not_idle hidle]
  rw [hd]
  exact .move .refl .start

theorem leads_note_stop (htied : Tied l) (hstep : Step l.connection .stop d) :
    Leads l (note l l.connection .stop d) := by
  have hstop : Leads l { l with
      connection := { l.connection with lifecycle := .stopped }, calls := l.calls ++ [.stop] } :=
    .move .refl .stop
  have hclosing := hstop.move (.ask .closing nofun)
  cases hstep with
  | stopIdle hidle =>
    have hclosed := hclosing.move (.close (by rw [htied.idle.mp hidle]; rfl))
    rw [note, asks, if_pos hidle]
    exact hclosed.move (.work ⟨rfl, rfl, .inl rfl, .inl rfl, .inl rfl⟩)
  | stopRunning hrunning =>
    rw [note, asks, if_neg (by rw [hrunning]; decide)]
    exact hclosing.move (.work ⟨rfl, rfl, .inl rfl, .inl rfl, .inl rfl⟩)
  | stopAgain hstopped =>
    rw [note, asks, if_neg (by rw [hstopped]; decide)]
    exact hclosing.move (.work ⟨rfl, rfl, .inl rfl, .inl rfl, .inl rfl⟩)

/-- What any other event asks for is asked for before it works, the end by who has seen all workers
end. -/
theorem leads_note_work {e : Event} (hstep : Step l.connection e d) (hstart : e ≠ .start)
    (hstop : e ≠ .stop) : Leads l (note l l.connection e d) := by
  have hworks := works_of_step hstep hstart hstop
  have hcalls : call? l.connection e = none := by
    cases e <;> first | rfl | exact absurd rfl hstart | exact absurd rfl hstop
  have hasked : Leads l ((asks l.connection e d).foldl ask l) := by
    by_cases hretire : e = .retire
    · subst hretire
      cases hstep with
      | retire hdialler hwriter hreader =>
        exact .move .refl (.retire ⟨hdialler, hwriter, hreader⟩)
    · refine leads_foldl_ask ?_ l
      cases e <;> simp_all [asks]
  rw [foldl_ask] at hasked
  rw [note, hcalls, Option.toList_none, List.append_nil]
  exact hasked.move (.work hworks)

theorem leads_note {e : Event} (htied : Tied l) (hstep : Step l.connection e d) :
    Leads l (note l l.connection e d) := by
  by_cases hstart : e = .start
  · subst hstart
    exact leads_note_start l hstep
  · by_cases hstop : e = .stop
    · subst hstop
      exact leads_note_stop htied hstep
    · exact leads_note_work hstep hstart hstop

theorem Tied.leads_follow {es : List Event} (h : Tied l) (hrun : l.connection.run? es = some d) :
    Leads l (l.follow es) ∧ (l.follow es).connection = d := by
  refine Connection.accumulate_keeps (f := note)
    (P := fun m c => Leads l m ∧ m.connection = c) ?_ ⟨.refl, rfl⟩ hrun
  rintro m c e d ⟨hleads, rfl⟩ hstep
  exact ⟨hleads.trans (leads_note (h.leads hleads) hstep), rfl⟩

/-! ## Orderly lives -/

/-- The states ascend, the first call decides whether workers ever run, and a connection that has
closed has none. -/
structure Orderly (l : Lifetime) : Prop where
  increasing : l.published.Pairwise (· < ·)
  first : l.published.head? = some .disconnected
  last : l.published.getLast? = some l.connection.state
  answers : Answers l.calls
  accepted : l.calls = [] → l.connection.start.1 = .ok ()
  refused : l.calls ≠ [] → l.connection.start = (.error .alreadyStarted, l.connection)
  closed : .closed ∈ l.published →
    (.start (.ok ()) ∉ l.calls ∧ l.connection.AllAbsent) ∨ l.connection.AllDone

theorem Tied.state_of_closed (h : Tied l) (hclosed : .closed ∈ l.published) :
    l.connection.state = .closed := by
  have hle := le_last h.increasing h.last hclosed
  have hlt := State.not_closed_lt l.connection.state
  exact (State.rank_inj.mp (Nat.le_antisymm hle (Nat.not_lt.mp hlt))).symm

theorem Tied.orderly (h : Tied l) : Orderly l := by
  refine { h with accepted := ?_, refused := ?_, closed := ?_ }
  · intro hnone
    rw [Connection.start, h.idle.mpr hnone]
  · intro hsome
    exact start_of_not_idle fun hidle => hsome (h.idle.mp hidle)
  · intro hclosed
    rcases (h.closed (h.state_of_closed hclosed)).2 with hnever | hdone
    · exact .inl ⟨fun hmem => by simpa using hnever _ hmem, h.absent hnever⟩
    · exact .inr hdone

theorem Leads.published_of_closed (h : Leads l m) (hclosed : l.connection.state = .closed) :
    m.published = l.published ∧ m.connection.state = .closed := by
  induction h with
  | refl => exact ⟨rfl, hclosed⟩
  | @move m n _ hmove ih =>
    obtain ⟨hpublished, hstate⟩ := ih
    have hask (next : State) : (m.ask next).published = l.published ∧
        (m.ask next).connection.state = .closed := by
      refine ⟨(if_neg ?_).trans hpublished, ?_⟩
      · rw [hstate]
        exact State.not_closed_lt next
      · show m.connection.state.advance next = .closed
        rw [hstate, State.closed_advance]
    cases hmove with
    | start =>
      refine ⟨hpublished, ?_⟩
      dsimp only
      rw [Connection.state_start, hstate]
    | stop => exact ⟨hpublished, hstate⟩
    | ask | close | retire => exact hask _
    | work hworks => exact ⟨hpublished, hworks.state.trans hstate⟩

/-- Whatever a connection does, early or late, leads from one lifetime to another; every lifetime is
orderly; and once closed, it publishes nothing more. -/
theorem orderly_of_leads (settings : Settings) (l : Lifetime) (h : Leads (new settings) l) :
    (∀ es c, l.connection.run? es = some c → Leads l (l.follow es) ∧ (l.follow es).connection = c) ∧
      Orderly l ∧
      (.closed ∈ l.published → ∀ m, Leads l m →
        m.published = l.published ∧ m.connection.state = .closed) := by
  have htied := (tied_new settings).leads h
  exact ⟨fun es c hrun => htied.leads_follow hrun, htied.orderly,
    fun hclosed m hleads => hleads.published_of_closed (htied.state_of_closed hclosed)⟩

/-- A dialler that gets through after a call of stop asks too late, and so does anybody who asks
once all workers have ended. -/
theorem orderly_of_leads_stopped :
    ∃ l, Leads (new .default) l ∧
      l.published = [.disconnected, .connecting, .closing, .closed] ∧ Orderly l ∧
      (l.ask .connected).published = l.published := by
  let es : List Event := [.start, .dial, .stop, .dialSucceeds, .greet, .handOver, .writerLeaves,
    .readerLeaves, .retire, .start]
  obtain ⟨c, hrun⟩ : ∃ c, (Connection.new .default).run? es = some c := ⟨_, rfl⟩
  have hleads := ((orderly_of_leads .default (new .default) .refl).1 es c hrun).1
  obtain ⟨-, horderly, hend⟩ := orderly_of_leads .default _ hleads
  have hpublished : ((new .default).follow es).published =
      [.disconnected, .connecting, .closing, .closed] := rfl
  have hlate := hend (by rw [hpublished]; decide) _ (.move .refl (.ask .connected nofun))
  exact ⟨_, hleads, hpublished, horderly, hlate.1⟩

end Lifetime

end RaceSteward.Link
