import RaceSteward.Proofs.Bot.Chronicle
import RaceSteward.Proofs.Bot.Parts
import RaceSteward.Proofs.Link.Outgoing

/-!
# The minutes of a bot

What has been put into the outbound mailbox, and by whom; the orders given to race control, and by
whom; and the scripts of the countdowns begun. `Bot.recorded_of_run` says that the minutes are
complete: their messages are those that callers have stored, their orders those that race control
has applied and those still queued.
-/

namespace RaceSteward

open Console (Command)
open Link (Connection)

/-- The orders that steps of race control apply, in order. -/
def RaceControl.applied (steps : List RaceControl.Step) : List Order :=
  steps.filterMap fun
    | .apply o => some o
    | _ => none

/-- What an event puts into the outbound mailbox; a full one takes nothing. -/
def Link.Connection.stores (c : Connection) : Connection.Event → List Message
  | .sendBatch batch => if c.outbound.isFull then [] else batch
  | _ => []

namespace Bot

/-- Who puts a message into the outbound mailbox. -/
inductive Source where
  | console
  /-- A countdown, by its place among all countdowns. -/
  | countdown (i : Nat)
  /-- Race control, when it applies this order. -/
  | order (d : Dispatch)
  /-- Race control, when it routes a message. -/
  | routed
  deriving DecidableEq, Repr

structure Entry where
  source : Source
  message : Message
  deriving DecidableEq, Repr

/-- The lines among these entries that a countdown has put in, in order. -/
def linesBy (entries : List Entry) (i : Nat) : List Message :=
  (entries.filter (·.source = .countdown i)).map (·.message)

structure Minutes where
  /-- What has been put into the outbound mailbox, in order. -/
  said : List Entry
  /-- The orders that race control has applied, oldest first. -/
  applied : List Dispatch
  /-- The orders still queued, oldest first. -/
  inFlight : List Dispatch
  /-- The scripts of the countdowns, in the order in which they began. -/
  scripts : List (List String)

/-- What an event of the bot puts into the outbound mailbox. -/
def storedBy (b : Bot) (e : Event) : List Message :=
  (linkEvents b e).flatMap b.connection.stores

/-- The script of the countdown that an event begins. -/
def begins : Event → List (List String)
  | .execute command => command.script?.toList
  | _ => []

namespace Minutes

def empty : Minutes := ⟨[], [], [], []⟩

/-- The orders given, oldest first. -/
def given (m : Minutes) : List Dispatch :=
  m.applied ++ m.inFlight

/-- A countdown has given its order. -/
def Armed (m : Minutes) (i : Nat) : Prop :=
  ∃ epoch, .start i epoch ∈ m.given

/-- Race control has said something because of a countdown's order. -/
def Heard (m : Minutes) (i : Nat) : Prop :=
  ∃ x ∈ m.said, ∃ epoch, x.source = .order (.start i epoch)

/-- Who speaks in an event. -/
def speaker (m : Minutes) (b : Bot) : Event → Source
  | .speak i => .countdown i
  | .loop =>
    match b.loop, m.inFlight with
    | .ordering, d :: _ => .order d
    | _, _ => .routed
  | _ => .console

def note (m : Minutes) (b : Bot) (e : Event) (_ : Bot) : Minutes where
  said := m.said ++ (storedBy b e).map (⟨m.speaker b e, ·⟩)
  applied := m.applied ++ m.inFlight.take (applies b e)
  inFlight := m.inFlight.drop (applies b e) ++ gives b e
  scripts := m.scripts ++ begins e

end Minutes

/-- The minutes of a run. -/
def minutes (config : Config) (es : List Event) : Minutes :=
  accumulate Minutes.note .empty (.new config) es

/-! ## What an event stores -/

variable {config : Config} {b d : Bot} {e : Event} {m : Minutes} {i : Nat}

theorem storedBy_issueEvents (b : Bot) (sent : List Message) :
    (issueEvents b.connection sent).flatMap b.connection.stores =
      if b.connection.outbound.isFull then [] else sent := by
  unfold issueEvents
  rcases sent with _ | ⟨first, sent⟩
  · simp
  · rcases (b.connection.sendBatch (first :: sent)).1 with _ | _ <;> simp [Connection.stores]

theorem storedBy_execute {command : Command} :
    storedBy b (.execute command) =
      if b.connection.outbound.isFull then [] else command.message?.toList := by
  cases hmessage : command.message? <;> simp [storedBy, linkEvents, hmessage, Connection.stores]

theorem storedBy_speak {t : Countdown} {line : String} {rest : List String}
    (ht : b.countdowns[i]? = some t) (hscript : t.script = line :: rest) :
    storedBy b (.speak i) = if b.connection.outbound.isFull then [] else [.broadcast line] := by
  simp [storedBy, linkEvents, ht, hscript, Connection.stores]

theorem storedBy_apply {o : Order} {orders : List Order} (hloop : b.loop = .ordering)
    (horders : b.orders = o :: orders) :
    storedBy b .loop = if b.connection.outbound.isFull then [] else (b.control.apply o).1.sent := by
  rw [← storedBy_issueEvents]
  simp [storedBy, linkEvents, loopEvents, hloop, horders]

theorem storedBy_route {first : Message} {batch : List Message}
    (hloop : b.loop = .routing (first :: batch)) :
    storedBy b .loop =
      if b.connection.outbound.isFull then [] else (b.control.route first).1.sent := by
  rw [← storedBy_issueEvents]
  simp [storedBy, linkEvents, loopEvents, hloop]

theorem tail_issueEvents (c : Connection) (sent : List Message) :
    ∀ x ∈ (issueEvents c sent).tail, x = .stop := by
  unfold issueEvents
  split
  · simp
  · split <;> simp

theorem tail_linkEvents (b : Bot) (e : Event) : ∀ x ∈ (linkEvents b e).tail, x = .stop := by
  cases e with
  | execute command => cases hm : command.message? <;> simp [linkEvents, hm]
  | speak i =>
    rcases ht : b.countdowns[i]? with _ | ⟨_ | _, _, _, _⟩ <;> simp [linkEvents, ht]
  | loop =>
    rw [linkEvents, loopEvents]
    split
    · simp
    · split <;> simp
    · rcases b.orders with _ | ⟨o, orders⟩
      · simp
      · simpa using tail_issueEvents b.connection (b.control.apply o).1.sent
    · simp
    · rename_i batch _
      rcases batch with _ | ⟨first, batch⟩
      · simp
      · simpa using tail_issueEvents b.connection (b.control.route first).1.sent
    · split <;> simp
    · simp
  | _ => simp [linkEvents]

theorem stored_note {c c' : Connection} {x : Connection.Event} (out : Connection.Outgoing) :
    (out.note c x c').stored = out.stored ++ c.stores x := by
  cases x with
  | sendBatch batch => rfl
  | accept n =>
    show _ = out.stored ++ []
    rw [List.append_nil, Connection.Outgoing.note]
    split
    · split <;> rfl
    · rfl
  | _ => exact (List.append_nil _).symm

theorem stored_accumulate_stops {es : List Connection.Event} (hes : ∀ x ∈ es, x = .stop)
    (out : Connection.Outgoing) (c : Connection) :
    (Connection.accumulate Connection.Outgoing.note out c es).stored = out.stored := by
  induction es generalizing out c with
  | nil => rfl
  | cons x es ih =>
    rw [List.forall_mem_cons] at hes
    obtain ⟨rfl, hes⟩ := hes
    exact ih hes out c.stop

theorem stored_of_step (h : Step b e d) (out : Connection.Outgoing) :
    (Connection.accumulate Connection.Outgoing.note out b.connection (linkEvents b e)).stored =
      out.stored ++ storedBy b e := by
  have hrun := run_linkEvents h
  have htail := tail_linkEvents b e
  rw [storedBy]
  rcases hevents : linkEvents b e with _ | ⟨x, later⟩
  · simp [Connection.accumulate]
  · rw [hevents] at hrun htail
    rw [List.tail_cons] at htail
    obtain ⟨next, hnext, -⟩ := Option.bind_eq_some_iff.mp hrun
    have hlater : later.flatMap b.connection.stores = [] := by
      rw [List.flatMap_eq_nil_iff]
      intro y hy
      rw [htail y hy]
      rfl
    rw [Connection.accumulate, hnext, List.flatMap_cons, hlater, List.append_nil]
    exact (stored_accumulate_stops htail _ next).trans (stored_note out)

/-! ## What an event adds -/

theorem speaker_eq_countdown_iff : m.speaker b e = .countdown i ↔ e = .speak i := by
  cases e with
  | loop =>
    rw [Minutes.speaker]
    split <;> simp
  | _ => simp [Minutes.speaker]

theorem applies_of_speaker {order : Dispatch} (h : m.speaker b e = .order order) :
    e = .loop ∧ b.loop = .ordering ∧ ∃ rest, m.inFlight = order :: rest := by
  cases e with
  | loop =>
    rw [Minutes.speaker] at h
    split at h
    · rename_i rest hloop hflight
      cases h
      exact ⟨rfl, hloop, rest, hflight⟩
    · cases h
  | _ => cases h

theorem linesBy_append (entries more : List Entry) (i : Nat) :
    linesBy (entries ++ more) i = linesBy entries i ++ linesBy more i := by
  simp [linesBy]

theorem linesBy_note :
    linesBy (m.note b e d).said i =
      linesBy m.said i ++ if e = .speak i then storedBy b e else [] := by
  rw [Minutes.note, linesBy_append]
  congr 1
  by_cases hspeak : e = .speak i
  · simp [linesBy, hspeak, Minutes.speaker, List.filter_map, Function.comp_def]
  · have hother : m.speaker b e ≠ .countdown i := fun h => hspeak (speaker_eq_countdown_iff.mp h)
    simp [linesBy, hspeak, hother, List.filter_map, Function.comp_def]

theorem given_note : (m.note b e d).given = m.given ++ gives b e := by
  rw [Minutes.given, Minutes.given, Minutes.note, ← List.append_assoc, List.append_assoc m.applied,
    List.take_append_drop]

theorem gives_start {epoch : Nat} (h : .start i epoch ∈ gives b e) :
    e = .arm i ∧ ∃ t, b.countdowns[i]? = some t ∧ t.epoch = epoch := by
  unfold gives at h
  split at h
  · cases h
  · split at h
    · simp at h
    · rename_i j
      obtain ⟨t, ht, htake⟩ := List.mem_map.mp h
      cases htake
      exact ⟨rfl, t, by simpa using ht, rfl⟩
    · cases h

theorem armed_of_note (h : (m.note b e d).Armed i) : m.Armed i ∨ e = .arm i := by
  obtain ⟨epoch, h⟩ := h
  rw [given_note] at h
  rcases List.mem_append.mp h with h | h
  · exact .inl ⟨epoch, h⟩
  · exact .inr (gives_start h).1

/-! ## The minutes are complete -/

theorem orders_of_step (h : Step b e d) :
    d.orders = b.orders.drop (applies b e) ++ (gives b e).map (·.order) := by
  -- a loop that is over applies nothing and takes no order
  cases h with
  | say hmessage => simp [applies, gives_execute (Command.ne_finish_of_message? hmessage)]
  | begin hscript =>
    simp [applies, gives_execute (Command.ne_finish_of_script? hscript), beginCountdown]
  | reply _ _ hfinish => simp [applies, gives_execute hfinish]
  | finish =>
    by_cases hfinished : b.loop.isFinished = true <;>
      simp [applies, gives, ordersWith, hfinished, Dispatch.order]
  | arm ht =>
    by_cases hfinished : b.loop.isFinished = true <;>
      simp [applies, gives, ordersWith, hfinished, Dispatch.order, ht, setCountdown]
  | apply hloop horders => simp [applies, gives, hloop, horders, Loop.isFinished]
  | ordered hloop horders => simp [applies, gives, hloop, horders, Loop.isFinished]
  | route hloop => simp [applies, gives, hloop]
  | loopBegins hloop | loopRefused hloop | loopStops hloop | tick hloop | collect hloop
  | routed hloop | looksClosed hloop | looksOpen hloop | loopEnds hloop =>
    simp [applies, gives, hloop, leave]
  | _ => simp [applies, gives, setCountdown]

theorem inFlight_note (h : m.inFlight.map (·.order) = b.orders) (hstep : Step b e d) :
    (m.note b e d).inFlight.map (·.order) = d.orders := by
  rw [orders_of_step hstep, Minutes.note, List.map_append, List.map_drop, h]

theorem applied_controlSteps (b : Bot) (e : Event) :
    RaceControl.applied (controlSteps b e) = b.orders.take (applies b e) := by
  cases e with
  | loop =>
    cases hloop : b.loop with
    | ordering =>
      rcases horders : b.orders with _ | ⟨o, orders⟩ <;>
        simp [controlSteps, applies, hloop, horders, RaceControl.applied]
    | routing batch =>
      rcases batch with _ | ⟨first, batch⟩ <;>
        simp [controlSteps, applies, hloop, RaceControl.applied]
    | _ => simp [controlSteps, applies, hloop, RaceControl.applied]
  | _ => simp [controlSteps, applies, RaceControl.applied]

/-- The minutes agree with what callers have stored, what race control has applied and what is
queued for it. -/
structure Recorded (config : Config) (m : Minutes) (p : Parts) (b : Bot) : Prop where
  said : m.said.map (·.message) = (Connection.Outgoing.ofRun config.link p.link).stored
  applied : m.applied.map (·.order) = RaceControl.applied p.control
  inFlight : m.inFlight.map (·.order) = b.orders

theorem Recorded.step {p : Parts} (h : Recorded config m p b)
    (hlink : (Connection.new config.link).run? p.link = some b.connection) (hstep : Step b e d) :
    Recorded config (m.note b e d) (p.note b e d) d where
  said := by
    rw [Parts.note, Connection.Outgoing.ofRun, Connection.accumulate_append hlink,
      stored_of_step hstep, Minutes.note, List.map_append, h.said]
    simp [Connection.Outgoing.ofRun, Function.comp_def]
  applied := by
    rw [Parts.note, RaceControl.applied, List.filterMap_append, Minutes.note, List.map_append,
      h.applied, List.map_take, h.inFlight, ← applied_controlSteps]
    rfl
  inFlight := inFlight_note h.inFlight hstep

/-- The minutes of every run are complete. -/
theorem recorded_of_run {es : List Event} (hrun : (new config).run? es = some b) :
    Recorded config (minutes config es) (parts config es) b := by
  have hkept := accumulate_keeps
    (f := fun q b e d => (Parts.note q.1 b e d, Minutes.note q.2 b e d))
    (P := fun q b => Recorded config q.2 q.1 b ∧
      (Connection.new config.link).run? q.1.link = some b.connection)
    (s := (⟨[], []⟩, .empty)) ?_ ⟨⟨rfl, rfl, rfl⟩, rfl⟩ hrun
  · rw [accumulate_pair] at hkept
    exact hkept.1
  · rintro q b e d ⟨h, hlink⟩ hstep
    refine ⟨h.step hlink hstep, ?_⟩
    rw [Parts.note, Connection.run?_append, hlink]
    exact run_linkEvents hstep

end Bot

end RaceSteward
