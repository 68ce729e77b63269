import RaceSteward.Proofs.Bot.Step
import RaceSteward.Proofs.Link.Step
import RaceSteward.Proofs.RaceControl.Races

/-!
# The parts of a bot

A run of a bot is a run of its connection and a run of race control, side by side. `Bot.Parts` keeps
both, and `Bot.parts_of_run` says that they lead where the bot went; so what holds in every run of a
connection, or of race control, holds in every bot.
-/

namespace RaceSteward

open Link (Connection)

namespace Bot

/-- What queueing the messages of a bulletin does to the connection. -/
def issueEvents (c : Connection) (sent : List Message) : List Connection.Event :=
  if sent.isEmpty then []
  else match (c.sendBatch sent).1 with
    | .ok _ => [.sendBatch sent]
    | .error _ => [.sendBatch sent, .stop]

/-- What a step of the loop does to the connection. -/
def loopEvents (b : Bot) : List Connection.Event :=
  match b.loop with
  | .fresh => [.start]
  | .resting => if b.stopping then [.stop] else []
  | .ordering =>
    (b.orders.take 1).flatMap fun o => issueEvents b.connection (b.control.apply o).1.sent
  | .collecting => [.recv]
  | .routing batch =>
    (batch.take 1).flatMap fun m => issueEvents b.connection (b.control.route m).1.sent
  | .checking => if b.connection.state = .closed then [.stop] else []
  | _ => []

/-- What an event of the bot does to the connection. -/
def linkEvents (b : Bot) : Event → List Connection.Event
  | .execute command => command.message?.toList.map fun m => .sendBatch [m]
  | .speak i =>
    (b.countdowns[i]?.toList.flatMap (·.script.take 1)).map fun line => .sendBatch [.broadcast line]
  | .loop => b.loopEvents
  | .connection e => [e]
  | _ => []

/-- What an event of the bot does to race control. -/
def controlSteps (b : Bot) : Event → List RaceControl.Step
  | .loop =>
    match b.loop with
    | .ordering => (b.orders.take 1).map .apply
    | .routing batch => (batch.take 1).map .route
    | _ => []
  | _ => []

/-- What the connection and race control have done. -/
structure Parts where
  link : List Connection.Event
  control : List RaceControl.Step

def Parts.note (p : Parts) (b : Bot) (e : Event) (_ : Bot) : Parts :=
  ⟨p.link ++ linkEvents b e, p.control ++ controlSteps b e⟩

/-- The parts of a run. -/
def parts (config : Config) (es : List Event) : Parts :=
  accumulate Parts.note ⟨[], []⟩ (.new config) es

/-! ## What a move does to the parts -/

variable {b d : Bot} {e : Event}

theorem issue_cases (b : Bot) (sent : List Message) (next : Loop) :
    (sent = [] ∧ b.issue sent next = { b with loop := next }) ∨
    (∃ pending connection, sent ≠ [] ∧ b.connection.sendBatch sent = (.ok pending, connection) ∧
      b.issue sent next = { b with connection := connection, loop := next }) ∨
    (∃ e connection, sent ≠ [] ∧ b.connection.sendBatch sent = (.error e, connection) ∧
      b.issue sent next = leave { b with connection := connection } (.error (.link e))) := by
  rcases sent with _ | ⟨m, sent⟩
  · exact .inl ⟨rfl, rfl⟩
  · rcases hsend : b.connection.sendBatch (m :: sent) with ⟨result, connection⟩
    rcases result with e | pending
    · refine .inr (.inr ⟨e, connection, nofun, rfl, ?_⟩)
      simp [issue, hsend]
    · refine .inr (.inl ⟨pending, connection, nofun, rfl, ?_⟩)
      simp [issue, hsend]

theorem run_issueEvents (b : Bot) (sent : List Message) (next : Loop) :
    b.connection.run? (issueEvents b.connection sent) = some (b.issue sent next).connection := by
  rcases b.issue_cases sent next with ⟨rfl, hissue⟩ | ⟨_, _, hsent, hsend, hissue⟩ |
    ⟨_, _, hsent, hsend, hissue⟩
  · rw [hissue]
    rfl
  · rw [hissue, issueEvents, if_neg (by simpa using hsent)]
    simp [hsend, Connection.run?, Connection.step?]
  · rw [hissue, issueEvents, if_neg (by simpa using hsent)]
    simp [hsend, Connection.run?, Connection.step?, leave]

theorem exists_issue (b : Bot) (sent : List Message) (next : Loop) :
    ∃ connection loop, b.issue sent next = { b with connection := connection, loop := loop } := by
  rcases b.issue_cases sent next with ⟨-, hissue⟩ | ⟨_, _, -, -, hissue⟩ | ⟨_, _, -, -, hissue⟩
  all_goals exact ⟨_, _, hissue⟩

@[simp] theorem control_issue (b : Bot) (sent : List Message) (next : Loop) :
    (b.issue sent next).control = b.control := by
  obtain ⟨_, _, hissue⟩ := b.exists_issue sent next
  rw [hissue]

@[simp] theorem orders_issue (b : Bot) (sent : List Message) (next : Loop) :
    (b.issue sent next).orders = b.orders := by
  obtain ⟨_, _, hissue⟩ := b.exists_issue sent next
  rw [hissue]

@[simp] theorem countdowns_issue (b : Bot) (sent : List Message) (next : Loop) :
    (b.issue sent next).countdowns = b.countdowns := by
  obtain ⟨_, _, hissue⟩ := b.exists_issue sent next
  rw [hissue]

theorem run_linkEvents (h : Step b e d) :
    b.connection.run? (linkEvents b e) = some d.connection := by
  cases h with
  | say hmessage =>
    simp [linkEvents, hmessage, Connection.run?, Connection.step?, Connection.send]
  | reply hmessage => simp [linkEvents, hmessage, Connection.run?]
  | begin hscript =>
    have hmessage := Console.Command.message?_of_script? hscript
    simp [linkEvents, hmessage, Connection.run?, beginCountdown]
  | @speak i t line rest pending connection ht hphase hscript hsend =>
    rw [Connection.send] at hsend
    simp [linkEvents, ht, hscript, Connection.run?, Connection.step?, hsend, setCountdown]
  | @speakRefused i t line rest e connection ht hphase hscript hsend =>
    rw [Connection.send] at hsend
    simp [linkEvents, ht, hscript, Connection.run?, Connection.step?, hsend, setCountdown]
  | loopBegins hloop hstart | loopRefused hloop hstart =>
    simp [linkEvents, loopEvents, hloop, Connection.run?, Connection.step?, hstart]
  | loopStops hloop hstopping | tick hloop hstopping =>
    simp [linkEvents, loopEvents, hloop, hstopping, Connection.run?, Connection.step?, leave]
  | @apply o orders hloop horders =>
    have hevents : linkEvents b .loop = issueEvents b.connection (b.control.apply o).1.sent := by
      simp [linkEvents, loopEvents, hloop, horders]
    rw [hevents]
    exact run_issueEvents { b with orders := orders, control := (b.control.apply o).2 } _ _
  | ordered hloop horders => simp [linkEvents, loopEvents, hloop, horders, Connection.run?]
  | collect hloop =>
    simp [linkEvents, loopEvents, hloop, Connection.run?, Connection.step?]
  | @route m batch hloop =>
    have hevents : linkEvents b .loop = issueEvents b.connection (b.control.route m).1.sent := by
      simp [linkEvents, loopEvents, hloop]
    rw [hevents]
    exact run_issueEvents { b with control := (b.control.route m).2 } _ _
  | routed hloop | loopEnds hloop => simp [linkEvents, loopEvents, hloop, Connection.run?]
  | looksClosed hloop hstate | looksOpen hloop hstate =>
    simp [linkEvents, loopEvents, hloop, hstate, Connection.run?, Connection.step?, leave]
  | connection houtside hstep => simp [linkEvents, Connection.run?, hstep]
  | _ => rfl

theorem run_controlSteps (h : Step b e d) :
    (b.control.run (controlSteps b e)).2 = d.control := by
  cases h with
  | apply hloop horders =>
    simp [controlSteps, hloop, horders, RaceControl.run, RaceControl.step]
  | route hloop => simp [controlSteps, hloop, RaceControl.run, RaceControl.step]
  | ordered hloop horders => simp [controlSteps, hloop, horders, RaceControl.run]
  | loopBegins hloop | loopRefused hloop | loopStops hloop | tick hloop | collect hloop
  | routed hloop | loopEnds hloop | looksClosed hloop | looksOpen hloop =>
    simp [controlSteps, hloop, RaceControl.run, leave]
  | _ => rfl

/-! ## The parts lead where the bot goes -/

theorem parts_append {config : Config} {es : List Event} (hrun : (new config).run? es = some b)
    (later : List Event) :
    parts config (es ++ later) = accumulate Parts.note (parts config es) b later :=
  accumulate_append hrun later

/-- A run of a bot is a run of its connection and a run of race control. -/
theorem parts_of_run {config : Config} {es : List Event} (hrun : (new config).run? es = some b) :
    (Connection.new config.link).run? (parts config es).link = some b.connection ∧
      (RaceControl.new.run (parts config es).control).2 = b.control := by
  refine accumulate_keeps (f := Parts.note) (P := fun p b =>
    (Connection.new config.link).run? p.link = some b.connection ∧
      (RaceControl.new.run p.control).2 = b.control) ?_ ⟨rfl, rfl⟩ hrun
  rintro p b e d ⟨hlink, hcontrol⟩ hstep
  constructor
  · rw [Parts.note, Connection.run?_append, hlink]
    exact run_linkEvents hstep
  · rw [Parts.note, RaceControl.run_append, hcontrol]
    exact run_controlSteps hstep

end Bot

end RaceSteward
