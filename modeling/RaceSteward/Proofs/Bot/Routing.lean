import RaceSteward.Proofs.Bot.Parts
import RaceSteward.Proofs.Link.Inbound

/-!
# What the loop leaves behind

In each tick the loop takes what was received, routes it and looks whether the connection is closed.
A message that comes between the taking and the looking, as the last one before the connection
closes, is not routed any more (`Bot.left_behind`). All others are, in order and once each
(`Bot.routed_of_looksClosed`); and there is no such message if the reader had ended when the loop
took.
-/

namespace RaceSteward

open Link (Connection)

/-- The messages that steps of race control route, in order. -/
def RaceControl.routed (steps : List RaceControl.Step) : List Message :=
  steps.filterMap fun
    | .route m => some m
    | _ => none

namespace Loop

/-- What was taken and is still to be routed. -/
def inHand : Loop → List Message
  | routing batch => batch
  | _ => []

/-- The loop has left, or has never begun well. -/
def isOver : Loop → Bool
  | leaving _ => true
  | finished _ => true
  | _ => false

/-- The loop has begun and goes on. -/
def isAtWork (l : Loop) : Bool :=
  match l with
  | fresh => false
  | l => !l.isOver

end Loop

namespace Bot

open RaceControl (routed)

variable {config : Config} {b d : Bot} {e : Event} {p : Parts}

/-- The messages that an event takes out of the inbound mailbox. -/
def takes (b : Bot) : Event → List Message
  | .loop =>
    match b.loop with
    | .collecting => b.connection.recv.1
    | _ => []
  | _ => []

theorem routed_append (steps later : List RaceControl.Step) :
    routed (steps ++ later) = routed steps ++ routed later :=
  List.filterMap_append

theorem loop_issue (b : Bot) (sent : List Message) (next : Loop) :
    (b.issue sent next).loop = next ∨ (b.issue sent next).loop.isOver = true := by
  rcases b.issue_cases sent next with ⟨-, hissue⟩ | ⟨_, _, -, -, hissue⟩ | ⟨_, _, -, -, hissue⟩
  · exact .inl (by rw [hissue])
  · exact .inl (by rw [hissue])
  · exact .inr (by rw [hissue]; rfl)

theorem recv_not_mem_issueEvents (c : Connection) (sent : List Message) :
    .recv ∉ issueEvents c sent := by
  unfold issueEvents
  split
  · simp
  · split <;> simp

theorem recv_not_mem_linkEvents (h : Step b e d) (hloop : e = .loop → b.loop ≠ .collecting) :
    .recv ∉ linkEvents b e := by
  cases h with
  | connection houtside hstep =>
    intro hmem
    cases List.mem_singleton.mp hmem
    cases houtside
  | apply hl horders =>
    simpa [linkEvents, loopEvents, hl, horders] using recv_not_mem_issueEvents _ _
  | route hl => simpa [linkEvents, loopEvents, hl] using recv_not_mem_issueEvents _ _
  | collect hl => exact absurd hl (hloop rfl)
  | loopBegins hl | loopRefused hl | loopStops hl | tick hl | routed hl | looksClosed hl
  | looksOpen hl | loopEnds hl => simp_all [linkEvents, loopEvents]
  | ordered hl horders => simp [linkEvents, loopEvents, hl, horders]
  | _ => simp [linkEvents]

/-- A step of the loop that does not end it routes the message in hand, or takes what there is. -/
theorem inHand_of_step (h : Step b e d) (hgoes : d.loop.isOver = false) :
    b.loop.isOver = false ∧
      routed (controlSteps b e) ++ d.loop.inHand = b.loop.inHand ++ b.takes e := by
  cases h with
  | @apply o orders hl horders =>
    rcases loop_issue { b with orders := orders, control := (b.control.apply o).2 }
      (b.control.apply o).1.sent .ordering with hnext | hover
    · rw [hnext]
      simp [hl, Loop.isOver, Loop.inHand, takes, controlSteps, horders, routed]
    · rw [hover] at hgoes
      cases hgoes
  | @route m batch hl =>
    rcases loop_issue { b with control := (b.control.route m).2 } (b.control.route m).1.sent
      (.routing batch) with hnext | hover
    · rw [hnext]
      simp [hl, Loop.isOver, Loop.inHand, takes, controlSteps, routed]
    · rw [hover] at hgoes
      cases hgoes
  | loopBegins hl | loopRefused hl | loopStops hl | tick hl | collect hl | routed hl
  | looksClosed hl | looksOpen hl | loopEnds hl =>
    simp_all [Loop.isOver, Loop.inHand, takes, controlSteps, routed, leave]
  | ordered hl horders =>
    simp [hl, horders, Loop.isOver, Loop.inHand, takes, controlSteps, routed]
  | _ => exact ⟨hgoes, (List.append_nil _).symm⟩

theorem over_of_step (h : Step b e d) (hover : b.loop.isOver = true) :
    d.loop.isOver = true ∧ routed (controlSteps b e) = [] ∧ .recv ∉ linkEvents b e := by
  refine ⟨?_, ?_, recv_not_mem_linkEvents h fun _ hl => by rw [hl] at hover; cases hover⟩
  · cases hd : d.loop.isOver with
    | true => rfl
    | false =>
      rw [(inHand_of_step h hd).1] at hover
      cases hover
  · cases e with
    | loop =>
      rw [controlSteps]
      split
      · rename_i hl
        rw [hl] at hover
        cases hover
      · rename_i hl
        rw [hl] at hover
        cases hover
      · rfl
    | _ => rfl

/-! ## While the loop goes on -/

/-- What was taken has been routed, or is in hand. -/
structure Handed (config : Config) (p : Parts) (b : Bot) : Prop where
  link : (Connection.new config.link).run? p.link = some b.connection
  routed : b.loop.isOver = false →
    routed p.control ++ b.loop.inHand = (Connection.history config.link p.link).received

theorem Handed.step (h : Handed config p b) (hstep : Step b e d) :
    Handed config (p.note b e d) d := by
  have hlink := run_linkEvents hstep
  refine ⟨?_, fun hgoes => ?_⟩
  · rw [Parts.note, Connection.run?_append, h.link]
    exact hlink
  · obtain ⟨hgoing, hinHand⟩ := inHand_of_step hstep hgoes
    have hhistory := Connection.history_append h.link (linkEvents b e)
    have hreceived : (Connection.history config.link (p.link ++ linkEvents b e)).received =
        (Connection.history config.link p.link).received ++ b.takes e := by
      rw [hhistory]
      by_cases hcollect : e = .loop ∧ b.loop = .collecting
      · obtain ⟨rfl, hl⟩ := hcollect
        simp [linkEvents, loopEvents, takes, hl, Connection.Log.follow, Connection.step?,
          Connection.Log.extend]
      · have hnone := recv_not_mem_linkEvents hstep fun he hl => hcollect ⟨he, hl⟩
        have htakes : b.takes e = [] := by
          unfold takes
          split
          · split
            · rename_i hl
              exact absurd ⟨rfl, hl⟩ hcollect
            · rfl
          · rfl
        rw [htakes, List.append_nil]
        exact (Connection.received_follow hnone _ _).1
    rw [Parts.note, routed_append, List.append_assoc, hinHand, hreceived, ← h.routed hgoing,
      List.append_assoc]

theorem handed_of_run {es : List Event} (hrun : (new config).run? es = some b) :
    Handed config (parts config es) b :=
  accumulate_keeps (fun h hstep => h.step hstep) ⟨rfl, fun _ => rfl⟩ hrun

/-! ## While the connection runs -/

theorem issueEvents_of_goes {sent : List Message} {next : Loop}
    (hgoes : (b.issue sent next).loop.isOver = false) :
    .start ∉ issueEvents b.connection sent ∧ .stop ∉ issueEvents b.connection sent := by
  rcases b.issue_cases sent next with ⟨rfl, -⟩ | ⟨_, _, hsent, hsend, -⟩ | ⟨_, _, -, -, hissue⟩
  · exact ⟨nofun, nofun⟩
  · simp [issueEvents, hsent, hsend]
  · rw [hissue] at hgoes
    cases hgoes

theorem callers_not_mem_linkEvents (h : Step b e d) (hbegun : e = .loop → b.loop.isAtWork = true)
    (hgoes : e = .loop → d.loop.isOver = false) :
    .start ∉ linkEvents b e ∧ .stop ∉ linkEvents b e := by
  cases h with
  | connection houtside hstep =>
    constructor <;> (intro hmem; cases List.mem_singleton.mp hmem; cases houtside)
  | @apply o orders hl horders =>
    have hevents := issueEvents_of_goes (hgoes rfl)
    simpa [linkEvents, loopEvents, hl, horders] using hevents
  | @route m batch hl =>
    have hevents := issueEvents_of_goes (hgoes rfl)
    simpa [linkEvents, loopEvents, hl] using hevents
  | loopBegins hl | loopRefused hl =>
    have hfresh := hbegun rfl
    rw [hl] at hfresh
    cases hfresh
  | loopStops | looksClosed => cases hgoes rfl
  | tick hl | collect hl | routed hl | looksOpen hl | loopEnds hl =>
    simp_all [linkEvents, loopEvents]
  | ordered hl horders => simp [linkEvents, loopEvents, hl, horders]
  | _ => simp [linkEvents]

theorem isOver_of_isAtWork {l : Loop} (h : l.isAtWork = true) : l.isOver = false := by
  cases l <;> first | rfl | cases h

theorem running_of_start {c connection : Connection}
    (hstart : c.start = (.ok (), connection)) : connection.lifecycle = .running := by
  unfold Connection.start at hstart
  split at hstart
  · cases hstart
    rfl
  · cases hstart

theorem running_of_step (h : Step b e d)
    (hrunning : b.loop.isAtWork = true → b.connection.lifecycle = .running)
    (hgoes : d.loop.isAtWork = true) : d.connection.lifecycle = .running := by
  by_cases hbegun : b.loop.isAtWork = true
  · obtain ⟨hstart, hstop⟩ := callers_not_mem_linkEvents h (fun _ => hbegun)
      fun _ => isOver_of_isAtWork hgoes
    exact (Connection.lifecycle_of_run hstart hstop (run_linkEvents h)).trans (hrunning hbegun)
  · cases h with
    | loopBegins hl hstart => exact running_of_start hstart
    | loopRefused | loopStops | looksClosed | loopEnds => cases hgoes
    | tick hl | apply hl | ordered hl | collect hl | route hl | routed hl | looksOpen hl =>
      exact absurd (by rw [hl]; rfl) hbegun
    | _ => exact absurd hgoes hbegun

/-- The connection as the loop last found it when it took. -/
def noteTake (taken : Option Connection) (b : Bot) (e : Event) (_ : Bot) : Option Connection :=
  match e, b.loop with
  | .loop, .collecting => some b.connection
  | _, _ => taken

def lastTake (config : Config) (es : List Event) : Option Connection :=
  accumulate noteTake none (.new config) es

/-- As long as the loop is at work the connection runs. If its reader had ended when the loop last
took, nothing has come since. -/
structure Attended (taken : Option Connection) (b : Bot) : Prop where
  running : b.loop.isAtWork = true → b.connection.lifecycle = .running
  emptied : ∀ c, taken = some c → c.reader = .done →
    b.connection.Silent ∧ b.connection.inbound.pending = []

theorem Attended.step {taken : Option Connection} (h : Attended taken b) (hstep : Step b e d) :
    Attended (noteTake taken b e d) d := by
  refine ⟨running_of_step hstep h.running, ?_⟩
  by_cases hcollect : e = .loop ∧ b.loop = .collecting
  · obtain ⟨rfl, hl⟩ := hcollect
    intro c hc hreader
    have hstarted : b.connection.recv.2.lifecycle ≠ .idle := by
      show b.connection.lifecycle ≠ .idle
      rw [h.running (by rw [hl]; rfl)]
      decide
    have htook : b.connection.recv.2 = d.connection := by
      simpa [linkEvents, loopEvents, hl, Connection.run?, Connection.step?] using
        run_linkEvents hstep
    simp only [noteTake, hl, Option.some.injEq] at hc
    subst hc
    rw [← htook]
    exact ⟨⟨hstarted, hreader⟩, rfl⟩
  · have htaken : noteTake taken b e d = taken := by
      unfold noteTake
      split
      · exact absurd ⟨rfl, ‹_›⟩ hcollect
      · rfl
    intro c hc hreader
    rw [htaken] at hc
    obtain ⟨hsilent, hpending⟩ := h.emptied c hc hreader
    have hnone := recv_not_mem_linkEvents hstep fun he hl => hcollect ⟨he, hl⟩
    obtain ⟨hsilent', hinbound⟩ := hsilent.run hnone (run_linkEvents hstep)
    exact ⟨hsilent', by rw [hinbound, hpending]⟩

theorem attended_new (config : Config) : Attended none (new config) where
  running h := by cases h
  emptied c hc := by cases hc

theorem attended_of_run {es : List Event} (hrun : (new config).run? es = some b) :
    Attended (lastTake config es) b := by
  have hnew := attended_new config
  exact accumulate_keeps (fun h hstep => h.step hstep) hnew hrun

/-! ## When the loop leaves -/

/-- The loop is about to look at the connection, and finds it closed. -/
def LooksClosed (b : Bot) : Prop :=
  b.loop = .checking ∧ b.connection.state = .closed

/-- After a loop has left nothing is taken and nothing is routed. -/
structure Left (p p' : Parts) (b : Bot) : Prop where
  ended : b.loop.isOver = true
  link : ∃ more, p'.link = p.link ++ more ∧ .recv ∉ more
  routed : routed p'.control = routed p.control

theorem Left.step {p' : Parts} (h : Left p p' b) (hstep : Step b e d) :
    Left p (p'.note b e d) d := by
  obtain ⟨hover, hroutes, hnone⟩ := over_of_step hstep h.ended
  obtain ⟨more, hmore, hrecv⟩ := h.link
  refine ⟨hover, ⟨more ++ linkEvents b e, ?_, ?_⟩, ?_⟩
  · rw [Parts.note, hmore, List.append_assoc]
  · rw [List.mem_append]
    exact fun hmem => hmem.elim hrecv hnone
  · rw [Parts.note, routed_append, hroutes, List.append_nil, h.routed]

/-- The reader of a connection that the loop finds closed has ended. -/
theorem silent_of_looksClosed {es : List Event} (hrun : (new config).run? es = some b)
    (hlooks : b.LooksClosed) : b.connection.Silent := by
  have hrunning := (attended_of_run hrun).running (by rw [hlooks.1]; rfl)
  have hcloses := Connection.closes_of_run (parts_of_run hrun).1
  exact ⟨by rw [hrunning]; decide, hcloses.running hrunning hlooks.2⟩

theorem left_of_looksClosed {es later : List Event} (hrun : (new config).run? es = some b)
    (hlooks : b.LooksClosed) (hlater : b.run? (.loop :: later) = some d) :
    Left (parts config es) (parts config (es ++ .loop :: later)) d := by
  obtain ⟨next, hnext, hrest⟩ := exists_step_of_run? hlater
  have hleaves : next = b.leave (.ok ()) := by
    simpa [step?, advanceLoop?, hlooks.1, hlooks.2] using hnext.symm
  have hleft : Left (parts config es) ((parts config es).note b .loop next) next := by
    rw [hleaves]
    refine ⟨rfl, ⟨linkEvents b .loop, rfl, ?_⟩, ?_⟩
    · simp [linkEvents, loopEvents, hlooks.1, hlooks.2]
    · simp [Parts.note, controlSteps, hlooks.1]
  rw [parts_append hrun, accumulate, hnext]
  exact accumulate_keeps (fun h hstep => h.step hstep) hleft hrest

/-- A loop that leaves because it finds the connection closed has routed, in order and once each,
the messages that had come when it last took; those that came after that stay in the mailbox for
good. None did if the reader had ended by then. -/
theorem routed_of_looksClosed {es later : List Event} (hrun : (new config).run? es = some b)
    (hlooks : b.LooksClosed) (hlater : b.run? (.loop :: later) = some d) :
    let p := parts config (es ++ .loop :: later)
    let log := Connection.history config.link p.link
    (Connection.new config.link).run? p.link = some d.connection ∧
      (RaceControl.new.run p.control).2 = d.control ∧
      routed p.control = log.messages.take (log.drains.getLastD 0) ∧
      routed p.control ++ b.connection.inbound.pending = log.messages ∧
      d.connection.inbound = b.connection.inbound ∧
      ∀ c, lastTake config es = some c → c.reader = .done → routed p.control = log.messages := by
  intro p log
  have hwhole : (new config).run? (es ++ .loop :: later) = some d := by
    rw [run?_append, hrun]
    exact hlater
  obtain ⟨hlink, hcontrol⟩ := parts_of_run hwhole
  obtain ⟨hlink', -⟩ := parts_of_run hrun
  obtain ⟨hover, ⟨more, hmore, hrecv⟩, hrouted⟩ := left_of_looksClosed hrun hlooks hlater
  -- the reader has ended, so nothing changes in the mailbox any more
  have hmailbox : d.connection.inbound = b.connection.inbound := by
    rw [hmore, Connection.run?_append, hlink'] at hlink
    exact ((silent_of_looksClosed hrun hlooks).run hrecv hlink).2
  -- what the loop had taken is routed
  have hreceived : routed p.control = log.received := by
    have hhanded := (handed_of_run hrun).routed (by rw [hlooks.1]; rfl)
    simp only [hlooks.1, Loop.inHand, List.append_nil] at hhanded
    have hlog : log = (Connection.history config.link (parts config es).link).follow
        b.connection more := by
      show Connection.history config.link _ = _
      rw [hmore]
      exact Connection.history_append hlink' more
    rw [hrouted, hhanded, hlog]
    exact (Connection.received_follow hrecv _ _).1.symm
  have hdelivered := Connection.delivered_of_run hlink
  have hmessages : routed p.control ++ b.connection.inbound.pending = log.messages := by
    rw [hreceived, ← hmailbox]
    exact hdelivered.messages
  refine ⟨hlink, hcontrol, ?_, hmessages, hmailbox, ?_⟩
  · rw [← hmessages, ← hdelivered.count]
    show _ = List.take log.received.length _
    rw [← hreceived, List.take_left]
  · intro c hc hended
    have hempty := ((attended_of_run hrun).emptied c hc hended).2
    rw [hempty, List.append_nil] at hmessages
    exact hmessages

/-- The loop has taken everything there is when a message comes, and after it a header of a frame
that is too long; that ends the reader, and then the writer. -/
def overtaken : List Event :=
  [.loop] ++
    [.dial, .dialSucceeds, .greet, .handOver, .writerBegins, .readerBegins].map .connection ++
    [.loop, .loop, .loop, .loop] ++
    [.arrive (Link.frameOf (.clientDisconnected ⟨7⟩) ++ [255, 255, 255, 255]), .receive, .receive,
      .tick, .retire].map .connection

theorem routed_of_looksClosed_overtaken :
    ∃ b d, (new .default).run? overtaken = some b ∧ b.LooksClosed ∧
      b.run? [.loop, .connection .stopReturns, .loop] = some d ∧
      d.connection.inbound.pending = [.clientDisconnected ⟨7⟩] := by
  obtain ⟨b, hrun, hlooks, hpending⟩ : ∃ b, (new .default).run? overtaken = some b ∧
      b.LooksClosed ∧ b.connection.inbound.pending = [.clientDisconnected ⟨7⟩] :=
    ⟨_, rfl, ⟨rfl, rfl⟩, rfl⟩
  obtain ⟨d, hlater⟩ : ∃ d, b.run? [.loop, .connection .stopReturns, .loop] = some d := by
    cases hrun
    exact ⟨_, rfl⟩
  obtain ⟨-, -, -, -, hmailbox, -⟩ := routed_of_looksClosed hrun hlooks hlater
  exact ⟨b, d, hrun, hlooks, hlater, by rw [hmailbox, hpending]⟩

/-- Nobody has asked the bot to stop and no mailbox has overflowed, but the message is never routed.
-/
theorem left_behind :
    ∃ b d, (new .default).run? overtaken = some b ∧ b.LooksClosed ∧ b.stopping = false ∧
      b.connection.fatal = [] ∧ b.run? [.loop, .connection .stopReturns, .loop] = some d ∧
      d.loop = .finished (.ok ()) ∧
      let p := parts .default (overtaken ++ [.loop, .connection .stopReturns, .loop])
      routed p.control = [] ∧
        (Connection.history Config.default.link p.link).messages = [.clientDisconnected ⟨7⟩] :=
  ⟨_, _, rfl, ⟨rfl, rfl⟩, rfl, rfl, rfl, rfl, rfl, rfl⟩

end Bot

end RaceSteward
