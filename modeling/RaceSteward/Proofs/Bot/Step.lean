import RaceSteward.Bot

/-!
# What a bot can do

`Bot.Step` lists every move of a bot: when it can happen, and what it leaves. By `Bot.step_of_step?`
there are no others, so an invariant is one case for each move and never unfolds the console, a
countdown or the loop.
-/

namespace RaceSteward

open Console (Command)
open Link (Connection)

/-! ## What a command asks for -/

/-- What a command puts into the outbound mailbox. -/
def Console.Command.message? : Command → Option Message
  | .chat line => some (.broadcast line)
  | .moderation (.cheat (some on)) => some (.orderGlobalCheat ⟨if on then 1 else 0⟩)
  | _ => none

/-- The script of the countdown that a command begins. -/
def Console.Command.script? : Command → Option (List String)
  | .race .start => some Console.countdownScript
  | .race .readyStart => some Console.readyCountdownScript
  | _ => none

namespace Console.Command

variable {command : Command} {message : Message} {script : List String}

theorem script?_of_message? (h : command.message? = some message) : command.script? = none := by
  unfold message? at h
  split at h <;> first | rfl | cases h

theorem message?_of_script? (h : command.script? = some script) : command.message? = none := by
  unfold script? at h
  split at h <;> first | rfl | cases h

theorem ne_finish_of_message? (h : command.message? = some message) :
    command ≠ .race .finish := by
  rintro rfl
  cases h

theorem ne_finish_of_script? (h : command.script? = some script) : command ≠ .race .finish := by
  rintro rfl
  cases h

end Console.Command

namespace Bot

/-- The orders queued when one more is given; nobody takes it when the loop has ended. -/
def ordersWith (b : Bot) (o : Order) : List Order :=
  if b.loop.isFinished then b.orders else b.orders ++ [o]

variable {b d : Bot}

/-- One move: the event, what must hold before it, and the bot after it. -/
inductive Step (b : Bot) : Event → Bot → Prop
  -- the console
  | say {command : Command} {m : Message} (hmessage : command.message? = some m) :
    Step b (.execute command) { b with connection := (b.connection.send m).2 }
  | begin {command : Command} {script : List String} (hscript : command.script? = some script) :
    Step b (.execute command) (b.beginCountdown script)
  | finish : Step b (.execute (.race .finish))
      { b with
        epoch := b.epoch + 1
        countdowns := b.countdowns.map .abort
        orders := b.ordersWith (.forceStop (b.epoch + 1)) }
  | stop : Step b (.execute (.race .stop)) { b with stopping := true }
  | reply {command : Command} (hmessage : command.message? = none)
    (hscript : command.script? = none) (hfinish : command ≠ .race .finish) :
    Step b (.execute command) b
  | requestStop : Step b .requestStop { b with stopping := true }
  -- a countdown
  | wake {i : Nat} {t : Countdown} (ht : b.countdowns[i]? = some t)
    (hphase : t.phase = .fresh ∨ t.phase = .sleeping) :
    Step b (.wake i) (b.setCountdown i { t with phase := .speaking })
  | speak {i : Nat} {t : Countdown} {line : String} {rest : List String} {pending : Nat}
    {connection : Connection} (ht : b.countdowns[i]? = some t) (hphase : t.phase = .speaking)
    (hscript : t.script = line :: rest)
    (hsend : b.connection.send (.broadcast line) = (.ok pending, connection)) :
    Step b (.speak i) ({ b with connection := connection }.setCountdown i (t.pause rest))
  | speakRefused {i : Nat} {t : Countdown} {line : String} {rest : List String} {e : Link.Error}
    {connection : Connection} (ht : b.countdowns[i]? = some t) (hphase : t.phase = .speaking)
    (hscript : t.script = line :: rest)
    (hsend : b.connection.send (.broadcast line) = (.error e, connection)) :
    Step b (.speak i) ({ b with connection := connection }.setCountdown i { t with phase := .done })
  | arm {i : Nat} {t : Countdown} (ht : b.countdowns[i]? = some t) (hphase : t.phase = .arming) :
    Step b (.arm i) ({ b with orders := b.ordersWith (.armStart t.epoch) }.setCountdown i
      { t with phase := .done })
  | quit {i : Nat} {t : Countdown} (ht : b.countdowns[i]? = some t) (hphase : t.phase = .sleeping)
    (hstopping : b.stopping = true) : Step b (.quit i) (b.setCountdown i { t with phase := .done })
  -- the loop of race control
  | loopBegins {connection : Connection} (hloop : b.loop = .fresh)
    (hstart : b.connection.start = (.ok (), connection)) :
    Step b .loop { b with connection := connection, loop := .resting }
  | loopRefused {e : Link.Error} {connection : Connection} (hloop : b.loop = .fresh)
    (hstart : b.connection.start = (.error e, connection)) :
    Step b .loop
      { b with connection := connection, loop := .finished (.error (.link e)), stopping := true }
  | loopStops (hloop : b.loop = .resting) (hstopping : b.stopping = true) :
    Step b .loop (b.leave (.ok ()))
  | tick (hloop : b.loop = .resting) (hstopping : b.stopping = false) :
    Step b .loop { b with loop := .ordering }
  | apply {o : Order} {orders : List Order} (hloop : b.loop = .ordering)
    (horders : b.orders = o :: orders) :
    Step b .loop (issue { b with orders := orders, control := (b.control.apply o).2 }
      (b.control.apply o).1.sent .ordering)
  | ordered (hloop : b.loop = .ordering) (horders : b.orders = []) :
    Step b .loop { b with loop := .collecting }
  | collect (hloop : b.loop = .collecting) :
    Step b .loop { b with connection := b.connection.recv.2, loop := .routing b.connection.recv.1 }
  | route {m : Message} {batch : List Message} (hloop : b.loop = .routing (m :: batch)) :
    Step b .loop (issue { b with control := (b.control.route m).2 } (b.control.route m).1.sent
      (.routing batch))
  | routed (hloop : b.loop = .routing []) : Step b .loop { b with loop := .checking }
  | looksClosed (hloop : b.loop = .checking) (hclosed : b.connection.state = .closed) :
    Step b .loop (b.leave (.ok ()))
  | looksOpen (hloop : b.loop = .checking) (hopen : b.connection.state ≠ .closed) :
    Step b .loop { b with loop := .resting }
  | loopEnds {result : Except Failure Unit} (hloop : b.loop = .leaving result)
    (hawaited : b.connection.awaited = false) :
    Step b .loop { b with loop := .finished result, stopping := true }
  -- a worker of the connection, or the server
  | connection {e : Connection.Event} {c : Connection} (houtside : isOutside e = true)
    (hstep : b.connection.step? e = some c) : Step b (.connection e) { b with connection := c }

/-! ## There are no other moves -/

theorem snd_replyAfter (reply : Console.Reply) (r : Except Failure Unit × Bot) :
    (replyAfter reply r).2 = r.2 := by
  obtain ⟨result, b⟩ := r
  cases result <;> rfl

theorem say_eq (b : Bot) (m : Message) :
    (b.say m).2 = { b with connection := (b.connection.send m).2 } := by
  unfold say
  split <;> simp [*]

theorem order_eq (b : Bot) (o : Order) : (b.order o).2 = { b with orders := b.ordersWith o } := by
  unfold Bot.order ordersWith
  split <;> rfl

theorem race_finish_eq (b : Bot) : (b.race .finish).2 =
    { b with
      epoch := b.epoch + 1
      countdowns := b.countdowns.map .abort
      orders := b.ordersWith (.forceStop (b.epoch + 1)) } := by
  rw [race, snd_replyAfter, order_eq]
  rfl

theorem step_execute (b : Bot) (command : Command) :
    Step b (.execute command) (b.execute command).2 := by
  rcases command with _ | order | order | line
  · exact .reply rfl rfl (by simp)
  · cases order with
    | start => exact .begin rfl
    | readyStart => exact .begin rfl
    | finish =>
      rw [execute, race_finish_eq]
      exact .finish
    | stop => exact .stop
    | _ => exact .reply rfl rfl (by simp)
  · rcases order with _ | on | name | _
    · exact .reply rfl rfl (by simp)
    · rcases on with _ | on
      · exact .reply rfl rfl (by simp)
      · rw [execute, moderate, snd_replyAfter, say_eq]
        exact .say rfl
    · exact .reply rfl rfl (by simp)
    · exact .reply rfl rfl (by simp)
  · rw [execute, snd_replyAfter, say_eq]
    exact .say rfl

theorem step_wake {i : Nat} (h : b.wake? i = some d) : Step b (.wake i) d := by
  unfold wake? at h
  obtain ⟨t, ht, h⟩ := Option.bind_eq_some_iff.mp h
  split at h
  · rename_i hphase
    cases h
    exact .wake ht (.inl hphase)
  · rename_i hphase
    cases h
    exact .wake ht (.inr hphase)
  · cases h

theorem step_speak {i : Nat} (h : b.speak? i = some d) : Step b (.speak i) d := by
  unfold speak? at h
  obtain ⟨t, ht, h⟩ := Option.bind_eq_some_iff.mp h
  split at h
  · rename_i line rest hphase hscript
    unfold say at h
    rcases hsend : b.connection.send (.broadcast line) with ⟨result, connection⟩
    rcases result with e | pending
    · simp only [hsend, Option.some.injEq] at h
      subst h
      exact .speakRefused ht hphase hscript hsend
    · simp only [hsend, Option.some.injEq] at h
      subst h
      exact .speak ht hphase hscript hsend
  · cases h

theorem step_arm {i : Nat} (h : b.arm? i = some d) : Step b (.arm i) d := by
  unfold arm? at h
  obtain ⟨t, ht, h⟩ := Option.bind_eq_some_iff.mp h
  split at h
  · rename_i hphase
    rw [order_eq, Option.some.injEq] at h
    subst h
    exact .arm ht hphase
  · cases h

theorem step_quit {i : Nat} (h : b.quit? i = some d) : Step b (.quit i) d := by
  unfold quit? at h
  obtain ⟨t, ht, h⟩ := Option.bind_eq_some_iff.mp h
  split at h
  · rename_i hphase
    simp only [Option.ite_none_right_eq_some, Option.some.injEq] at h
    obtain ⟨hstopping, rfl⟩ := h
    exact .quit ht hphase hstopping
  · cases h

theorem step_beginLoop (hloop : b.loop = .fresh) : Step b .loop b.beginLoop := by
  unfold beginLoop
  rcases hstart : b.connection.start with ⟨result, connection⟩
  rcases result with e | _
  · exact .loopRefused hloop hstart
  · exact .loopBegins hloop hstart

theorem step_advanceLoop (h : b.advanceLoop? = some d) : Step b .loop d := by
  unfold advanceLoop? at h
  split at h
  · rename_i hloop
    cases h
    exact step_beginLoop hloop
  · rename_i hloop
    cases h
    by_cases hstopping : b.stopping = true
    · rw [if_pos hstopping]
      exact .loopStops hloop hstopping
    · rw [if_neg hstopping]
      exact .tick hloop (by simpa using hstopping)
  · rename_i hloop
    split at h
    · rename_i o orders horders
      cases h
      exact .apply hloop horders
    · rename_i horders
      cases h
      exact .ordered hloop horders
  · rename_i hloop
    cases h
    exact .collect hloop
  · rename_i m batch hloop
    cases h
    exact .route hloop
  · rename_i hloop
    cases h
    exact .routed hloop
  · rename_i hloop
    cases h
    by_cases hclosed : b.connection.state = .closed
    · rw [if_pos hclosed]
      exact .looksClosed hloop hclosed
    · rw [if_neg hclosed]
      exact .looksOpen hloop hclosed
  · rename_i result hloop
    split at h
    · cases h
    · rename_i hawaited
      cases h
      exact .loopEnds hloop (by simpa using hawaited)
  · cases h

theorem step_of_step? {e : Event} (h : b.step? e = some d) : Step b e d := by
  cases e with
  | execute command => cases h; exact step_execute b command
  | requestStop => cases h; exact .requestStop
  | wake i => exact step_wake h
  | speak i => exact step_speak h
  | arm i => exact step_arm h
  | quit i => exact step_quit h
  | loop => exact step_advanceLoop h
  | connection e =>
    simp only [step?, Option.ite_none_right_eq_some, Option.map_eq_some_iff] at h
    obtain ⟨houtside, c, hstep, rfl⟩ := h
    exact .connection houtside hstep

/-! ## Along a run -/

section Along

variable {σ : Type} {e : Event} {es : List Event}

theorem exists_step_of_run? (h : b.run? (e :: es) = some d) :
    ∃ next, b.step? e = some next ∧ next.run? es = some d :=
  Option.bind_eq_some_iff.mp h

/-- What somebody who notes every event has noted after a run. -/
def accumulate (f : σ → Bot → Event → Bot → σ) (s : σ) (b : Bot) : List Event → σ
  | [] => s
  | e :: es =>
    match b.step? e with
    | none => s
    | some d => accumulate f (f s b e d) d es

theorem accumulate_keeps {f : σ → Bot → Event → Bot → σ} {P : σ → Bot → Prop}
    (hkeeps : ∀ {s b e d}, P s b → Step b e d → P (f s b e d) d) {s : σ} (h : P s b)
    (hrun : b.run? es = some d) : P (accumulate f s b es) d := by
  induction es generalizing s b with
  | nil =>
    cases hrun
    exact h
  | cons e es ih =>
    obtain ⟨next, hnext, hrest⟩ := exists_step_of_run? hrun
    rw [accumulate, hnext]
    exact ih (hkeeps h (step_of_step? hnext)) hrest

theorem accumulate_append {f : σ → Bot → Event → Bot → σ} {s : σ} (hrun : b.run? es = some d)
    (later : List Event) :
    accumulate f s b (es ++ later) = accumulate f (accumulate f s b es) d later := by
  induction es generalizing s b with
  | nil =>
    cases hrun
    rfl
  | cons e es ih =>
    obtain ⟨next, hnext, hrest⟩ := exists_step_of_run? hrun
    rw [List.cons_append, accumulate, accumulate, hnext]
    exact ih hrest

/-- Two who note the same run beside each other. -/
theorem accumulate_pair {τ : Type} (f : σ → Bot → Event → Bot → σ) (g : τ → Bot → Event → Bot → τ)
    (s : σ) (t : τ) (b : Bot) (es : List Event) :
    accumulate (fun p b e d => (f p.1 b e d, g p.2 b e d)) (s, t) b es =
      (accumulate f s b es, accumulate g t b es) := by
  induction es generalizing s t b with
  | nil => rfl
  | cons e es ih =>
    simp only [accumulate]
    cases b.step? e with
    | none => rfl
    | some d => exact ih (f s b e d) (g t b e d) d

theorem run?_append (b : Bot) (es later : List Event) :
    b.run? (es ++ later) = (b.run? es).bind (·.run? later) := by
  induction es generalizing b with
  | nil => rfl
  | cons e es ih =>
    simp only [List.cons_append, run?]
    cases b.step? e with
    | none => rfl
    | some d => exact ih d

end Along

end Bot

end RaceSteward
