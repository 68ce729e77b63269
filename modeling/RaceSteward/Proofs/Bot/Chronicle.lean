import RaceSteward.Proofs.Bot.Step

/-!
# Chronicles of a bot

A chronicle is a bot together with what has happened between its console, its countdowns and race
control, and with who gave each order in flight. Its moves are freer than those of the bot: any
countdown that has begun may give its order at any moment, called off or not, orders are applied one
by one at any moment, oldest first, and any message may be routed at any moment. Whatever else
changes in the bot is a move of its own.

* `Bot.chronicle`: what a run of a bot adds up to, event by event.
* `Bot.chronicle_of_run`: the chronicle of a run is one of these, so what holds in every chronicle
  holds of every run.
-/

namespace RaceSteward

namespace Bot

/-- The number of forced finishes before each countdown. -/
def epochs (b : Bot) : List Nat :=
  b.countdowns.map (·.epoch)

/-- Two bots agree on orders, countdowns and race control. -/
structure Agrees (b d : Bot) : Prop where
  orders : b.orders = d.orders
  epoch : b.epoch = d.epoch
  control : b.control = d.control
  epochs : b.epochs = d.epochs

/-- An order in flight, and who gave it. -/
inductive Dispatch where
  /-- The console, by a forced finish. -/
  | finish (epoch : Nat)
  /-- A countdown, by its place among all countdowns. -/
  | start (countdown : Nat) (epoch : Nat)
  deriving DecidableEq, Repr

def Dispatch.order : Dispatch → Order
  | finish epoch => .forceStop epoch
  | start _ epoch => .armStart epoch

/-- What happens between the console, the countdowns and race control. -/
inductive Deed where
  /-- A countdown begins. -/
  | begun (countdown : Nat)
  /-- The console forces a finish. -/
  | finished (epoch : Nat)
  /-- Race control applies the order of a forced finish. -/
  | stopped (epoch : Nat)
  /-- Race control applies the order of a countdown, and it has an effect. -/
  | heeded (countdown : Nat)
  /-- Race control applies the order of a countdown, says nothing and stays as it is. -/
  | ignored (countdown : Nat)
  deriving DecidableEq, Repr

/-- What it is that race control does when it applies an order. -/
def Deed.ofApply (rc : RaceControl) : Dispatch → Deed
  | .finish epoch => .stopped epoch
  | .start i epoch =>
    if rc.apply (.armStart epoch) = (.silent, rc) then .ignored i else .heeded i

structure Chronicle where
  bot : Bot
  /-- The orders in flight, oldest first. -/
  inFlight : List Dispatch
  /-- What has happened, oldest first. -/
  log : List Deed

namespace Chronicle

def new (config : Config) : Chronicle := ⟨.new config, [], []⟩

/-- The orders in flight when one more is given; nobody takes it when the loop has ended. -/
def give (c : Chronicle) (d : Dispatch) : List Dispatch :=
  if c.bot.loop.isFinished then c.inFlight else c.inFlight ++ [d]

inductive Move (c : Chronicle) : Chronicle → Prop where
  /-- The console begins a countdown. -/
  | begin (script : List String) :
    Move c ⟨c.bot.beginCountdown script, c.inFlight, c.log ++ [.begun c.bot.epochs.length]⟩
  /-- The console forces a finish. -/
  | finish :
    Move c ⟨(c.bot.race .finish).2, c.give (.finish (c.bot.epoch + 1)),
      c.log ++ [.finished (c.bot.epoch + 1)]⟩
  /-- Any countdown that has begun gives its order. -/
  | arm {i epoch : Nat} (h : c.bot.epochs[i]? = some epoch) :
    Move c ⟨(c.bot.order (.armStart epoch)).2, c.give (.start i epoch), c.log⟩
  /-- Race control applies the oldest order. -/
  | apply {d : Dispatch} {orders : List Order} {inFlight : List Dispatch}
    (horders : c.bot.orders = d.order :: orders) (hinFlight : c.inFlight = d :: inFlight) :
    Move c ⟨{ c.bot with orders := orders, control := (c.bot.control.apply d.order).2 }, inFlight,
      c.log ++ [.ofApply c.bot.control d]⟩
  /-- Race control routes a message of the server. -/
  | route (m : Message) :
    Move c { c with bot := { c.bot with control := (c.bot.control.route m).2 } }
  /-- Anything else. -/
  | aside {b : Bot} (h : b.Agrees c.bot) : Move c { c with bot := b }

/-- The chronicles of a bot. -/
inductive Reachable (config : Config) : Chronicle → Prop where
  | new : Reachable config (.new config)
  | move {c d : Chronicle} (h : Reachable config c) (hmove : Move c d) : Reachable config d

end Chronicle

/-! ## What the bot leaves alone -/

namespace Agrees

variable {b d e : Bot}

theorem refl (b : Bot) : Agrees b b := ⟨rfl, rfl, rfl, rfl⟩

theorem trans (h : Agrees b d) (h' : Agrees d e) : Agrees b e :=
  ⟨h.orders.trans h'.orders, h.epoch.trans h'.epoch, h.control.trans h'.control,
    h.epochs.trans h'.epochs⟩

end Agrees

variable {b d : Bot}

theorem epochs_beginCountdown (b : Bot) (script : List String) :
    (b.beginCountdown script).epochs = b.epochs ++ [b.epoch] :=
  List.map_append ..

theorem agrees_order (b : Bot) (o : Order) :
    Agrees (b.order o).2 { b with orders := b.ordersWith o } := by
  unfold Bot.order ordersWith
  split <;> exact .refl _

theorem epoch_abort (t : Countdown) : t.abort.epoch = t.epoch := by
  unfold Countdown.abort
  split <;> rfl

theorem agrees_race_finish (b : Bot) : Agrees (b.race .finish).2
    { b with orders := b.ordersWith (.forceStop (b.epoch + 1)), epoch := b.epoch + 1 } := by
  have hepochs : (b.countdowns.map Countdown.abort).map (·.epoch) = b.epochs := by
    rw [List.map_map]
    exact List.map_congr_left fun t _ => epoch_abort t
  rw [race, snd_replyAfter]
  unfold Bot.order ordersWith
  split <;> exact ⟨rfl, rfl, rfl, hepochs⟩

theorem agrees_setCountdown {i : Nat} {t t' : Countdown} (h : b.countdowns[i]? = some t)
    (hepoch : t'.epoch = t.epoch) (hagrees : Agrees d b) (hcountdowns : d.countdowns = b.countdowns) :
    Agrees (d.setCountdown i t') b := by
  refine ⟨hagrees.orders, hagrees.epoch, hagrees.control, ?_⟩
  show (d.countdowns.set i t').map (·.epoch) = b.countdowns.map (·.epoch)
  rw [hcountdowns]
  obtain ⟨hi, rfl⟩ := List.getElem?_eq_some_iff.mp h
  rw [List.map_set, hepoch, ← List.getElem_map (f := Countdown.epoch) (h := by simpa using hi)]
  exact List.set_getElem_self _

theorem agrees_issue (b : Bot) (sent : List Message) (next : Loop) :
    Agrees (b.issue sent next) b := by
  unfold issue
  split
  · exact ⟨rfl, rfl, rfl, rfl⟩
  · split <;> exact ⟨rfl, rfl, rfl, rfl⟩

namespace Chronicle

variable {config : Config} {c : Chronicle}

theorem map_give (h : c.inFlight.map (·.order) = c.bot.orders) (d : Dispatch) :
    (c.give d).map (·.order) = c.bot.ordersWith d.order := by
  unfold give ordersWith
  split
  · exact h
  · rw [List.map_append, h]
    rfl

theorem mem_give {d e : Dispatch} (h : e ∈ c.give d) : e ∈ c.inFlight ∨ e = d := by
  unfold give at h
  split at h
  · exact .inl h
  · exact (List.mem_append.mp h).imp_right List.mem_singleton.mp

theorem Move.map_order {d : Chronicle} (h : Move c d)
    (horders : c.inFlight.map (·.order) = c.bot.orders) :
    d.inFlight.map (·.order) = d.bot.orders := by
  cases h with
  | begin script => exact horders
  | finish => exact (map_give horders _).trans (agrees_race_finish c.bot).orders.symm
  | arm h => exact (map_give horders _).trans (agrees_order c.bot _).orders.symm
  | apply horders' hinFlight =>
    rw [hinFlight, horders'] at horders
    exact (List.cons.inj horders).2
  | route m => exact horders
  | aside h => exact horders.trans h.orders.symm

theorem Reachable.map_order (h : Reachable config c) :
    c.inFlight.map (·.order) = c.bot.orders := by
  induction h with
  | new => rfl
  | move _ hmove ih => exact hmove.map_order ih

theorem Move.getElem?_epochs {d : Chronicle} (h : Move c d) {i epoch : Nat}
    (hi : c.bot.epochs[i]? = some epoch) : d.bot.epochs[i]? = some epoch := by
  cases h with
  | begin script =>
    dsimp only
    rw [epochs_beginCountdown, List.getElem?_append_left (List.getElem?_eq_some_iff.mp hi).1]
    exact hi
  | finish => exact (congrArg (·[i]?) (agrees_race_finish c.bot).epochs).trans hi
  | arm h => exact (congrArg (·[i]?) (agrees_order c.bot _).epochs).trans hi
  | apply horders hinFlight => exact hi
  | route m => exact hi
  | aside h => exact (congrArg (·[i]?) h.epochs).trans hi

theorem Reachable.epoch_of_mem (h : Reachable config c) {i epoch : Nat}
    (hmem : .start i epoch ∈ c.inFlight) : c.bot.epochs[i]? = some epoch := by
  induction h with
  | new => cases hmem
  | @move c d _ hmove ih =>
    refine hmove.getElem?_epochs ?_
    cases hmove with
    | begin script => exact ih hmem
    | finish =>
      rcases mem_give hmem with hmem | heq
      · exact ih hmem
      · cases heq
    | arm hi =>
      rcases mem_give hmem with hmem | heq
      · exact ih hmem
      · cases heq
        exact hi
    | apply horders hinFlight =>
      rw [hinFlight] at ih
      exact ih (List.mem_cons_of_mem _ hmem)
    | route m => exact ih hmem
    | aside hb => exact ih hmem

theorem Reachable.aside (h : Reachable config c) {b : Bot} (hb : b.Agrees c.bot) :
    Reachable config { c with bot := b } :=
  .move h (.aside hb)

end Chronicle

/-! ## The chronicle of a run -/

/-- How many orders race control applies in an event, if there are so many. -/
def applies (b : Bot) : Event → Nat
  | .loop =>
    match b.loop with
    | .ordering => 1
    | _ => 0
  | _ => 0

/-- The order that an event gives; nobody takes it when the loop has ended. -/
def gives (b : Bot) (e : Event) : List Dispatch :=
  if b.loop.isFinished then []
  else match e with
    | .execute (.race .finish) => [.finish (b.epoch + 1)]
    | .arm i => b.countdowns[i]?.toList.map fun t => .start i t.epoch
    | _ => []

theorem gives_execute {command : Console.Command} (h : command ≠ .race .finish) :
    gives b (.execute command) = [] := by
  unfold gives
  split
  · rfl
  · split
    · rename_i heq
      cases heq
      exact absurd rfl h
    · rename_i heq
      cases heq
    · rfl

/-- What an event does between the console, the countdowns and race control. -/
def deeds (b : Bot) (inFlight : List Dispatch) : Event → List Deed
  | .execute (.race .start) => [.begun b.epochs.length]
  | .execute (.race .readyStart) => [.begun b.epochs.length]
  | .execute (.race .finish) => [.finished (b.epoch + 1)]
  | .loop =>
    match b.loop, inFlight with
    | .ordering, d :: _ => [.ofApply b.control d]
    | _, _ => []
  | _ => []

def Chronicle.note (c : Chronicle) (b : Bot) (e : Event) (d : Bot) : Chronicle where
  bot := d
  inFlight := c.inFlight.drop (applies b e) ++ gives b e
  log := c.log ++ deeds b c.inFlight e

/-- The chronicle of a run. -/
def chronicle (config : Config) (es : List Event) : Chronicle :=
  accumulate Chronicle.note (.new config) (.new config) es

namespace Chronicle

variable {config : Config} {c : Chronicle} {e : Event} {d : Bot}

theorem note_of_quiet (happlies : applies c.bot e = 0) (hgives : gives c.bot e = [])
    (hdeeds : deeds c.bot c.inFlight e = []) : c.note c.bot e d = { c with bot := d } := by
  simp [note, happlies, hgives, hdeeds]

theorem note_loop (h : c.bot.loop ≠ .ordering) : c.note c.bot .loop d = { c with bot := d } := by
  refine note_of_quiet ?_ (by simp [gives]) ?_
  · rw [applies]
    split
    · exact absurd ‹_› h
    · rfl
  · rw [deeds]
    exact fun _ _ hloop _ => h hloop

theorem note_execute {command : Console.Command} (hscript : command.script? = none)
    (hfinish : command ≠ .race .finish) :
    c.note c.bot (.execute command) d = { c with bot := d } := by
  refine note_of_quiet rfl (gives_execute hfinish) ?_
  rcases command with _ | order | _ | _
  · rfl
  · cases order with
    | start => cases hscript
    | readyStart => cases hscript
    | finish => exact absurd rfl hfinish
    | _ => rfl
  · rfl
  · rfl

theorem Reachable.note_begin (h : Reachable config c) {command : Console.Command}
    {script : List String} (hscript : command.script? = some script) :
    Reachable config (c.note c.bot (.execute command) (c.bot.beginCountdown script)) := by
  have hbegun : Reachable config _ := h.move (.begin script)
  have hnote : c.note c.bot (.execute command) (c.bot.beginCountdown script) =
      ⟨c.bot.beginCountdown script, c.inFlight, c.log ++ [.begun c.bot.epochs.length]⟩ := by
    unfold Console.Command.script? at hscript
    split at hscript
    · simp [note, applies, gives, deeds]
    · simp [note, applies, gives, deeds]
    · cases hscript
  rw [hnote]
  exact hbegun

theorem Reachable.note_finish (h : Reachable config c) :
    Reachable config (c.note c.bot (.execute (.race .finish)) (c.bot.race .finish).2) := by
  have hfinished : Reachable config _ := h.move .finish
  have hnote : c.note c.bot (.execute (.race .finish)) (c.bot.race .finish).2 =
      ⟨(c.bot.race .finish).2, c.give (.finish (c.bot.epoch + 1)),
        c.log ++ [.finished (c.bot.epoch + 1)]⟩ := by
    by_cases hover : c.bot.loop.isFinished = true <;> simp [note, applies, gives, deeds, give, hover]
  rw [hnote]
  exact hfinished

theorem Reachable.note_arm (h : Reachable config c) {i : Nat} {t : Countdown}
    (ht : c.bot.countdowns[i]? = some t)
    (hagrees : d.Agrees { c.bot with orders := c.bot.ordersWith (.armStart t.epoch) }) :
    Reachable config (c.note c.bot (.arm i) d) := by
  have hepoch : c.bot.epochs[i]? = some t.epoch := by
    rw [epochs, List.getElem?_map, ht]
    rfl
  have hgiven : Reachable config ⟨d, c.give (.start i t.epoch), c.log⟩ :=
    (h.move (.arm hepoch)).aside (order_eq c.bot _ ▸ hagrees)
  have hnote : c.note c.bot (.arm i) d = ⟨d, c.give (.start i t.epoch), c.log⟩ := by
    by_cases hover : c.bot.loop.isFinished = true <;>
      simp [note, applies, gives, deeds, give, hover, ht]
  rw [hnote]
  exact hgiven

theorem Reachable.note_apply (h : Reachable config c) {o : Order} {orders : List Order}
    (hloop : c.bot.loop = .ordering) (horders : c.bot.orders = o :: orders)
    (hagrees : d.Agrees { c.bot with orders := orders, control := (c.bot.control.apply o).2 }) :
    Reachable config (c.note c.bot .loop d) := by
  have hmap := h.map_order
  rw [horders] at hmap
  obtain ⟨first, inFlight, hinFlight, rfl, -⟩ := List.map_eq_cons_iff.mp hmap
  have happlied : Reachable config ⟨d, inFlight, c.log ++ [.ofApply c.bot.control first]⟩ :=
    (h.move (.apply horders hinFlight)).aside hagrees
  have hnote : c.note c.bot .loop d = ⟨d, inFlight, c.log ++ [.ofApply c.bot.control first]⟩ := by
    simp [note, applies, gives, deeds, hloop, hinFlight, Loop.isFinished]
  rw [hnote]
  exact happlied

/-- What the chronicle tells of a move of the bot, its own moves allow. -/
theorem Reachable.note (h : Reachable config c) (hstep : Step c.bot e d) :
    Reachable config (c.note c.bot e d) := by
  -- an event that is no move of the chronicle leaves it in agreement with the bot
  cases hstep with
  | begin hscript => exact h.note_begin hscript
  | finish => exact race_finish_eq c.bot ▸ h.note_finish
  | arm ht =>
    exact h.note_arm ht (agrees_setCountdown ht rfl ⟨rfl, rfl, rfl, rfl⟩ rfl)
  | apply hloop horders => exact h.note_apply hloop horders (agrees_issue _ _ _)
  | say hmessage =>
    rw [note_execute (Console.Command.script?_of_message? hmessage)
      (Console.Command.ne_finish_of_message? hmessage)]
    exact h.aside ⟨rfl, rfl, rfl, rfl⟩
  | stop =>
    rw [note_execute rfl (by simp)]
    exact h.aside ⟨rfl, rfl, rfl, rfl⟩
  | reply _ hscript hfinish =>
    rw [note_execute hscript hfinish]
    exact h.aside (.refl c.bot)
  | requestStop =>
    rw [note_of_quiet rfl (by simp [gives]) rfl]
    exact h.aside ⟨rfl, rfl, rfl, rfl⟩
  | wake ht | quit ht =>
    rw [note_of_quiet rfl (by simp [gives]) rfl]
    exact h.aside (agrees_setCountdown ht rfl (.refl c.bot) rfl)
  | speak ht | speakRefused ht =>
    rw [note_of_quiet rfl (by simp [gives]) rfl]
    exact h.aside (agrees_setCountdown ht rfl ⟨rfl, rfl, rfl, rfl⟩ rfl)
  | ordered hloop horders =>
    have hinFlight : c.inFlight = [] := List.map_eq_nil_iff.mp (h.map_order.trans horders)
    have hnote : c.note c.bot .loop { c.bot with loop := .collecting } =
        { c with bot := { c.bot with loop := .collecting } } := by
      simp [Chronicle.note, gives, deeds, hinFlight]
    rw [hnote]
    exact h.aside ⟨rfl, rfl, rfl, rfl⟩
  | @route m batch hloop =>
    rw [note_loop (by rw [hloop]; nofun)]
    exact (h.move (.route m)).aside (agrees_issue _ _ _)
  | loopBegins hloop | loopRefused hloop | loopStops hloop | tick hloop | collect hloop
  | routed hloop | looksClosed hloop | looksOpen hloop | loopEnds hloop =>
    rw [note_loop (by rw [hloop]; nofun)]
    exact h.aside ⟨rfl, rfl, rfl, rfl⟩
  | connection =>
    rw [note_of_quiet rfl (by simp [gives]) rfl]
    exact h.aside ⟨rfl, rfl, rfl, rfl⟩

end Chronicle

/-- The chronicle of a run leads where the bot went, by moves of a chronicle. -/
theorem chronicle_of_run {config : Config} {es : List Event} {b : Bot}
    (hrun : (Bot.new config).run? es = some b) :
    (chronicle config es).bot = b ∧ Chronicle.Reachable config (chronicle config es) := by
  have hstart : (Chronicle.new config).bot = Bot.new config ∧
      Chronicle.Reachable config (.new config) := ⟨rfl, .new⟩
  refine accumulate_keeps (P := fun c b => c.bot = b ∧ Chronicle.Reachable config c) ?_ hstart hrun
  rintro c _ e d ⟨rfl, hreachable⟩ hstep
  exact ⟨rfl, hreachable.note hstep⟩

end Bot

end RaceSteward
