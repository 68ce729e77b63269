import RaceSteward.Proofs.Bot.Minutes
import RaceSteward.Proofs.RaceControl.Orders

/-!
# What countdowns say and order

* `Bot.Turn`: what an event does to one countdown, by `Bot.turn_of_step`.
* `Bot.Progress`: the lines that a countdown has said are a beginning of its script, and it gives
  its order when it has said them all.
* `Bot.question_of_step`: only race control asks who is online, when it applies such an order.
* `Bot.Attested`: what all of this comes to in the minutes of a bot; `Bot.Attested.step` keeps it.
-/

namespace RaceSteward

open Console (Command countdownScript readyCountdownScript)
open Link (Connection)

namespace Bot

variable {config : Config} {b d : Bot} {e : Event} {m : Minutes} {i : Nat} {t t' : Countdown}

/-! ## One countdown -/

/-- An event that can change a countdown. -/
def Event.concerns (i : Nat) : Event → Bool
  | .execute (.race .finish) => true
  | .wake j | .speak j | .arm j | .quit j => j == i
  | _ => false

theorem concerns_execute {command : Command} (hfinish : command ≠ .race .finish) (i : Nat) :
    Event.concerns i (.execute command) = false := by
  unfold Event.concerns
  split <;> simp_all

/-- What an event does to one of the countdowns. -/
inductive Turn (b : Bot) (i : Nat) (t : Countdown) : Event → Countdown → Prop
  | still {e : Event} (hother : e.concerns i = false) : Turn b i t e t
  | abort : Turn b i t (.execute (.race .finish)) t.abort
  | wake (hphase : t.phase = .fresh ∨ t.phase = .sleeping) :
    Turn b i t (.wake i) { t with phase := .speaking }
  | speak {line : String} {rest : List String} (hphase : t.phase = .speaking)
    (hscript : t.script = line :: rest) (hstored : storedBy b (.speak i) = [.broadcast line]) :
    Turn b i t (.speak i) (t.pause rest)
  | refused {line : String} {rest : List String} (hphase : t.phase = .speaking)
    (hscript : t.script = line :: rest) (hstored : storedBy b (.speak i) <+: [.broadcast line]) :
    Turn b i t (.speak i) { t with phase := .done }
  | arm (hphase : t.phase = .arming) : Turn b i t (.arm i) { t with phase := .done }
  | quit (hphase : t.phase = .sleeping) : Turn b i t (.quit i) { t with phase := .done }

theorem not_isFull_of_sendBatch {c c' : Connection} {batch : List Message} {pending : Nat}
    (h : c.sendBatch batch = (.ok pending, c')) : c.outbound.isFull = false := by
  rw [← Bool.not_eq_true]
  intro hfull
  simp [Connection.sendBatch, Mailbox.extend, hfull] at h

theorem turn_of_set {j : Nat} {u u' : Countdown} (hset : d.countdowns = b.countdowns.set j u')
    (hj : b.countdowns[j]? = some u) (hothers : e.concerns i = (j == i))
    (hturn : Turn b j u e u') (ht : b.countdowns[i]? = some t) :
    ∃ t', d.countdowns[i]? = some t' ∧ Turn b i t e t' := by
  by_cases hi : j = i
  · subst hi
    rw [hj] at ht
    cases ht
    obtain ⟨hlt, -⟩ := List.getElem?_eq_some_iff.mp hj
    exact ⟨u', by rw [hset, List.getElem?_set_self hlt], hturn⟩
  · rw [beq_false_of_ne hi] at hothers
    exact ⟨t, by rw [hset, List.getElem?_set_ne hi, ht], .still hothers⟩

theorem turn_of_step (h : Step b e d) (ht : b.countdowns[i]? = some t) :
    ∃ t', d.countdowns[i]? = some t' ∧ Turn b i t e t' := by
  cases h with
  | say hmessage =>
    exact ⟨t, ht, .still (concerns_execute (Command.ne_finish_of_message? hmessage) i)⟩
  | begin hscript =>
    refine ⟨t, ?_, .still (concerns_execute (Command.ne_finish_of_script? hscript) i)⟩
    exact (List.getElem?_append_left (List.getElem?_eq_some_iff.mp ht).1).trans ht
  | reply _ _ hfinish => exact ⟨t, ht, .still (concerns_execute hfinish i)⟩
  | finish => exact ⟨t.abort, by simp [ht], .abort⟩
  | wake hj hphase => exact turn_of_set rfl hj rfl (.wake hphase) ht
  | speak hj hphase hscript hsend =>
    refine turn_of_set rfl hj rfl (.speak hphase hscript ?_) ht
    rw [storedBy_speak hj hscript, not_isFull_of_sendBatch hsend]
    rfl
  | speakRefused hj hphase hscript hsend =>
    refine turn_of_set rfl hj rfl (.refused hphase hscript ?_) ht
    rw [storedBy_speak hj hscript]
    split <;> simp
  | arm hj hphase => exact turn_of_set rfl hj rfl (.arm hphase) ht
  | quit hj hphase hstopping => exact turn_of_set rfl hj rfl (.quit hphase) ht
  | _ => exact ⟨t, by simpa [leave] using ht, .still rfl⟩

theorem countdowns_of_step (h : Step b e d) :
    ∃ old, old.length = b.countdowns.length ∧
      d.countdowns = old ++ (begins e).map (⟨·, b.epoch, .fresh, false⟩) := by
  cases h with
  | say hmessage =>
    exact ⟨b.countdowns, rfl, by simp [begins, Command.script?_of_message? hmessage]⟩
  | begin hscript => exact ⟨b.countdowns, rfl, by simp [begins, hscript, beginCountdown]⟩
  | reply _ hscript => exact ⟨b.countdowns, rfl, by simp [begins, hscript]⟩
  | apply hloop horders => exact ⟨b.countdowns, rfl, by simp [begins]⟩
  | route hloop => exact ⟨b.countdowns, rfl, by simp [begins]⟩
  | _ => exact ⟨_, by simp [leave, setCountdown], (List.append_nil _).symm⟩

/-! ## What a countdown has done -/

/-- What a countdown has done: the lines it has put into the outbound mailbox, and whether it has
given its order. -/
structure Progress (script : List String) (t : Countdown) (lines : List Message) (armed : Prop) :
    Prop where
  told : lines <+: script.map .broadcast
  left : t.phase ≠ .done → lines ++ t.script.map .broadcast = script.map .broadcast
  arming : t.phase = .arming → t.script = []
  armed : armed → t.phase = .done ∧ lines = script.map .broadcast

@[simp] theorem script_abort (t : Countdown) : t.abort.script = t.script := by
  unfold Countdown.abort
  split <;> rfl

theorem phase_abort (t : Countdown) : t.abort.phase = t.phase ∨ t.abort.phase = .done := by
  unfold Countdown.abort
  split <;> simp

namespace Progress

variable {script : List String} {lines : List Message} {armed : Prop}

theorem silent (h : Progress script t lines armed) (hscript : t'.script = t.script)
    (hdone : t.phase = .done → t'.phase = .done)
    (hphase : t'.phase = t.phase ∨ t'.phase = .done ∨ t'.phase = .speaking) :
    Progress script t' lines armed where
  told := h.told
  left h' := by
    rw [hscript]
    exact h.left fun hover => h' (hdone hover)
  arming h' := by
    rw [hscript]
    rcases hphase with hphase | hphase | hphase
    · exact h.arming (hphase.symm.trans h')
    · cases hphase.symm.trans h'
    · cases hphase.symm.trans h'
  armed h' := ⟨hdone (h.armed h').1, (h.armed h').2⟩

theorem not_armed (h : Progress script t lines armed) (hphase : t.phase ≠ .done) : ¬ armed :=
  fun h' => hphase (h.armed h').1

theorem speak {line : String} {rest : List String} (h : Progress script t lines armed)
    (hphase : t.phase = .speaking) (hscript : t.script = line :: rest) :
    Progress script (t.pause rest) (lines ++ [.broadcast line]) armed := by
  have hgoing : t.phase ≠ .done := by
    rw [hphase]
    nofun
  have hleft : lines ++ [.broadcast line] ++ rest.map .broadcast = script.map .broadcast := by
    rw [← h.left hgoing, hscript, List.append_assoc]
    rfl
  constructor
  case told =>
    rw [← hleft]
    exact List.prefix_append ..
  case left => exact fun _ => hleft
  case arming =>
    intro h'
    rcases rest with _ | ⟨next, rest⟩
    · rfl
    · cases haborted : t.aborted <;> simp [Countdown.pause, haborted] at h'
  case armed => exact fun h' => absurd h' (h.not_armed hgoing)

/-- A countdown whose line is refused ends, whether or not the line has been stored. -/
theorem refused {line : String} {rest : List String} {stored : List Message}
    (h : Progress script t lines armed) (hphase : t.phase = .speaking)
    (hscript : t.script = line :: rest) (hstored : stored <+: [.broadcast line]) :
    Progress script { t with phase := .done } (lines ++ stored) armed := by
  have hgoing : t.phase ≠ .done := by
    rw [hphase]
    nofun
  constructor
  case told =>
    rw [← h.left hgoing, hscript]
    refine (List.prefix_append_right_inj lines).mpr (hstored.trans ?_)
    exact List.prefix_append [Message.broadcast line] _
  case left => exact fun h' => absurd rfl h'
  case arming => nofun
  case armed => exact fun h' => absurd h' (h.not_armed hgoing)

theorem arm (h : Progress script t lines armed) (hphase : t.phase = .arming) (armed' : Prop) :
    Progress script { t with phase := .done } lines armed' := by
  have hgoing : t.phase ≠ .done := by
    rw [hphase]
    nofun
  have hwhole : lines = script.map .broadcast := by
    rw [← h.left hgoing, h.arming hphase]
    exact (List.append_nil lines).symm
  exact ⟨h.told, fun h' => absurd rfl h', nofun, fun _ => ⟨rfl, hwhole⟩⟩

theorem mono {armed' : Prop} (h : Progress script t lines armed) (harmed : armed' → armed) :
    Progress script t lines armed' :=
  ⟨h.told, h.left, h.arming, fun h' => h.armed (harmed h')⟩

theorem turn (h : Progress script t (linesBy m.said i) (m.Armed i)) (hturn : Turn b i t e t') :
    Progress script t' (linesBy (m.note b e d).said i) ((m.note b e d).Armed i) := by
  have harmed (hother : e ≠ .arm i) (h : (m.note b e d).Armed i) : m.Armed i :=
    (armed_of_note h).resolve_right hother
  -- only when it speaks is there a line more
  rw [linesBy_note]
  cases hturn with
  | still hother =>
    have hspeak : e ≠ .speak i := by
      rintro rfl
      simp [Event.concerns] at hother
    have harm : e ≠ .arm i := by
      rintro rfl
      simp [Event.concerns] at hother
    rw [if_neg hspeak, List.append_nil]
    exact h.mono (harmed harm)
  | abort =>
    rw [if_neg nofun, List.append_nil]
    refine .mono (h.silent (script_abort t) ?_ ?_) (harmed nofun)
    · intro hdone
      rcases phase_abort t with hphase | hphase
      · exact hphase.trans hdone
      · exact hphase
    · exact (phase_abort t).imp_right .inl
  | wake hphase =>
    rw [if_neg nofun, List.append_nil]
    refine .mono (h.silent rfl ?_ (.inr (.inr rfl))) (harmed nofun)
    intro hdone
    simp [hdone] at hphase
  | speak hphase hscript hstored =>
    rw [if_pos rfl, hstored]
    exact .mono (h.speak hphase hscript) (harmed nofun)
  | refused hphase hscript hstored =>
    rw [if_pos rfl]
    exact .mono (h.refused hphase hscript hstored) (harmed nofun)
  | arm hphase =>
    rw [if_neg nofun, List.append_nil]
    exact h.arm hphase _
  | quit hphase =>
    rw [if_neg nofun, List.append_nil]
    exact .mono (h.silent rfl (fun _ => rfl) (.inr (.inl rfl))) (harmed nofun)

end Progress

/-! ## Questions -/

theorem arms_of_question {rc : RaceControl} {s : RaceControl.Step}
    (h : .whoIsOnline ∈ (rc.step s).1.sent) : rc.Arms s := by
  by_cases harms : rc.Arms s
  · exact harms
  · rw [(RaceControl.sent_step rc s).2 harms] at h
    simp [Message.whoIsOnline] at h

theorem question_not_said (command : Command) : command.message? ≠ some .whoIsOnline := by
  unfold Command.message?
  split <;> nofun

theorem question_not_spoken {line : String} {rest : List String} (ht : b.countdowns[i]? = some t)
    (hscript : t.script = line :: rest) : .whoIsOnline ∉ storedBy b (.speak i) := by
  rw [storedBy_speak ht hscript]
  split <;> simp [Message.broadcast, Message.whoIsOnline]

theorem question_of_loop (hasked : .whoIsOnline ∈ storedBy b .loop) :
    b.loop = .ordering ∧ storedBy b .loop = [.whoIsOnline] ∧
      ∃ epoch orders, b.orders = .armStart epoch :: orders := by
  cases hloop : b.loop with
  | ordering =>
    rcases horders : b.orders with _ | ⟨o, orders⟩
    · simp [storedBy, linkEvents, loopEvents, hloop, horders] at hasked
    · rw [storedBy_apply hloop horders] at hasked ⊢
      split at hasked
      · cases hasked
      · rename_i hroom
        have harms : b.control.Arms (.apply o) := arms_of_question hasked
        cases o with
        | forceStop epoch => cases harms
        | armStart epoch =>
          rw [if_neg hroom, RaceControl.apply_armStart_of_le harms]
          exact ⟨rfl, rfl, epoch, orders, rfl⟩
  | routing batch =>
    rcases batch with _ | ⟨first, batch⟩
    · simp [storedBy, linkEvents, loopEvents, hloop] at hasked
    · rw [storedBy_route hloop] at hasked
      split at hasked
      · cases hasked
      · exact absurd (arms_of_question (s := .route first) hasked) id
  | resting =>
    cases hstopping : b.stopping <;>
      simp [storedBy, linkEvents, loopEvents, hloop, hstopping, Connection.stores] at hasked
  | checking =>
    by_cases hclosed : b.connection.state = .closed <;>
      simp [storedBy, linkEvents, loopEvents, hloop, hclosed, Connection.stores] at hasked
  | _ => simp [storedBy, linkEvents, loopEvents, hloop, Connection.stores] at hasked

theorem question_of_step (h : Step b e d) (hasked : .whoIsOnline ∈ storedBy b e) : e = .loop := by
  cases h with
  | say | begin | finish | stop | reply =>
    rw [storedBy_execute] at hasked
    split at hasked
    · cases hasked
    · exact absurd (Option.mem_toList.mp hasked) (question_not_said _)
  | speak ht _ hscript | speakRefused ht _ hscript =>
    exact absurd hasked (question_not_spoken ht hscript)
  | @connection outside _ houtside _ =>
    cases outside with
    | sendBatch batch => cases houtside
    | _ => simp [storedBy, linkEvents, Connection.stores] at hasked
  | requestStop | wake | arm | quit => simp [storedBy, linkEvents] at hasked
  | _ => rfl

/-! ## All countdowns -/

theorem script_of_begins {script : List String} (h : script ∈ begins e) :
    script = countdownScript ∨ script = readyCountdownScript := by
  unfold begins at h
  split at h
  · rename_i command
    unfold Command.script? at h
    split at h <;> simp_all
  · cases h

theorem split_of_append {α : Type} {first second before after : List α} {x : α}
    (h : first ++ second = before ++ x :: after) :
    (∃ rest, first = before ++ x :: rest) ∨
      ∃ more, before = first ++ more ∧ second = more ++ x :: after := by
  rcases List.append_eq_append_iff.mp h with ⟨more, hbefore, hsecond⟩ | ⟨rest, hfirst, hrest⟩
  · exact .inr ⟨more, hbefore, hsecond⟩
  · rcases rest with _ | ⟨y, rest⟩
    · exact .inr ⟨[], by simpa using hfirst.symm, hrest.symm⟩
    · cases hrest
      exact .inl ⟨rest, hfirst⟩

/-- What the minutes say about the countdowns and about the starts they arm. -/
structure Attested (m : Minutes) (b : Bot) : Prop where
  inFlight : m.inFlight.map (·.order) = b.orders
  count : m.scripts.length = b.countdowns.length
  scripts : ∀ script ∈ m.scripts, script = countdownScript ∨ script = readyCountdownScript
  progress : ∀ {i t script}, b.countdowns[i]? = some t → m.scripts[i]? = some script →
    Progress script t (linesBy m.said i) (m.Armed i)
  unborn : ∀ {i}, b.countdowns.length ≤ i → linesBy m.said i = [] ∧ ¬ m.Armed i
  sources : ∀ {x order}, x ∈ m.said → x.source = .order order → order ∈ m.applied
  questions : ∀ {before after x}, m.said = before ++ x :: after → x.message = .whoIsOnline →
    ∃ i epoch script, x.source = .order (.start i epoch) ∧ m.scripts[i]? = some script ∧
      linesBy before i = script.map .broadcast

namespace Attested

theorem empty (config : Config) : Attested .empty (.new config) where
  inFlight := rfl
  count := rfl
  scripts := nofun
  progress := nofun
  unborn _ := ⟨rfl, by simp [Minutes.Armed, Minutes.given, Minutes.empty]⟩
  sources := nofun
  questions {before after x} h := by simp [Minutes.empty] at h

theorem whole (h : Attested m b) (harmed : m.Armed i) :
    ∃ script, m.scripts[i]? = some script ∧ linesBy m.said i = script.map .broadcast := by
  have hi : i < b.countdowns.length := Nat.lt_of_not_le fun hle => (h.unborn hle).2 harmed
  have hi' : i < m.scripts.length := by rwa [h.count]
  have hp := h.progress (List.getElem?_eq_getElem hi) (List.getElem?_eq_getElem hi')
  exact ⟨_, List.getElem?_eq_getElem hi', (hp.armed harmed).2⟩

theorem done_of_armed (h : Attested m b) (ht : b.countdowns[i]? = some t) (harmed : m.Armed i) :
    t.phase = .done := by
  obtain ⟨script, hscript, -⟩ := h.whole harmed
  exact ((h.progress ht hscript).armed harmed).1

theorem armed_of_heard (h : Attested m b) (hheard : m.Heard i) : m.Armed i := by
  obtain ⟨x, hx, epoch, hsource⟩ := hheard
  exact ⟨epoch, List.mem_append_left _ (h.sources hx hsource)⟩

theorem unborn_note (h : Attested m b) (hi : b.countdowns.length ≤ i) :
    linesBy (m.note b e d).said i = [] ∧ ¬ (m.note b e d).Armed i := by
  have hnone : b.countdowns[i]? = none := List.getElem?_eq_none hi
  obtain ⟨hlines, harmed⟩ := h.unborn hi
  constructor
  · rw [linesBy_note, hlines]
    split
    · rename_i hspeak
      simp [hspeak, storedBy, linkEvents, hnone]
    · rfl
  · rintro ⟨epoch, hgiven⟩
    rw [given_note] at hgiven
    rcases List.mem_append.mp hgiven with hgiven | hgives
    · exact harmed ⟨epoch, hgiven⟩
    · obtain ⟨-, t, ht, -⟩ := gives_start hgives
      rw [hnone] at ht
      cases ht

theorem progress_note (h : Attested m b) (hstep : Step b e d) {script : List String}
    (ht : d.countdowns[i]? = some t) (hscript : (m.note b e d).scripts[i]? = some script) :
    Progress script t (linesBy (m.note b e d).said i) ((m.note b e d).Armed i) := by
  by_cases hi : i < b.countdowns.length
  · obtain ⟨t', ht', hturn⟩ := turn_of_step hstep (List.getElem?_eq_getElem hi)
    rw [ht] at ht'
    cases ht'
    rw [Minutes.note, List.getElem?_append_left (by rwa [h.count])] at hscript
    exact (h.progress (List.getElem?_eq_getElem hi) hscript).turn hturn
  · have hle := Nat.le_of_not_lt hi
    obtain ⟨old, hold, hcountdowns⟩ := countdowns_of_step hstep
    rw [hcountdowns, List.getElem?_append_right (by rwa [hold]), hold, List.getElem?_map] at ht
    rw [Minutes.note, List.getElem?_append_right (by rwa [h.count]), h.count] at hscript
    rw [hscript, Option.map_some, Option.some.injEq] at ht
    subst ht
    obtain ⟨hlines, harmed⟩ := h.unborn_note (e := e) (d := d) hle
    rw [hlines]
    exact ⟨List.nil_prefix, fun _ => rfl, by simp, fun h' => absurd h' harmed⟩

/-- A question that is asked now answers the order of a countdown that has said all its lines. -/
theorem question_note (h : Attested m b) (hstep : Step b e d) (more : List Entry)
    {after : List Entry} {x : Entry}
    (hnew : (storedBy b e).map (⟨m.speaker b e, ·⟩) = more ++ x :: after)
    (hquestion : x.message = .whoIsOnline) :
    more = [] ∧ ∃ i epoch script, x.source = .order (.start i epoch) ∧
      m.scripts[i]? = some script ∧ linesBy m.said i = script.map .broadcast := by
  have hx : x ∈ (storedBy b e).map (⟨m.speaker b e, ·⟩) := by
    rw [hnew]
    exact List.mem_append_right more List.mem_cons_self
  obtain ⟨message, hmessage, rfl⟩ := List.mem_map.mp hx
  cases hquestion
  obtain rfl := question_of_step hstep hmessage
  obtain ⟨hloop, hstored, epoch, orders, horders⟩ := question_of_loop hmessage
  rw [hstored] at hnew
  refine ⟨by cases more <;> simp_all, ?_⟩
  rw [← h.inFlight] at horders
  obtain ⟨dispatch, inFlight, hflight, horder, -⟩ := List.map_eq_cons_iff.mp horders
  cases dispatch with
  | finish epoch => cases horder
  | start i epoch =>
    have harmed : m.Armed i := ⟨epoch, by simp [Minutes.given, hflight]⟩
    obtain ⟨script, hscript, hlines⟩ := h.whole harmed
    exact ⟨i, epoch, script, by simp [Minutes.speaker, hloop, hflight], hscript, hlines⟩

theorem step (h : Attested m b) (hstep : Step b e d) : Attested (m.note b e d) d := by
  obtain ⟨old, hold, hcountdowns⟩ := countdowns_of_step hstep
  have hscripts {i : Nat} {script : List String} (hscript : m.scripts[i]? = some script) :
      (m.note b e d).scripts[i]? = some script := by
    obtain ⟨hi, -⟩ := List.getElem?_eq_some_iff.mp hscript
    rw [Minutes.note, List.getElem?_append_left hi, hscript]
  constructor
  case inFlight => exact inFlight_note h.inFlight hstep
  case count =>
    rw [hcountdowns, Minutes.note, List.length_append, List.length_append, List.length_map, hold,
      h.count]
  case scripts =>
    intro script hscript
    rcases List.mem_append.mp hscript with hscript | hscript
    · exact h.scripts script hscript
    · exact script_of_begins hscript
  case progress => exact h.progress_note hstep
  case unborn =>
    intro i hi
    refine h.unborn_note (Nat.le_trans ?_ hi)
    rw [hcountdowns, List.length_append, hold]
    exact Nat.le_add_right ..
  case sources =>
    intro x order hx hsource
    rcases List.mem_append.mp hx with hx | hx
    · exact List.mem_append_left _ (h.sources hx hsource)
    · obtain ⟨message, -, rfl⟩ := List.mem_map.mp hx
      obtain ⟨rfl, hloop, rest, hflight⟩ := applies_of_speaker hsource
      simp [Minutes.note, applies, hloop, hflight]
  case questions =>
    intro before after x hsaid hquestion
    rcases split_of_append hsaid with ⟨rest, hold⟩ | ⟨more, rfl, hnew⟩
    · obtain ⟨i, epoch, script, hsource, hscript, hlines⟩ := h.questions hold hquestion
      exact ⟨i, epoch, script, hsource, hscripts hscript, hlines⟩
    · obtain ⟨rfl, i, epoch, script, hsource, hscript, hlines⟩ :=
        h.question_note hstep more hnew hquestion
      exact ⟨i, epoch, script, hsource, hscripts hscript, by rwa [List.append_nil]⟩

end Attested

end Bot

end RaceSteward
