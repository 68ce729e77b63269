import RaceSteward.Proofs.Bot.Countdowns
import RaceSteward.Proofs.Bot.ForcedFinish

/-!
# No start without a whole countdown

Countdowns say their lines side by side with each other, the console and race control, and hand over
from the outbound mailbox to the orders of race control.

* `Bot.Lost`: a countdown that has been cut short never gives its order.
* `Bot.Overtaken`: what a countdown orders after a forced finish comes to nothing.
* `Bot.starts_of_run`: no run arms a start without a whole countdown.
-/

namespace RaceSteward

open Console (countdownScript readyCountdownScript)
open Link (Connection)

/-- A countdown that is over, or that has been called off before its last line. -/
def Countdown.Doomed (t : Countdown) : Prop :=
  t.phase = .done ∨ t.phase = .speaking ∧ t.aborted = true ∧ 2 ≤ t.script.length

namespace Bot

variable {config : Config} {b d : Bot} {e : Event} {m : Minutes} {i : Nat} {t t' : Countdown}

/-! ## Countdowns that are cut short -/

/-- An event cuts a countdown short. -/
inductive CutShort (b : Bot) (i : Nat) : Event → Prop
  /-- A forced finish finds it before its last line. -/
  | finish {t : Countdown} (ht : b.countdowns[i]? = some t)
    (hphase : t.phase = .fresh ∨ t.phase = .sleeping ∨ t.phase = .speaking ∧ 2 ≤ t.script.length) :
    CutShort b i (.execute (.race .finish))
  /-- The bot stops while it pauses. -/
  | shutdown : CutShort b i (.quit i)
  /-- Its line is refused. -/
  | refused {t : Countdown} {line : String} {rest : List String} {e : Link.Error}
    {connection : Connection} (ht : b.countdowns[i]? = some t) (hscript : t.script = line :: rest)
    (hsend : b.connection.send (.broadcast line) = (.error e, connection)) : CutShort b i (.speak i)

theorem doomed_abort (h : t.phase = .done ∨ t.phase = .fresh ∨ t.phase = .sleeping ∨
    t.phase = .speaking ∧ 2 ≤ t.script.length) : t.abort.Doomed := by
  rcases h with hphase | hphase | hphase | ⟨hphase, hleft⟩
  · exact .inl (by simp [Countdown.abort, hphase])
  · exact .inl (by simp [Countdown.abort, hphase])
  · exact .inl (by simp [Countdown.abort, hphase])
  · exact .inr (by simp [Countdown.abort, hphase, hleft])

/-- A countdown called off before its last line says no more than the line it is about to say. -/
theorem Turn.doomed (hturn : Turn b i t e t') (h : t.Doomed) : t'.Doomed := by
  cases hturn with
  | still => exact h
  | abort => exact doomed_abort (h.imp_right fun h => .inr (.inr ⟨h.1, h.2.2⟩))
  | wake hphase => rcases h with h | ⟨h, -⟩ <;> simp [h] at hphase
  | @speak line rest hphase hscript =>
    rcases h with h | ⟨-, haborted, hleft⟩
    · simp [h] at hphase
    · rcases rest with _ | ⟨next, rest⟩
      · simp [hscript] at hleft
      · exact .inl (by simp [Countdown.pause, haborted])
  | refused => exact .inl rfl
  | arm hphase => exact .inl rfl
  | quit hphase => exact .inl rfl

theorem Turn.not_arming (hturn : Turn b i t (.arm i) t') : t.phase = .arming := by
  cases hturn with
  | still hother => simp [Event.concerns] at hother
  | arm hphase => exact hphase

/-- A countdown that never gives its order. -/
structure Lost (i : Nat) (m : Minutes) (b : Bot) : Prop where
  doomed : ∃ t, b.countdowns[i]? = some t ∧ t.Doomed
  unarmed : ¬ m.Armed i

theorem Lost.step (h : Lost i m b) (hstep : Step b e d) : Lost i (m.note b e d) d := by
  obtain ⟨t, ht, hdoomed⟩ := h.doomed
  obtain ⟨t', ht', hturn⟩ := turn_of_step hstep ht
  refine ⟨⟨t', ht', hturn.doomed hdoomed⟩, fun harmed => ?_⟩
  rcases armed_of_note harmed with harmed | rfl
  · exact h.unarmed harmed
  · rcases hdoomed with hphase | ⟨hphase, -⟩ <;> cases hphase.symm.trans hturn.not_arming

theorem lost_of_doomed (h : Attested m b) (ht : b.countdowns[i]? = some t)
    (hphase : t.phase ≠ .done) (harm : e ≠ .arm i) (ht' : d.countdowns[i]? = some t')
    (hdoomed : t'.Doomed) : Lost i (m.note b e d) d :=
  ⟨⟨t', ht', hdoomed⟩, fun harmed =>
    hphase (h.done_of_armed ht ((armed_of_note harmed).resolve_right harm))⟩

theorem lost_of_cutShort (h : Attested m b) (hcut : CutShort b i e) (hstep : Step b e d) :
    Lost i (m.note b e d) d := by
  cases hcut with
  | finish ht hphase =>
    obtain ⟨t', ht', hturn⟩ := turn_of_step hstep ht
    refine lost_of_doomed h ht ?_ nofun ht' ?_
    · rcases hphase with hphase | hphase | ⟨hphase, -⟩ <;> simp [hphase]
    · cases hturn with
      | still hother => cases hother
      | abort => exact doomed_abort (.inr hphase)
  | shutdown =>
    cases hstep with
    | quit ht hphase =>
      have hi := (List.getElem?_eq_some_iff.mp ht).1
      exact lost_of_doomed h ht (by simp [hphase]) nofun (List.getElem?_set_self hi) (.inl rfl)
  | refused ht hscript hsend =>
    cases hstep with
    | speak ht₁ hphase hscript₁ hsend₁ =>
      cases ht.symm.trans ht₁
      cases hscript.symm.trans hscript₁
      cases hsend.symm.trans hsend₁
    | speakRefused ht₁ hphase =>
      have hi := (List.getElem?_eq_some_iff.mp ht₁).1
      exact lost_of_doomed h ht₁ (by simp [hphase]) nofun (List.getElem?_set_self hi) (.inl rfl)

/-! ## Countdowns that a forced finish overtakes -/

/-- The orders of a countdown come to race control after a forced finish that is newer. -/
structure Overtaken (i fin : Nat) (m : Minutes) (b : Bot) : Prop where
  older : ∃ t, b.countdowns[i]? = some t ∧ t.epoch < fin
  known : b.loop.isFinished = true ∨ fin ≤ b.control.epoch ∨ .finish fin ∈ m.inFlight
  behind : ∀ {before after epoch}, m.inFlight = before ++ .start i epoch :: after →
    epoch < fin ∧ (fin ≤ b.control.epoch ∨ .finish fin ∈ before)
  unheard : ¬ m.Heard i

theorem Turn.epoch_eq (hturn : Turn b i t e t') : t'.epoch = t.epoch := by
  cases hturn with
  | abort => exact epoch_abort t
  | _ => rfl

theorem isFinished_of_step (hstep : Step b e d) (h : b.loop.isFinished = true) :
    d.loop.isFinished = true := by
  cases hstep <;> simp_all [Loop.isFinished, setCountdown, beginCountdown]

theorem control_epoch_of_step (hstep : Step b e d) : b.control.epoch ≤ d.control.epoch := by
  cases hstep with
  | @apply o orders hloop horders =>
    rw [control_issue]
    cases o with
    | armStart epoch => exact Nat.le_of_eq (RaceControl.epoch_apply_armStart ..).symm
    | forceStop epoch =>
      rw [RaceControl.epoch_apply_forceStop]
      exact Nat.le_max_left ..
  | route hloop =>
    rw [control_issue]
    exact Nat.le_of_eq (RaceControl.epoch_route ..).symm
  | _ => exact Nat.le_refl _

theorem known_of_applied {fin : Nat} (hflight : m.inFlight.map (·.order) = b.orders)
    (hstep : Step b e d) (h : .finish fin ∈ m.inFlight.take (applies b e)) :
    fin ≤ d.control.epoch := by
  have happlied : .forceStop fin ∈ b.orders.take (applies b e) := by
    rw [← hflight, ← List.map_take]
    exact List.mem_map_of_mem h
  cases hstep with
  | apply hloop horders =>
    simp only [applies, hloop, horders, List.take_succ_cons, List.take_zero,
      List.mem_singleton] at happlied
    subst happlied
    rw [control_issue, RaceControl.epoch_apply_forceStop]
    exact Nat.le_max_right ..
  | ordered hloop horders => simp [horders] at happlied
  | _ => simp [applies, *] at happlied

namespace Overtaken

variable {fin : Nat}

theorem begin {t : Countdown} (h : Attested m b) (hstep : Step b (.execute (.race .finish)) d)
    (ht : b.countdowns[i]? = some t) (hepoch : t.epoch ≤ b.epoch) (hunarmed : ¬ m.Armed i) :
    Overtaken i (b.epoch + 1) (m.note b (.execute (.race .finish)) d) d := by
  obtain ⟨t', ht', hturn⟩ := turn_of_step hstep ht
  have hunarmed' : ¬ (m.note b (.execute (.race .finish)) d).Armed i :=
    fun harmed => hunarmed ((armed_of_note harmed).resolve_right nofun)
  constructor
  case older => exact ⟨t', ht', by rw [hturn.epoch_eq]; omega⟩
  case known =>
    by_cases hfinished : b.loop.isFinished = true
    · exact .inl (isFinished_of_step hstep hfinished)
    · exact .inr (.inr (by simp [Minutes.note, gives, hfinished]))
  case behind =>
    intro before after epoch hflight
    refine absurd ⟨epoch, ?_⟩ hunarmed'
    rw [Minutes.given, hflight]
    simp
  case unheard => exact fun hheard => hunarmed' ((h.step hstep).armed_of_heard hheard)

theorem step (h : Overtaken i fin m b) (hflight : m.inFlight.map (·.order) = b.orders)
    (hstep : Step b e d) : Overtaken i fin (m.note b e d) d := by
  have hknown := control_epoch_of_step hstep
  constructor
  case older =>
    obtain ⟨t, ht, hlt⟩ := h.older
    obtain ⟨t', ht', hturn⟩ := turn_of_step hstep ht
    exact ⟨t', ht', by rwa [hturn.epoch_eq]⟩
  case known =>
    rcases h.known with hover | hle | hmem
    · exact .inl (isFinished_of_step hstep hover)
    · exact .inr (.inl (Nat.le_trans hle hknown))
    · rw [← List.take_append_drop (applies b e) m.inFlight] at hmem
      rcases List.mem_append.mp hmem with hmem | hmem
      · exact .inr (.inl (known_of_applied hflight hstep hmem))
      · exact .inr (.inr (List.mem_append_left _ hmem))
  case behind =>
    intro before after epoch hsplit
    -- the order was in flight before, or the countdown has given it just now
    rcases split_of_append hsplit with ⟨rest, hold⟩ | ⟨more, rfl, hgives⟩
    · obtain ⟨hlt, hfin⟩ := @h.behind (m.inFlight.take (applies b e) ++ before) rest epoch (by
        rw [List.append_assoc, ← hold, List.take_append_drop])
      refine ⟨hlt, ?_⟩
      rcases hfin with hle | hmem
      · exact .inl (Nat.le_trans hle hknown)
      · rcases List.mem_append.mp hmem with hmem | hmem
        · exact .inl (known_of_applied hflight hstep hmem)
        · exact .inr hmem
    · have hgiven : .start i epoch ∈ gives b e := by
        rw [hgives]
        exact List.mem_append_right more List.mem_cons_self
      have hgoing : ¬ b.loop.isFinished = true := by
        intro hover
        simp [gives, hover] at hgiven
      obtain ⟨rfl, t, ht, rfl⟩ := gives_start hgiven
      obtain ⟨t', ht', hlt⟩ := h.older
      cases ht.symm.trans ht'
      refine ⟨hlt, ?_⟩
      rcases h.known.resolve_left hgoing with hle | hmem
      · exact .inl (Nat.le_trans hle hknown)
      · exact .inr (List.mem_append_left more hmem)
  case unheard =>
    rintro ⟨x, hx, epoch, hsource⟩
    rcases List.mem_append.mp hx with hx | hx
    · exact h.unheard ⟨x, hx, epoch, hsource⟩
    · obtain ⟨message, hmessage, rfl⟩ := List.mem_map.mp hx
      obtain ⟨rfl, hloop, rest, hrest⟩ := applies_of_speaker hsource
      obtain ⟨hlt, hfin⟩ := @h.behind [] rest epoch hrest
      have hstale : epoch < b.control.epoch := Nat.lt_of_lt_of_le hlt (by simpa using hfin)
      rw [hrest] at hflight
      rw [storedBy_apply hloop hflight.symm] at hmessage
      simp [Dispatch.order, RaceControl.apply_armStart_of_lt hstale, Bulletin.silent] at hmessage

end Overtaken

/-! ## Every run -/

theorem attested_of_run {es : List Event} (hrun : (new config).run? es = some b) :
    Attested (minutes config es) b :=
  accumulate_keeps (fun h hstep => h.step hstep) (.empty config) hrun

theorem minutes_append {es : List Event} (hrun : (new config).run? es = some b)
    (later : List Event) :
    minutes config (es ++ later) = accumulate Minutes.note (minutes config es) b later :=
  accumulate_append hrun later

/-- Once cut short, a countdown never gives its order. -/
theorem lost_of_run {es later : List Event} (hrun : (new config).run? es = some b)
    (hcut : CutShort b i e) (hlater : b.run? (e :: later) = some d) :
    Lost i (minutes config (es ++ e :: later)) d := by
  obtain ⟨next, hnext, hrest⟩ := exists_step_of_run? hlater
  have hlost := lost_of_cutShort (attested_of_run hrun) hcut (step_of_step? hnext)
  rw [minutes_append hrun, accumulate, hnext]
  exact accumulate_keeps (fun h hstep => h.step hstep) hlost hrest

theorem epoch_le_of_run {es : List Event} (hrun : (new config).run? es = some b)
    (ht : b.countdowns[i]? = some t) : t.epoch ≤ b.epoch := by
  obtain ⟨rfl, hreachable⟩ := chronicle_of_run hrun
  exact hreachable.dated.le (i := i) (by simp [epochs, ht])

theorem overtaken_of_run {es later : List Event} (hrun : (new config).run? es = some b)
    (hi : i < b.countdowns.length) (hunarmed : ¬ (minutes config es).Armed i)
    (hlater : b.run? (.execute (.race .finish) :: later) = some d) :
    Overtaken i (b.epoch + 1)
      (minutes config (es ++ .execute (.race .finish) :: later)) d := by
  obtain ⟨next, hnext, hrest⟩ := exists_step_of_run? hlater
  have hatt := attested_of_run hrun
  have hstep := step_of_step? hnext
  have ht := List.getElem?_eq_getElem hi
  have hbegun := Overtaken.begin hatt hstep ht (epoch_le_of_run hrun ht) hunarmed
  have hkept := accumulate_keeps
    (P := fun m b' => Overtaken i (b.epoch + 1) m b' ∧ m.inFlight.map (·.order) = b'.orders)
    (fun ⟨h, hflight⟩ hstep => ⟨h.step hflight hstep, inFlight_note hflight hstep⟩)
    ⟨hbegun, inFlight_note hatt.inFlight hstep⟩ hrest
  rw [minutes_append hrun, accumulate, hnext]
  exact hkept.1

theorem nodup_script {script : List String}
    (h : script = countdownScript ∨ script = readyCountdownScript) :
    (script.map Message.broadcast).Nodup := by
  rcases h with rfl | rfl <;> decide

/-- However commands, countdowns, the loop, the connection, overflows and shutdown interleave, no
start is armed without a whole countdown, and one that has been cut short arms none. -/
theorem starts_of_run {es : List Event} (hrun : (new config).run? es = some b) :
    let m := minutes config es
    let out := Connection.Outgoing.ofRun config.link (parts config es).link
    (m.said.map (·.message) = out.stored ∧
        out.completed ++ out.inHand ++ b.connection.outbound.pending = out.queued ∧
        m.applied.map (·.order) = RaceControl.applied (parts config es).control ∧
        m.inFlight.map (·.order) = b.orders ∧ m.scripts.length = b.countdowns.length) ∧
      (∀ i script, m.scripts[i]? = some script →
        (script = countdownScript ∨ script = readyCountdownScript) ∧
          linesBy m.said i <+: script.map .broadcast ∧ (linesBy m.said i).Nodup) ∧
      (∀ i epoch, .start i epoch ∈ m.given →
        ∃ script, m.scripts[i]? = some script ∧ linesBy m.said i = script.map .broadcast) ∧
      (∀ before x after, m.said = before ++ x :: after → x.message = .whoIsOnline →
        ∃ i epoch script, x.source = .order (.start i epoch) ∧ .start i epoch ∈ m.applied ∧
          m.scripts[i]? = some script ∧ linesBy before i = script.map .broadcast) ∧
      (∀ i e later d, CutShort b i e → b.run? (e :: later) = some d →
        ¬ (minutes config (es ++ e :: later)).Armed i) ∧
      (∀ i later d, i < b.countdowns.length → ¬ m.Armed i →
        b.run? (.execute (.race .finish) :: later) = some d →
          ¬ (minutes config (es ++ .execute (.race .finish) :: later)).Heard i) := by
  intro m out
  have hatt : Attested m b := attested_of_run hrun
  have hrecorded := recorded_of_run hrun
  have hlink := (parts_of_run hrun).1
  refine ⟨⟨hrecorded.said, (Connection.accounted_of_run hlink).balance, hrecorded.applied,
    hatt.inFlight, hatt.count⟩, ?_, ?_, ?_, ?_, ?_⟩
  · intro i script hscript
    have hi : i < b.countdowns.length := by
      rw [← hatt.count]
      exact (List.getElem?_eq_some_iff.mp hscript).1
    have htold := (hatt.progress (List.getElem?_eq_getElem hi) hscript).told
    have hwhich := hatt.scripts script (List.mem_of_getElem? hscript)
    exact ⟨hwhich, htold, htold.sublist.nodup (nodup_script hwhich)⟩
  · exact fun i epoch hgiven => hatt.whole ⟨epoch, hgiven⟩
  · intro before x after hsaid hquestion
    obtain ⟨i, epoch, script, hsource, hscript, hlines⟩ := hatt.questions hsaid hquestion
    refine ⟨i, epoch, script, hsource, hatt.sources ?_ hsource, hscript, hlines⟩
    rw [hsaid]
    exact List.mem_append_right before List.mem_cons_self
  · exact fun i e later d hcut hlater => (lost_of_run hrun hcut hlater).unarmed
  · exact fun i later d hi hunarmed hlater => (overtaken_of_run hrun hi hunarmed hlater).unheard

/-- Two countdowns at once: the first is through and race control asks who is online, the second
pauses before its last two lines. -/
def overlapping : List Event :=
  [.loop, .execute (.race .start), .execute (.race .readyStart)] ++
    [0, 1, 0, 1, 0, 1, 0].flatMap (fun i => [.wake i, .speak i]) ++ [.arm 0, .loop, .loop]

theorem starts_of_run_overlapping :
    ∃ b, (new .default).run? overlapping = some b ∧
      linesBy (minutes .default overlapping).said 0 = countdownScript.map .broadcast ∧
      (minutes .default overlapping).Heard 0 ∧
      ∀ later d, b.run? (.execute (.race .finish) :: later) = some d →
        ¬ (minutes .default (overlapping ++ .execute (.race .finish) :: later)).Armed 1 := by
  obtain ⟨b, hrun, t, ht, hphase⟩ : ∃ b, (new .default).run? overlapping = some b ∧
      ∃ t, b.countdowns[1]? = some t ∧ t.phase = .sleeping := ⟨_, rfl, _, rfl, rfl⟩
  obtain ⟨-, -, hwhole, -, hcut, -⟩ := starts_of_run hrun
  have hgiven : .start 0 0 ∈ (minutes .default overlapping).given := by decide +kernel
  obtain ⟨script, hscript, hlines⟩ := hwhole 0 0 hgiven
  cases hscript
  refine ⟨b, hrun, hlines, ?_, ?_⟩
  · exact ⟨⟨.order (.start 0 0), .whoIsOnline⟩, by decide +kernel, 0, rfl⟩
  · exact fun later d hlater => hcut 1 _ later d (.finish ht (.inr (.inl hphase))) hlater

end Bot

end RaceSteward
