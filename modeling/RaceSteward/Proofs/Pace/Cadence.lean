import RaceSteward.Proofs.Pace.Course

/-!
# A pacer that drops keeps its cadence

Under the policy `drop` the n-th tick is due n periods after the pacer was made, whatever happened
before, as long as the clock can tell when the one after it is due. If no sleep is longer than it has
to be, the ticks that a stall has held up come at once, one wait each, until none is overdue; the next
one comes at the time that was planned for it (`Course.cadence_of_drop`).
-/

namespace RaceSteward.Pacer.Course

variable {c : Course} {config : PaceConfig} {origin : Nat}

/-- The ticks are due at whole periods from the origin on, one after another, and each one comes when
it is due, or at the call if that is later. -/
structure Cadent (origin period : Nat) (c : Course) : Prop where
  deadline : c.pacer.deadline = origin + (c.wakings.length + 1) * period
  /-- No tick comes before its time. -/
  reached : origin + c.wakings.length * period ≤ c.now
  ticks : ∀ i w, c.wakings[i]? = some w → w.due = origin + (i + 1) * period ∧
    w.woke = max w.called w.due ∧ w.tick.skipped = 0

theorem cadent_start (config : PaceConfig) (origin : Nat) :
    (start config origin).Cadent origin config.validated.period where
  deadline := by
    show origin + config.validated.period = origin + (0 + 1) * config.validated.period
    rw [Nat.zero_add, Nat.one_mul]
  reached := by
    show origin + 0 * config.validated.period ≤ origin
    rw [Nat.zero_mul]
    exact Nat.le_refl origin
  ticks := nofun

theorem Cadent.wait (h : c.Cadent origin config.validated.period) (hkept : c.Kept config origin)
    (hdrop : config.policy = .drop) : (c.wait 0).Cadent origin config.validated.period := by
  have hpolicy : c.pacer.config.policy = .drop := by
    rw [hkept.settings]
    exact hdrop
  have hwake := wake_of_drop hpolicy (max c.now c.pacer.deadline + 0)
  have hlength : (c.wait 0).wakings.length = c.wakings.length + 1 := List.length_append
  refine ⟨?_, ?_, ?_⟩
  · refine hwake.2.trans ?_
    rw [h.deadline, hlength, hkept.settings, Nat.succ_mul (c.wakings.length + 1), Nat.add_assoc]
  · rw [hlength, ← h.deadline]
    exact Nat.le_max_right ..
  · exact forall_getElem?_concat h.ticks ⟨h.deadline, rfl, hwake.1⟩

theorem Cadent.step {e : Event} (h : c.Cadent origin config.validated.period)
    (hkept : c.Kept config origin) (hdrop : config.policy = .drop)
    (hprompt : ∀ oversleep, e = .wait oversleep → oversleep = 0) :
    (c.step e).Cadent origin config.validated.period := by
  cases e with
  | wait oversleep =>
    rw [hprompt oversleep rfl]
    exact h.wait hkept hdrop
  | advance n => exact ⟨h.deadline, Nat.le_trans h.reached (Nat.le_add_right ..), h.ticks⟩
  | finish => exact ⟨h.deadline, h.reached, h.ticks⟩

theorem Cadent.run {events : List Event} (h : c.Cadent origin config.validated.period)
    (hkept : c.Kept config origin) (hdrop : config.policy = .drop)
    (hprompt : ∀ oversleep, .wait oversleep ∈ events → oversleep = 0) :
    (c.run events).Cadent origin config.validated.period := by
  induction events generalizing c with
  | nil => exact h
  | cons e events ih =>
    have he : ∀ oversleep, e = .wait oversleep → oversleep = 0 :=
      fun oversleep hwait => hprompt oversleep (hwait ▸ List.mem_cons_self)
    exact ih (h.step hkept hdrop he) (hkept.step e)
      fun oversleep hmem => hprompt oversleep (List.mem_cons_of_mem e hmem)

theorem Cadent.now_waits (h : c.Cadent origin config.validated.period)
    (hkept : c.Kept config origin) (hdrop : config.policy = .drop) (n : Nat) :
    (c.waits n).Cadent origin config.validated.period ∧ (c.waits n).Kept config origin ∧
      (c.waits n).wakings.length = c.wakings.length + n ∧
      (c.waits n).now = max c.now (origin + (c.wakings.length + n) * config.validated.period) := by
  induction n with
  | zero => exact ⟨h, hkept, rfl, (Nat.max_eq_left h.reached).symm⟩
  | succ n ih =>
    obtain ⟨hcadent, hkept', hlength, hnow⟩ := ih
    rw [waits_succ]
    refine ⟨hcadent.wait hkept' hdrop, hkept'.wait 0, ?_, ?_⟩
    · exact List.length_append.trans (congrArg (· + 1) hlength)
    · have hnext : (c.wakings.length + (n + 1)) * config.validated.period =
          (c.wakings.length + n) * config.validated.period + config.validated.period :=
        Nat.succ_mul ..
      show max (c.waits n).now (c.waits n).pacer.deadline + 0 = _
      rw [hnow, hcadent.deadline, hlength, hnext, Nat.succ_mul]
      omega

/-- A pacer that drops, if no sleep is longer than it has to be, keeps its cadence for as long as
the clock can tell the next tick and 64 bits can count it: after any stall it catches up tick by
tick. -/
theorem cadence_of_drop {config : PaceConfig} (hdrop : config.policy = .drop) (origin : Nat)
    {events : List Event} (hprompt : ∀ oversleep, .wait oversleep ∈ events → oversleep = 0) :
    let period := config.validated.period
    let c := (start config origin).run events
    let ticks := events.countP Event.isWait
    let elapsed := (c.now - origin) / period
    course? config origin events =
        (if origin + (ticks + 1) * period ≤ latest ∧ ticks < 18446744073709551616 then some c
        else none) ∧
      c.wakings.length = ticks ∧
      (∀ i w, c.wakings[i]? = some w →
        w.tick.number = i + 1 ∧ w.woke = max w.called (origin + (i + 1) * period) ∧
          w.tick.skipped = 0 ∧ w.tick.number ≤ (w.woke - origin) / period ∧
          (w.tick.overrun = true ↔ period < 10 * (w.woke - (origin + (i + 1) * period)))) ∧
      c.pacer.count = c.wakings.length ∧ c.pacer.count ≤ elapsed ∧
      c.pacer.overruns = c.wakings.countP (·.tick.overrun) ∧
      (∀ n, (c.waits n).pacer.count = c.pacer.count + n ∧
        ((c.waits n).now = c.now ↔ c.pacer.count + n ≤ elapsed)) ∧
      ∀ n, c.pacer.count + n = elapsed →
        (c.waits (n + 1)).now = origin + (elapsed + 1) * period ∧
          c.now < (c.waits (n + 1)).now := by
  intro period c ticks elapsed
  have hpos : 0 < period := period_validated_pos config
  have hkept : c.Kept config origin := (kept_start config origin).run events
  have hcadent : c.Cadent origin period :=
    (cadent_start config origin).run (kept_start config origin) hdrop hprompt
  have hsince : ∀ n time, origin ≤ time →
      (n ≤ (time - origin) / period ↔ origin + n * period ≤ time) := by
    intro n time htime
    rw [Nat.le_div_iff_mul_le hpos]
    omega
  -- waits with nothing between them end at the times of the cadence, but not before now
  have hwaits := hcadent.now_waits hkept hdrop
  have hticks : c.wakings.length = ticks := by
    rw [length_wakings_run]
    exact Nat.zero_add _
  have hfits : c.pacer.fits = true ↔
      origin + (ticks + 1) * period ≤ latest ∧ ticks < 18446744073709551616 := by
    rw [fits_iff, hcadent.deadline, hkept.count, hticks]
  refine ⟨?_, hticks, fun i w hw => ?_, hkept.count, ?_, hkept.overruns, fun n => ?_, fun n hn => ?_⟩
  · rw [course?_eq]
    exact ite_congr (propext hfits) (fun _ => rfl) fun _ => rfl
  · obtain ⟨hnumber, hdue, hoverrun⟩ := hkept.ticks i w hw
    obtain ⟨hplanned, hwoke, hskipped⟩ := hcadent.ticks i w hw
    rw [hplanned] at hdue hwoke hoverrun
    refine ⟨hnumber, hwoke, hskipped, ?_, hoverrun⟩
    rw [hnumber, hsince _ _ (by omega)]
    exact hdue
  · rw [hkept.count, hsince _ _ hkept.origin_le]
    exact hcadent.reached
  · obtain ⟨-, hkept', hlength, hnow⟩ := hwaits n
    rw [hkept'.count, hkept.count, hsince _ _ hkept.origin_le, hnow]
    refine ⟨hlength, ?_⟩
    show max c.now (origin + _ * period) = c.now ↔ _
    omega
  · have hlate : c.now < origin + (elapsed + 1) * period := by
      refine Nat.lt_of_not_le fun hle => ?_
      exact Nat.not_succ_le_self elapsed ((hsince _ _ hkept.origin_le).mpr hle)
    have hnow : (c.waits (n + 1)).now = max c.now (origin + (elapsed + 1) * period) := by
      rw [← hn, hkept.count]
      exact (hwaits (n + 1)).2.2.2
    rw [hnow, Nat.max_eq_right (Nat.le_of_lt hlate)]
    exact ⟨rfl, hlate⟩

/-- A period that is no whole number of ten nanoseconds, and a stall of more than three of them: the
first tick comes late, two more come at once, and the fourth when it was planned. -/
theorem cadence_of_drop_stalled :
    let config : PaceConfig := ⟨10000003, .drop, .fourFifths⟩
    let events : List Event := [.advance 35000000, .wait 0, .finish]
    let c := (start config 0).run events
    config.policy = .drop ∧ (∀ oversleep, .wait oversleep ∈ events → oversleep = 0) ∧
      course? config 0 events = some c ∧ c.pacer.count = 1 ∧ c.pacer.overruns = 1 ∧
      (c.waits 2).now = 35000000 ∧ (c.waits 3).now = 40000012 := by
  intro config events c
  have hprompt : ∀ oversleep, .wait oversleep ∈ events → oversleep = 0 := by
    intro oversleep hmem
    simpa [events] using hmem
  obtain ⟨hcourse, -, -, hcount, -, hoverruns, hwaits, hnext⟩ :=
    cadence_of_drop (rfl : config.policy = .drop) 0 hprompt
  rw [if_pos (by decide)] at hcourse
  have hnow : c.now = 35000000 := by decide
  have hstays : (c.waits 2).now = c.now := (hwaits 2).2.mpr (by decide)
  have hplanned : (c.waits 3).now = 0 + ((c.now - 0) / 10000003 + 1) * 10000003 :=
    (hnext 2 (by decide)).1
  rw [hnow] at hstays hplanned
  exact ⟨rfl, hprompt, hcourse, hcount, hoverruns.trans (by decide), hstays, hplanned⟩

/-- The longest period there is, of 64 bits of seconds, is within its limits; but the clock cannot tell
when the first tick would be due, so there is no pacer and no tick. -/
theorem no_course_of_longest_period :
    let config : PaceConfig := ⟨18446744073709551615999999999, .drop, .fourFifths⟩
    config.policy = .drop ∧ config.validated.period = config.period ∧ start? config 0 = none ∧
      ∀ events, course? config 0 events = none := by
  have hstart : start? ⟨18446744073709551615999999999, .drop, .fourFifths⟩ 0 = none := by decide
  refine ⟨rfl, by decide, hstart, fun events => ?_⟩
  rw [course?, hstart]
  rfl

end RaceSteward.Pacer.Course
