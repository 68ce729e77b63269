import RaceSteward.Proofs.Pace.Course

/-!
# A pacer that skips keeps its distance

Under the policy `skip` every tick comes a period after the one before it or later, however long the
sleeps are, and whoever comes later than that accounts for the whole periods in between. One period for
each tick and those that were skipped are never more than have passed (`Course.spacing_of_skip`).
-/

namespace RaceSteward.Pacer

/-- When the last of these ticks came; `origin` if there was none. -/
def lastTime (origin : Nat) (wakings : List Waking) : Nat :=
  (wakings.map (·.woke)).getLastD origin

/-- The periods that these ticks have skipped, taken together. -/
def skippedBy : List Waking → Nat
  | [] => 0
  | w :: wakings => w.tick.skipped + skippedBy wakings

/-- The periods that ticks account for: one each, and those that were slept through. -/
def accounted (wakings : List Waking) : Nat :=
  wakings.length + skippedBy wakings

theorem lastTime_concat (origin : Nat) (wakings : List Waking) (w : Waking) :
    lastTime origin (wakings ++ [w]) = w.woke := by
  rw [lastTime, List.map_append, List.map_singleton, List.getLastD_concat]

theorem skippedBy_concat (wakings : List Waking) (w : Waking) :
    skippedBy (wakings ++ [w]) = skippedBy wakings + w.tick.skipped := by
  induction wakings with
  | nil => exact Nat.add_comm ..
  | cons first wakings ih =>
    show first.tick.skipped + skippedBy (wakings ++ [w]) = _
    rw [ih, skippedBy, Nat.add_assoc]

theorem accounted_concat (wakings : List Waking) (w : Waking) :
    accounted (wakings ++ [w]) = accounted wakings + 1 + w.tick.skipped := by
  rw [accounted, accounted, List.length_append, List.length_singleton, skippedBy_concat]
  omega

namespace Course

variable {c : Course} {config : PaceConfig} {origin period : Nat}

/-- A tick after others: due a period after the last of them, it counts the whole periods by which it
is late, and with them the ticks account for no more than the time since the origin. -/
structure Follows (origin period : Nat) (before : List Waking) (w : Waking) : Prop where
  due : w.due = lastTime origin before + period
  skipped : w.tick.skipped = (w.woke - w.due) / period % 18446744073709551616
  accounted : origin + accounted (before ++ [w]) * period ≤ w.woke

/-- Every tick follows those before it, and the next one will. -/
structure Spaced (origin period : Nat) (c : Course) : Prop where
  deadline : c.pacer.deadline = lastTime origin c.wakings + period
  accounted : origin + accounted c.wakings * period ≤ lastTime origin c.wakings
  ticks : ∀ i w, c.wakings[i]? = some w → Follows origin period (c.wakings.take i) w

theorem forall_take_concat {α : Type} {l : List α} {a : α} {P : List α → α → Prop}
    (h : ∀ i b, l[i]? = some b → P (l.take i) b) (ha : P l a) :
    ∀ i b, (l ++ [a])[i]? = some b → P ((l ++ [a]).take i) b := by
  refine forall_getElem?_concat (fun i b hb => ?_) ?_
  · have hi := (List.getElem?_eq_some_iff.mp hb).1
    rw [List.take_append_of_le_length (Nat.le_of_lt hi)]
    exact h i b hb
  · rw [List.take_left]
    exact ha

theorem spaced_start (config : PaceConfig) (origin : Nat) :
    (start config origin).Spaced origin config.validated.period where
  deadline := rfl
  accounted := by
    show origin + 0 * config.validated.period ≤ origin
    rw [Nat.zero_mul]
    exact Nat.le_refl origin
  ticks := nofun

theorem accounted_of_late {before : List Waking} {w : Waking}
    (h : origin + accounted before * period ≤ lastTime origin before)
    (hdue : w.due = lastTime origin before + period) (hwoke : w.due ≤ w.woke)
    (hskipped : w.tick.skipped ≤ (w.woke - w.due) / period) :
    origin + accounted (before ++ [w]) * period ≤ w.woke := by
  have hlate : w.tick.skipped * period ≤ w.woke - w.due :=
    Nat.le_trans (Nat.mul_le_mul_right period hskipped) (Nat.div_mul_le_self ..)
  rw [accounted_concat, Nat.add_mul, Nat.add_mul, Nat.one_mul]
  omega

theorem Spaced.wait (h : c.Spaced origin config.validated.period) (hkept : c.Kept config origin)
    (hskip : config.policy = .skip) (oversleep : Nat) :
    (c.wait oversleep).Spaced origin config.validated.period := by
  have hpolicy : c.pacer.config.policy = .skip := by
    rw [hkept.settings]
    exact hskip
  obtain ⟨hskipped, hnext⟩ := wake_of_skip hpolicy (max c.now c.pacer.deadline + oversleep)
  rw [hkept.settings] at hskipped hnext
  have hwoke : c.pacer.deadline ≤ max c.now c.pacer.deadline + oversleep := by omega
  have hfollows : Follows origin config.validated.period c.wakings
      ⟨c.now, c.pacer.deadline, max c.now c.pacer.deadline + oversleep,
        (c.pacer.wake (max c.now c.pacer.deadline + oversleep)).1⟩ := by
    refine ⟨h.deadline, hskipped, accounted_of_late h.accounted h.deadline hwoke ?_⟩
    exact hskipped ▸ Nat.mod_le ..
  refine ⟨?_, ?_, forall_take_concat h.ticks hfollows⟩
  · rw [show (c.wait oversleep).wakings = c.wakings ++ [_] from rfl, lastTime_concat]
    exact hnext
  · rw [show (c.wait oversleep).wakings = c.wakings ++ [_] from rfl, lastTime_concat]
    exact hfollows.accounted

theorem Spaced.step (h : c.Spaced origin config.validated.period) (hkept : c.Kept config origin)
    (hskip : config.policy = .skip) (e : Event) :
    (c.step e).Spaced origin config.validated.period := by
  cases e with
  | wait oversleep => exact h.wait hkept hskip oversleep
  | advance n => exact ⟨h.deadline, h.accounted, h.ticks⟩
  | finish => exact ⟨h.deadline, h.accounted, h.ticks⟩

theorem Spaced.run (h : c.Spaced origin config.validated.period) (hkept : c.Kept config origin)
    (hskip : config.policy = .skip) (events : List Event) :
    (c.run events).Spaced origin config.validated.period := by
  induction events generalizing c with
  | nil => exact h
  | cons e events ih => exact ih (h.step hkept hskip e) (hkept.step e)

/-- A pacer that skips, however long its sleeps are, never gives two ticks within a period; what it
is late by more than a period, it skips. -/
theorem spacing_of_skip {config : PaceConfig} (hskip : config.policy = .skip) (origin : Nat)
    (events : List Event) :
    let period := config.validated.period
    let c := (start config origin).run events
    0 < period ∧
      (∀ i w, c.wakings[i]? = some w →
        let previous := lastTime origin (c.wakings.take i)
        let late := w.woke - (previous + period)
        w.tick.number = i + 1 ∧ w.due = previous + period ∧ previous + period ≤ w.woke ∧
          (w.tick.overrun = true ↔ period < 10 * late) ∧
          (late / period < 18446744073709551616 → w.tick.skipped = late / period) ∧
          (i + 1) + skippedBy (c.wakings.take (i + 1)) ≤ (w.woke - origin) / period) ∧
      c.pacer.count = c.wakings.length ∧
      c.pacer.overruns = c.wakings.countP (·.tick.overrun) := by
  intro period c
  have hpos : 0 < period := period_validated_pos config
  have hkept : c.Kept config origin := (kept_start config origin).run events
  have hspaced : c.Spaced origin period :=
    (spaced_start config origin).run (kept_start config origin) hskip events
  refine ⟨hpos, ?_, hkept.count, hkept.overruns⟩
  intro i w hw previous late
  obtain ⟨hnumber, hwoke, hoverrun⟩ := hkept.ticks i w hw
  obtain ⟨hdue, hskipped, haccounted⟩ := hspaced.ticks i w hw
  rw [hdue] at hwoke hoverrun hskipped
  refine ⟨hnumber, hdue, hwoke, hoverrun, ?_, ?_⟩
  · intro hfits
    exact hskipped.trans (Nat.mod_eq_of_lt hfits)
  · have hlast : c.wakings.take i ++ [w] = c.wakings.take (i + 1) := by
      rw [List.take_add_one, hw]
      rfl
    have hlength : (c.wakings.take (i + 1)).length = i + 1 :=
      List.length_take_of_le (List.getElem?_eq_some_iff.mp hw).1
    rw [hlast, accounted, hlength] at haccounted
    rw [Nat.le_div_iff_mul_le hpos]
    omega

/-- A period of zero, a first sleep that is too long by just a tenth of the period that is kept, and a
stall: the first tick is no overrun, the second one is and skips three periods. -/
theorem spacing_of_skip_overslept :
    let config : PaceConfig := ⟨0, .skip, .fourFifths⟩
    let c := (start config 500).run [.wait 100000, .finish, .advance 4600000, .wait 7]
    let first : Waking := ⟨500, 1000500, 1100500, ⟨1, false, 0⟩⟩
    let second : Waking := ⟨5700500, 2100500, 5700507, ⟨2, true, 3⟩⟩
    config.policy = .skip ∧ c.wakings = [first, second] ∧
      lastTime 500 [first] + 1000000 ≤ second.woke ∧
      second.tick.skipped = (second.woke - (lastTime 500 [first] + 1000000)) / 1000000 ∧
      2 + (0 + (3 + 0)) ≤ (second.woke - 500) / 1000000 ∧ c.pacer.overruns = 1 := by
  intro config c first second
  have hwakings : c.wakings = [first, second] := by decide +kernel
  obtain ⟨-, hticks, -, hoverruns⟩ := spacing_of_skip (rfl : config.policy = .skip) 500
    [.wait 100000, .finish, .advance 4600000, .wait 7]
  have hsecond : c.wakings[1]? = some second := by rw [hwakings]; rfl
  have hbefore : c.wakings.take 1 = [first] := by rw [hwakings]; rfl
  have htwo : c.wakings.take 2 = [first, second] := by rw [hwakings]; rfl
  obtain ⟨-, -, hdistance, -, hskipped, haccounted⟩ := hticks 1 second hsecond
  rw [hbefore] at hdistance hskipped
  rw [htwo] at haccounted
  refine ⟨rfl, hwakings, hdistance, hskipped (by decide), haccounted, ?_⟩
  rw [hoverruns, hwakings]
  rfl

end Course

end RaceSteward.Pacer
