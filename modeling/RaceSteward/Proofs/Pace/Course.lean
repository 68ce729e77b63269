import RaceSteward.Pace

/-!
# The course of a pacer

A pacer at work, on a clock that never goes back: waits, work that is done, and time that passes in
between. A sleep ends when its tick is due or, if that is past, at once; by how much it oversleeps is up
to the clock. Every wait that is over is kept, with its times.

`Course.run` reckons with times without end; `Course.run?` ends with the last tick after which another
can be planned.

* `Course.Kept.run`: what every course keeps, whatever the policy.
* `Course.course?_eq`: how far a course goes.
* `Course.step?_eventOf`: on a clock that moves only when told, each operation is a step of a course.
-/

namespace RaceSteward.Pacer

/-! ## One tick -/

variable {p : Pacer} {now : Nat}

/-- More than a tenth of the period, rounded down, is more than a tenth of the period. -/
theorem overrun_wake_iff :
    (p.wake now).1.overrun = true ↔ p.config.period < 10 * (now - p.deadline) := by
  have htenth : p.config.period / 10 < now - p.deadline ↔
      p.config.period < (now - p.deadline) * 10 := Nat.div_lt_iff_lt_mul (by decide)
  exact decide_eq_true_iff.trans (htenth.trans (by rw [Nat.mul_comm]))

theorem overruns_wake :
    (p.wake now).2.overruns = p.overruns + if (p.wake now).1.overrun then 1 else 0 := rfl

theorem wake_of_drop (h : p.config.policy = .drop) (now : Nat) :
    (p.wake now).1.skipped = 0 ∧ (p.wake now).2.deadline = p.deadline + p.config.period := by
  unfold wake
  rw [h]
  exact ⟨rfl, rfl⟩

/-- Whoever has slept through a whole period is late by more than a tenth of one, so the periods that
were slept through are counted even though only an overrun counts them. -/
theorem wake_of_skip (h : p.config.policy = .skip) (now : Nat) :
    (p.wake now).1.skipped = (now - p.deadline) / p.config.period % 18446744073709551616 ∧
      (p.wake now).2.deadline = now + p.config.period := by
  unfold wake
  rw [h]
  refine ⟨?_, rfl⟩
  show (if decide (_ < _) = true then _ else 0) = _
  split
  · rfl
  · rename_i hlate
    rw [decide_eq_true_iff, Nat.not_lt] at hlate
    have hnone : (now - p.deadline) / p.config.period = 0 := Nat.div_eq_zero_iff.mpr (by omega)
    rw [hnone]

theorem deadline_le_wake (h : p.deadline ≤ now) : p.deadline ≤ (p.wake now).2.deadline := by
  cases hpolicy : p.config.policy with
  | skip =>
    rw [(wake_of_skip hpolicy now).2]
    omega
  | drop =>
    rw [(wake_of_drop hpolicy now).2]
    omega

theorem fits_iff : p.fits = true ↔ p.deadline ≤ latest ∧ p.count < 18446744073709551616 := by
  rw [fits, Bool.and_eq_true, decide_eq_true_iff, decide_eq_true_iff]

theorem fits_of_fits_wake (h : p.deadline ≤ now) (hfits : (p.wake now).2.fits = true) :
    p.fits = true := by
  rw [fits_iff] at hfits ⊢
  have hdeadline := deadline_le_wake h
  have hcount : (p.wake now).2.count = p.count + 1 := rfl
  omega

theorem period_validated_pos (config : PaceConfig) : 0 < config.validated.period :=
  Nat.lt_of_lt_of_le (by decide) (Nat.le_max_left PaceConfig.minPeriod config.period)

/-! ## Courses -/

/-- A wait that is over. -/
structure Waking where
  /-- When the wait began. -/
  called : Nat
  /-- When its tick was due. -/
  due : Nat
  /-- When its sleep ended. -/
  woke : Nat
  tick : Tick
  deriving DecidableEq, Repr

/-- What happens to a pacer. -/
inductive Event where
  /-- A wait whose sleep ends so many nanoseconds later than it has to. -/
  | wait (oversleep : Nat)
  /-- Time passes. -/
  | advance (nanoseconds : Nat)
  /-- The work of the tick is done. -/
  | finish
  deriving DecidableEq, Repr

def Event.isWait : Event → Bool
  | .wait _ => true
  | _ => false

/-- A pacer, its clock, and the waits that are over, oldest first. -/
structure Course where
  pacer : Pacer
  now : Nat
  wakings : List Waking
  deriving DecidableEq, Repr

namespace Course

def start (config : PaceConfig) (now : Nat) : Course := ⟨.new config now, now, []⟩

def wait (c : Course) (oversleep : Nat) : Course :=
  let woke := max c.now c.pacer.deadline + oversleep
  let (tick, pacer) := c.pacer.wake woke
  ⟨pacer, woke, c.wakings ++ [⟨c.now, c.pacer.deadline, woke, tick⟩]⟩

def step (c : Course) : Event → Course
  | .wait oversleep => c.wait oversleep
  | .advance n => { c with now := c.now + n }
  | .finish => { c with pacer := c.pacer.finish }

def run (c : Course) (events : List Event) : Course :=
  events.foldl step c

/-- The start of a course, if its first tick can be planned. -/
def start? (config : PaceConfig) (now : Nat) : Option Course :=
  (Pacer.new? config now).map fun pacer => ⟨pacer, now, []⟩

/-- A wait that comes to its end only if the next tick can be planned. -/
def wait? (c : Course) (oversleep : Nat) : Option Course :=
  let woke := max c.now c.pacer.deadline + oversleep
  (c.pacer.wake? woke).map fun (tick, pacer) =>
    ⟨pacer, woke, c.wakings ++ [⟨c.now, c.pacer.deadline, woke, tick⟩]⟩

def step? (c : Course) : Event → Option Course
  | .wait oversleep => c.wait? oversleep
  | .advance n => some (c.step (.advance n))
  | .finish => some (c.step .finish)

/-- The course after events, if every wait among them comes to its end. -/
def run? (c : Course) : List Event → Option Course
  | [] => some c
  | e :: events => do (← c.step? e).run? events

/-- The course of a new pacer. -/
def course? (config : PaceConfig) (now : Nat) (events : List Event) : Option Course := do
  (← start? config now).run? events

/-- Waits one after another, with nothing between them, none of which oversleeps. -/
def waits (c : Course) (n : Nat) : Course :=
  c.run (List.replicate n (.wait 0))

variable {c : Course} {config : PaceConfig} {origin : Nat}

theorem waits_succ (c : Course) (n : Nat) : c.waits (n + 1) = (c.waits n).wait 0 := by
  rw [waits, run, List.replicate_succ', List.foldl_append]
  rfl

theorem length_wakings_run (c : Course) (events : List Event) :
    (c.run events).wakings.length = c.wakings.length + events.countP Event.isWait := by
  induction events generalizing c with
  | nil => rfl
  | cons e events ih =>
    rw [List.countP_cons]
    refine (ih (c.step e)).trans ?_
    cases e with
    | wait oversleep =>
      rw [show (c.step (.wait oversleep)).wakings.length = c.wakings.length + 1 from
        List.length_append, if_pos (show Event.isWait (.wait oversleep) = true from rfl)]
      omega
    | advance n => rfl
    | finish => rfl

/-! ## What every course keeps -/

theorem forall_getElem?_concat {α : Type} {l : List α} {a : α} {P : Nat → α → Prop}
    (h : ∀ i b, l[i]? = some b → P i b) (ha : P l.length a) :
    ∀ i b, (l ++ [a])[i]? = some b → P i b := by
  intro i b hb
  have hlt : i < l.length + 1 := by
    have hi := (List.getElem?_eq_some_iff.mp hb).1
    rwa [List.length_append, List.length_singleton] at hi
  rcases Nat.lt_succ_iff_lt_or_eq.mp hlt with hlt | heq
  · rw [List.getElem?_append_left hlt] at hb
    exact h i b hb
  · subst heq
    rw [List.getElem?_concat_length] at hb
    cases hb
    exact ha

/-- A pacer counts its ticks and its overruns, and judges each tick by how late it is. -/
structure Kept (config : PaceConfig) (origin : Nat) (c : Course) : Prop where
  settings : c.pacer.config = config.validated
  origin_le : origin ≤ c.now
  count : c.pacer.count = c.wakings.length
  overruns : c.pacer.overruns = c.wakings.countP (·.tick.overrun)
  ticks : ∀ i w, c.wakings[i]? = some w → w.tick.number = i + 1 ∧ w.due ≤ w.woke ∧
    (w.tick.overrun = true ↔ config.validated.period < 10 * (w.woke - w.due))

theorem kept_start (config : PaceConfig) (origin : Nat) : (start config origin).Kept config origin :=
  ⟨rfl, Nat.le_refl origin, rfl, rfl, nofun⟩

theorem Kept.wait (h : c.Kept config origin) (oversleep : Nat) :
    (c.wait oversleep).Kept config origin where
  settings := h.settings
  origin_le := by
    have hnow := h.origin_le
    show origin ≤ max c.now c.pacer.deadline + oversleep
    omega
  count := by
    show c.pacer.count + 1 = (c.wakings ++ [_]).length
    rw [h.count, List.length_append, List.length_singleton]
  overruns := by
    refine overruns_wake.trans ?_
    show _ = (c.wakings ++ [_]).countP _
    rw [h.overruns, List.countP_append, List.countP_singleton]
    rfl
  ticks := by
    refine forall_getElem?_concat h.ticks ⟨congrArg (· + 1) h.count, ?_, ?_⟩
    · show c.pacer.deadline ≤ max c.now c.pacer.deadline + oversleep
      omega
    · rw [← h.settings]
      exact overrun_wake_iff

theorem Kept.step (h : c.Kept config origin) (e : Event) : (c.step e).Kept config origin := by
  cases e with
  | wait oversleep => exact h.wait oversleep
  | advance n =>
    have hnow : origin ≤ c.now + n := Nat.le_trans h.origin_le (Nat.le_add_right ..)
    exact ⟨h.settings, hnow, h.count, h.overruns, h.ticks⟩
  | finish => exact ⟨h.settings, h.origin_le, h.count, h.overruns, h.ticks⟩

theorem Kept.run (h : c.Kept config origin) (events : List Event) :
    (c.run events).Kept config origin := by
  induction events generalizing c with
  | nil => exact h
  | cons e events ih => exact ih (h.step e)

/-! ## How far a course goes -/

theorem wait?_eq (c : Course) (oversleep : Nat) :
    c.wait? oversleep =
      if (c.wait oversleep).pacer.fits then some (c.wait oversleep) else none := by
  unfold wait? wake? wait
  dsimp only
  split <;> rfl

theorem fits_of_fits_step {e : Event} (h : (c.step e).pacer.fits = true) :
    c.pacer.fits = true := by
  cases e with
  | wait oversleep =>
    have hdue : c.pacer.deadline ≤ max c.now c.pacer.deadline + oversleep := by omega
    exact fits_of_fits_wake hdue h
  | advance n => exact h
  | finish => exact h

theorem fits_of_fits_run {events : List Event} (h : (c.run events).pacer.fits = true) :
    c.pacer.fits = true := by
  induction events generalizing c with
  | nil => exact h
  | cons e events ih => exact fits_of_fits_step (ih h)

theorem step?_eq (h : c.pacer.fits = true) (e : Event) :
    c.step? e = if (c.step e).pacer.fits then some (c.step e) else none := by
  cases e with
  | wait oversleep => exact c.wait?_eq oversleep
  | advance n => exact (if_pos h).symm
  | finish => exact (if_pos h).symm

theorem run?_eq (h : c.pacer.fits = true) (events : List Event) :
    c.run? events = if (c.run events).pacer.fits then some (c.run events) else none := by
  induction events generalizing c with
  | nil => exact (if_pos h).symm
  | cons e events ih =>
    show (c.step? e).bind (·.run? events) = if ((c.step e).run events).pacer.fits then _ else none
    rw [step?_eq h]
    split
    · rename_i hstep
      exact ih hstep
    · rename_i hstep
      exact (if_neg fun hrun => hstep (fits_of_fits_run hrun)).symm

theorem course?_eq (config : PaceConfig) (origin : Nat) (events : List Event) :
    course? config origin events =
      if ((start config origin).run events).pacer.fits then some ((start config origin).run events)
      else none := by
  show ((Pacer.new? config origin).map _).bind _ = _
  rw [new?]
  split
  · rename_i hnew
    exact run?_eq (c := start config origin) hnew events
  · rename_i hnew
    exact (if_neg fun hrun => hnew (fits_of_fits_run (c := start config origin) hrun)).symm

/-! ## A clock that moves only when told -/

theorem le_sleepUntil (now deadline : Nat) : max now deadline ≤ sleepUntil now deadline := by
  unfold sleepUntil
  split
  · omega
  · omega

/-- What an operation is in a course, where a sleep ends on a whole millisecond. -/
def eventOf (c : Course) : Op → Event
  | .wait => .wait (sleepUntil c.now c.pacer.deadline - max c.now c.pacer.deadline)
  | .advance n => .advance n
  | .finish => .finish

/-- What can be seen of a course after an operation. -/
def sight (c d : Course) : List Tick × Nat × Pacer :=
  ((d.wakings.drop c.wakings.length).map (·.tick), d.now, d.pacer)

theorem step?_eventOf (c : Course) (op : Op) :
    (c.step? (c.eventOf op)).map c.sight =
      (c.pacer.step? c.now op).map fun (tick, now, pacer) => (tick.toList, now, pacer) := by
  cases op with
  | wait =>
    have hwoke : max c.now c.pacer.deadline +
        (sleepUntil c.now c.pacer.deadline - max c.now c.pacer.deadline) =
          sleepUntil c.now c.pacer.deadline := Nat.add_sub_of_le (le_sleepUntil ..)
    simp only [eventOf, step?, wait?, Pacer.step?, hwoke, Option.map_map]
    congr 1
    funext answer
    simp [sight]
  | advance n => simp [eventOf, step?, step, Pacer.step?, sight]
  | finish => simp [eventOf, step?, step, Pacer.step?, sight]

end Course

end RaceSteward.Pacer
