import RaceSteward.Proofs.Bot.Chronicle
import RaceSteward.Proofs.RaceControl.Orders

/-!
# A forced finish outlasts every older countdown

The orders of countdowns and of forced finishes reach race control in one queue, and a countdown may
give its order after it has been called off. What decides is the epoch: a forced finish raises it
first for the console and then, when its order is applied, for race control, and an order of a
countdown carries the epoch of the console from when it began.

* `Bot.Dated`: epochs tell what came first, a countdown or a forced finish.
* `Bot.Queued`: the forced finishes in flight are newer than race control knows, in order.
* `Bot.Governed`: race control stands where the last forced finish put it.
* `Bot.forcedFinish_prevails`: in every chronicle, that of every run among them, no countdown from
  before a forced finish arms a start or makes race control ask who is online once that finish has
  been applied.
-/

namespace RaceSteward.Bot

/-! ## Reading the log -/

/-- One deed comes before another. -/
def Precedes (first second : Deed) (log : List Deed) : Prop :=
  [first, second].Sublist log

theorem precedes_concat {first second last : Deed} {log : List Deed} :
    Precedes first second (log ++ [last]) ↔
      Precedes first second log ∨ first ∈ log ∧ second = last := by
  constructor
  · intro h
    have hreverse := List.reverse_sublist.mpr h
    rw [List.reverse_concat, List.sublist_cons_iff] at hreverse
    rcases hreverse with hreverse | ⟨rest, heq, hrest⟩
    · exact .inl (List.reverse_sublist.mp hreverse)
    · cases heq
      exact .inr ⟨List.mem_reverse.mp (List.singleton_sublist.mp hrest), rfl⟩
  · rintro (h | ⟨hmem, rfl⟩)
    · exact h.trans (List.sublist_append_left ..)
    · exact (List.singleton_sublist.mpr hmem).append (.refl [second])

theorem Precedes.mem_left {first second : Deed} {log : List Deed}
    (h : Precedes first second log) : first ∈ log :=
  h.subset List.mem_cons_self

theorem Precedes.mem_right {first second : Deed} {log : List Deed}
    (h : Precedes first second log) : second ∈ log :=
  h.subset (List.mem_cons_of_mem _ List.mem_cons_self)

namespace Deed

def begun? : Deed → Option Nat
  | begun i => some i
  | _ => none

def finished? : Deed → Option Nat
  | finished epoch => some epoch
  | _ => none

def stopped? : Deed → Option Nat
  | stopped epoch => some epoch
  | _ => none

def heeded? : Deed → Option Nat
  | heeded i => some i
  | _ => none

theorem begun?_eq_some_iff {d : Deed} {i : Nat} : d.begun? = some i ↔ d = .begun i := by
  cases d <;> simp [begun?]

theorem finished?_eq_some_iff {d : Deed} {epoch : Nat} :
    d.finished? = some epoch ↔ d = .finished epoch := by
  cases d <;> simp [finished?]

theorem stopped?_eq_some_iff {d : Deed} {epoch : Nat} :
    d.stopped? = some epoch ↔ d = .stopped epoch := by
  cases d <;> simp [stopped?]

theorem ofApply_start (rc : RaceControl) (i epoch : Nat) :
    ofApply rc (.start i epoch) = if epoch < rc.epoch then .ignored i else .heeded i := by
  simp only [ofApply, RaceControl.apply_armStart_eq_silent_iff]

theorem ofApply_undated (rc : RaceControl) (d : Dispatch) :
    (ofApply rc d).begun? = none ∧ (ofApply rc d).finished? = none := by
  cases d with
  | finish epoch => exact ⟨rfl, rfl⟩
  | start i epoch =>
    rw [ofApply_start]
    split <;> exact ⟨rfl, rfl⟩

end Deed

/-- The forced finish that race control applied last, 0 if none. -/
def lastStopped (log : List Deed) : Nat :=
  (log.filterMap Deed.stopped?).getLast?.getD 0

/-- The countdown whose order was the last to have an effect. -/
def armer? (log : List Deed) : Option Nat :=
  (log.filterMap Deed.heeded?).getLast?

theorem lastStopped_concat (log : List Deed) (d : Deed) :
    lastStopped (log ++ [d]) = d.stopped?.getD (lastStopped log) := by
  unfold lastStopped
  rw [List.filterMap_append]
  cases h : d.stopped? with
  | none => simp [h]
  | some epoch => simp [h]

theorem stopped_lastStopped_mem {log : List Deed} (h : 0 < lastStopped log) :
    .stopped (lastStopped log) ∈ log := by
  unfold lastStopped at h ⊢
  cases hlast : (log.filterMap Deed.stopped?).getLast? with
  | none =>
    rw [hlast] at h
    cases h
  | some epoch =>
    obtain ⟨d, hd, hstopped⟩ := List.mem_filterMap.mp (List.mem_of_getLast? hlast)
    rw [Deed.stopped?_eq_some_iff.mp hstopped] at hd
    exact hd

theorem armer?_concat (log : List Deed) (d : Deed) :
    armer? (log ++ [d]) = d.heeded?.or (armer? log) := by
  unfold armer?
  rw [List.filterMap_append]
  cases h : d.heeded? with
  | none => simp [h]
  | some i => simp [h]

def Order.stop? : Order → Option Nat
  | .armStart _ => none
  | .forceStop epoch => some epoch

/-- The forced finishes among orders. -/
def stops (orders : List Order) : List Nat :=
  orders.filterMap Order.stop?

/-! ## Epochs tell what came first -/

/-- Countdowns and forced finishes are logged in the order of their numbers, and the epoch of a
countdown counts the forced finishes before it. -/
structure Dated (epoch : Nat) (epochs : List Nat) (log : List Deed) : Prop where
  begun : log.filterMap Deed.begun? = List.range epochs.length
  finished : log.filterMap Deed.finished? = List.range' 1 epoch
  le : ∀ {i t : Nat}, epochs[i]? = some t → t ≤ epoch
  after : ∀ {i t e : Nat}, epochs[i]? = some t →
    (Precedes (.finished e) (.begun i) log ↔ 1 ≤ e ∧ e ≤ t)
  before : ∀ {i t e : Nat}, epochs[i]? = some t → Precedes (.begun i) (.finished e) log → t < e

namespace Dated

variable {epoch : Nat} {epochs : List Nat} {log : List Deed}

theorem nil : Dated 0 [] [] where
  begun := rfl
  finished := rfl
  le h := nomatch h
  after h := nomatch h
  before h := nomatch h

theorem mem_begun_iff (h : Dated epoch epochs log) {i : Nat} :
    .begun i ∈ log ↔ i < epochs.length := by
  rw [← List.mem_range, ← h.begun, List.mem_filterMap]
  simp only [Deed.begun?_eq_some_iff, exists_eq_right]

theorem mem_finished_iff (h : Dated epoch epochs log) {e : Nat} :
    .finished e ∈ log ↔ 1 ≤ e ∧ e ≤ epoch := by
  have hrange : e ∈ List.range' 1 epoch ↔ 1 ≤ e ∧ e ≤ epoch := by
    rw [List.mem_range'_1]
    omega
  rw [← hrange, ← h.finished, List.mem_filterMap]
  simp only [Deed.finished?_eq_some_iff, exists_eq_right]

theorem begin (h : Dated epoch epochs log) :
    Dated epoch (epochs ++ [epoch]) (log ++ [.begun epochs.length]) where
  begun := by
    rw [List.filterMap_append, h.begun, List.length_append, List.length_singleton, List.range_succ]
    rfl
  finished := by
    rw [List.filterMap_append, h.finished]
    exact List.append_nil _
  le {i t} hi := by
    rcases List.mem_append.mp (List.mem_of_getElem? hi) with ht | ht
    · obtain ⟨j, hj⟩ := List.mem_iff_getElem?.mp ht
      exact h.le hj
    · exact Nat.le_of_eq (List.mem_singleton.mp ht)
  after {i t e} hi := by
    rw [precedes_concat, h.mem_finished_iff]
    by_cases hlt : i < epochs.length
    · rw [List.getElem?_append_left hlt] at hi
      rw [h.after hi, Deed.begun.injEq, or_iff_left (fun hlast => Nat.ne_of_lt hlt hlast.2)]
    · have hlast : i = epochs.length := by
        have := (List.getElem?_eq_some_iff.mp hi).1
        rw [List.length_append, List.length_singleton] at this
        omega
      subst hlast
      rw [List.getElem?_concat_length] at hi
      cases hi
      have hnew : ¬ Precedes (.finished e) (.begun epochs.length) log :=
        fun hprecedes => hlt (h.mem_begun_iff.mp hprecedes.mem_right)
      rw [or_iff_right hnew, and_iff_left rfl]
  before {i t e} hi hprecedes := by
    rcases precedes_concat.mp hprecedes with hprecedes | ⟨-, heq⟩
    · rw [List.getElem?_append_left (h.mem_begun_iff.mp hprecedes.mem_left)] at hi
      exact h.before hi hprecedes
    · cases heq

theorem finish (h : Dated epoch epochs log) :
    Dated (epoch + 1) epochs (log ++ [.finished (epoch + 1)]) where
  begun := by
    rw [List.filterMap_append, h.begun]
    exact List.append_nil _
  finished := by
    rw [List.filterMap_append, h.finished, List.range'_1_concat, Nat.add_comm 1]
    rfl
  le hi := Nat.le_succ_of_le (h.le hi)
  after hi := by
    rw [precedes_concat, h.after hi, or_iff_left (fun hlast => nomatch hlast.2)]
  before {i t e} hi hprecedes := by
    rcases precedes_concat.mp hprecedes with hprecedes | ⟨-, heq⟩
    · exact h.before hi hprecedes
    · cases heq
      exact Nat.lt_succ_of_le (h.le hi)

theorem concat (h : Dated epoch epochs log) {d : Deed} (hbegun : d.begun? = none)
    (hfinished : d.finished? = none) : Dated epoch epochs (log ++ [d]) where
  begun := by
    rw [List.filterMap_append, h.begun, List.filterMap_cons_none hbegun]
    exact List.append_nil _
  finished := by
    rw [List.filterMap_append, h.finished, List.filterMap_cons_none hfinished]
    exact List.append_nil _
  le := h.le
  after {i t e} hi := by
    have hlast : d ≠ .begun i := fun heq => nomatch hbegun.symm.trans (congrArg Deed.begun? heq)
    rw [precedes_concat, h.after hi, or_iff_left (fun h => hlast h.2.symm)]
  before hi hprecedes := by
    rcases precedes_concat.mp hprecedes with hprecedes | ⟨-, heq⟩
    · exact h.before hi hprecedes
    · rw [← heq] at hfinished
      cases hfinished

end Dated

theorem Agrees.dated {a b : Bot} {log : List Deed} (h : a.Agrees b)
    (hdated : Dated b.epoch b.epochs log) : Dated a.epoch a.epochs log := by
  rw [h.epoch, h.epochs]
  exact hdated

/-! ## Forced finishes in flight -/

/-- The forced finish that race control knows, then those in flight. -/
def fences (b : Bot) : List Nat :=
  b.control.epoch :: stops b.orders

/-- Forced finishes in flight are newer than the one that race control knows, each newer than the
one before, and the console knows them all. -/
structure Queued (epoch : Nat) (fences : List Nat) : Prop where
  increasing : fences.Pairwise (· < ·)
  le : ∀ e ∈ fences, e ≤ epoch

theorem Agrees.fences {a b : Bot} (h : a.Agrees b) : a.fences = b.fences := by
  unfold Bot.fences
  rw [h.control, h.orders]

theorem fences_finish (b : Bot) (e : Nat) :
    fences { b with orders := b.ordersWith (.forceStop e), epoch := e } =
      if b.loop.isFinished then b.fences else b.fences ++ [e] := by
  unfold fences ordersWith
  split
  · rfl
  · exact congrArg (b.control.epoch :: ·) List.filterMap_append

theorem fences_arm (b : Bot) (epoch : Nat) :
    fences { b with orders := b.ordersWith (.armStart epoch) } = b.fences := by
  unfold fences ordersWith
  split
  · rfl
  · exact congrArg (b.control.epoch :: ·) (List.filterMap_append.trans (List.append_nil _))

theorem fences_route (b : Bot) (m : Message) :
    fences { b with control := (b.control.route m).2 } = b.fences :=
  congrArg (· :: stops b.orders) (RaceControl.epoch_route b.control m)

namespace Queued

variable {epoch : Nat} {l : List Nat} {b : Bot}

theorem succ (h : Queued epoch l) : Queued (epoch + 1) l :=
  ⟨h.increasing, fun e he => Nat.le_succ_of_le (h.le e he)⟩

theorem concat (h : Queued epoch l) : Queued (epoch + 1) (l ++ [epoch + 1]) where
  increasing := by
    refine List.pairwise_append.mpr ⟨h.increasing, List.pairwise_singleton .., ?_⟩
    intro e he last hlast
    rw [List.mem_singleton.mp hlast]
    exact Nat.lt_succ_of_le (h.le e he)
  le e he := by
    rcases List.mem_append.mp he with he | he
    · exact h.succ.le e he
    · exact Nat.le_of_eq (List.mem_singleton.mp he)

theorem tail {e : Nat} (h : Queued epoch (e :: l)) : Queued epoch l :=
  ⟨h.increasing.of_cons, fun t ht => h.le t (List.mem_cons_of_mem e ht)⟩

theorem lt_of_forceStop (h : Queued b.epoch b.fences) {e : Nat} {orders : List Order}
    (horders : b.orders = .forceStop e :: orders) : b.control.epoch < e := by
  refine List.rel_of_pairwise_cons h.increasing ?_
  rw [horders]
  exact List.mem_cons_self

theorem apply (h : Queued b.epoch b.fences) {o : Order} {orders : List Order}
    (horders : b.orders = o :: orders) :
    Queued b.epoch (fences { b with orders := orders, control := (b.control.apply o).2 }) := by
  cases o with
  | armStart e =>
    rw [fences, horders] at h
    rw [fences, RaceControl.epoch_apply_armStart]
    exact h
  | forceStop e =>
    have hlt := h.lt_of_forceStop horders
    have hmax : max b.control.epoch e = e := Nat.max_eq_right (Nat.le_of_lt hlt)
    rw [fences, horders] at h
    rw [fences, RaceControl.epoch_apply_forceStop, hmax]
    exact h.tail

end Queued

/-! ## Where race control stands -/

/-- Race control stands at the last forced finish applied, and no order of a countdown from before a
forced finish has had an effect after it. -/
structure Governed (rc : RaceControl) (epochs : List Nat) (log : List Deed) : Prop where
  epoch : rc.epoch = lastStopped log
  stopped : ∀ {e : Nat}, .stopped e ∈ log → 1 ≤ e ∧ e ≤ rc.epoch
  heeded : ∀ {e i : Nat}, Precedes (.stopped e) (.heeded i) log →
    ∃ t, epochs[i]? = some t ∧ e ≤ t
  armer : rc.armed = true → ∃ i t, armer? log = some i ∧ epochs[i]? = some t ∧ rc.epoch ≤ t

theorem Agrees.governed {a b : Bot} {epochs : List Nat} {log : List Deed} (h : a.Agrees b)
    (hgoverned : Governed b.control epochs log) : Governed a.control epochs log := by
  rw [h.control]
  exact hgoverned

namespace Governed

variable {rc : RaceControl} {epochs : List Nat} {log : List Deed}

theorem new : Governed .new [] [] where
  epoch := rfl
  stopped h := nomatch h
  heeded h := nomatch h
  armer h := nomatch h

theorem mono (h : Governed rc epochs log) {epochs' : List Nat}
    (hepochs : ∀ {i t : Nat}, epochs[i]? = some t → epochs'[i]? = some t) :
    Governed rc epochs' log where
  epoch := h.epoch
  stopped := h.stopped
  heeded hprecedes := by
    obtain ⟨t, ht, hle⟩ := h.heeded hprecedes
    exact ⟨t, hepochs ht, hle⟩
  armer harmed := by
    obtain ⟨i, t, hi, ht, hle⟩ := h.armer harmed
    exact ⟨i, t, hi, hepochs ht, hle⟩

theorem concat (h : Governed rc epochs log) {d : Deed} (hstopped : d.stopped? = none)
    (hheeded : d.heeded? = none) : Governed rc epochs (log ++ [d]) where
  epoch := by
    rw [lastStopped_concat, hstopped]
    exact h.epoch
  stopped {e} he := by
    rcases List.mem_append.mp he with he | he
    · exact h.stopped he
    · rw [← List.mem_singleton.mp he] at hstopped
      cases hstopped
  heeded hprecedes := by
    rcases precedes_concat.mp hprecedes with hprecedes | ⟨-, heq⟩
    · exact h.heeded hprecedes
    · rw [← heq] at hheeded
      cases hheeded
  armer harmed := by
    rw [armer?_concat, hheeded]
    exact h.armer harmed

theorem stop (h : Governed rc epochs log) {e : Nat} (he : rc.epoch < e) :
    Governed (rc.apply (.forceStop e)).2 epochs (log ++ [.stopped e]) := by
  have hepoch : (rc.apply (.forceStop e)).2.epoch = e := Nat.max_eq_right (Nat.le_of_lt he)
  constructor
  case epoch =>
    rw [hepoch, lastStopped_concat]
    rfl
  case stopped =>
    intro t ht
    rw [hepoch]
    rcases List.mem_append.mp ht with ht | ht
    · obtain ⟨hpos, hle⟩ := h.stopped ht
      exact ⟨hpos, Nat.le_trans hle (Nat.le_of_lt he)⟩
    · cases List.mem_singleton.mp ht
      exact ⟨Nat.lt_of_le_of_lt (Nat.zero_le _) he, Nat.le_refl e⟩
  case heeded =>
    intro t i hprecedes
    rcases precedes_concat.mp hprecedes with hprecedes | ⟨-, heq⟩
    · exact h.heeded hprecedes
    · cases heq
  case armer =>
    intro harmed
    rw [RaceControl.armed_apply_forceStop] at harmed
    cases harmed

theorem heed (h : Governed rc epochs log) {i t : Nat} (hi : epochs[i]? = some t)
    (hle : rc.epoch ≤ t) : Governed (rc.apply (.armStart t)).2 epochs (log ++ [.heeded i]) := by
  have hepoch := RaceControl.epoch_apply_armStart rc t
  constructor
  case epoch =>
    rw [hepoch, lastStopped_concat]
    exact h.epoch
  case stopped =>
    intro e he
    rw [hepoch]
    rcases List.mem_append.mp he with he | he
    · exact h.stopped he
    · cases List.mem_singleton.mp he
  case heeded =>
    intro e j hprecedes
    rcases precedes_concat.mp hprecedes with hprecedes | ⟨he, heq⟩
    · exact h.heeded hprecedes
    · cases heq
      exact ⟨t, hi, Nat.le_trans (h.stopped he).2 hle⟩
  case armer =>
    intro _
    rw [hepoch, armer?_concat]
    exact ⟨i, t, rfl, hi, hle⟩

theorem apply (h : Governed rc epochs log) {d : Dispatch}
    (hfinish : ∀ {e : Nat}, d = .finish e → rc.epoch < e)
    (hstart : ∀ {i t : Nat}, d = .start i t → epochs[i]? = some t) :
    Governed (rc.apply d.order).2 epochs (log ++ [.ofApply rc d]) := by
  cases d with
  | finish e => exact h.stop (hfinish rfl)
  | start i t =>
    rw [Deed.ofApply_start]
    by_cases hlt : t < rc.epoch
    · have hsame : (rc.apply (.armStart t)).2 = rc :=
        congrArg Prod.snd (RaceControl.apply_armStart_of_lt hlt)
      rw [if_pos hlt, Dispatch.order, hsame]
      exact h.concat rfl rfl
    · rw [if_neg hlt]
      exact h.heed (hstart rfl) (Nat.le_of_not_lt hlt)

theorem route (h : Governed rc epochs log) (m : Message) :
    Governed (rc.route m).2 epochs log where
  epoch := (RaceControl.epoch_route rc m).trans h.epoch
  stopped he := by
    rw [RaceControl.epoch_route]
    exact h.stopped he
  heeded := h.heeded
  armer harmed := by
    rw [RaceControl.epoch_route]
    exact h.armer (RaceControl.armed_of_armed_route harmed)

end Governed

/-! ## What every move keeps -/

namespace Chronicle

variable {config : Config} {c d : Chronicle}

theorem Move.dated (h : Move c d) (hdated : Dated c.bot.epoch c.bot.epochs c.log) :
    Dated d.bot.epoch d.bot.epochs d.log := by
  cases h with
  | begin script =>
    dsimp only
    rw [epochs_beginCountdown]
    exact hdated.begin
  | finish => exact (agrees_race_finish c.bot).dated hdated.finish
  | arm hi => exact (agrees_order c.bot _).dated hdated
  | apply horders hinFlight =>
    obtain ⟨hbegun, hfinished⟩ := Deed.ofApply_undated c.bot.control _
    exact hdated.concat hbegun hfinished
  | route m => exact hdated
  | aside hb => exact hb.dated hdated

theorem Reachable.dated (h : Reachable config c) : Dated c.bot.epoch c.bot.epochs c.log := by
  induction h with
  | new => exact .nil
  | move _ hmove ih => exact hmove.dated ih

theorem Move.queued (h : Move c d) (hqueued : Queued c.bot.epoch c.bot.fences) :
    Queued d.bot.epoch d.bot.fences := by
  cases h with
  | begin script => exact hqueued
  | finish =>
    dsimp only
    rw [(agrees_race_finish c.bot).epoch, (agrees_race_finish c.bot).fences, fences_finish]
    split
    · exact hqueued.succ
    · exact hqueued.concat
  | arm hi =>
    dsimp only
    rw [(agrees_order c.bot _).epoch, (agrees_order c.bot _).fences, fences_arm]
    exact hqueued
  | apply horders hinFlight => exact hqueued.apply horders
  | route m =>
    dsimp only
    rw [fences_route]
    exact hqueued
  | aside hb =>
    dsimp only
    rw [hb.epoch, hb.fences]
    exact hqueued

theorem Reachable.queued (h : Reachable config c) : Queued c.bot.epoch c.bot.fences := by
  induction h with
  | new => exact ⟨List.pairwise_singleton .., fun e he => Nat.le_of_eq (List.mem_singleton.mp he)⟩
  | move _ hmove ih => exact hmove.queued ih

theorem Move.governed (h : Move c d) (hreachable : Reachable config c)
    (hgoverned : Governed c.bot.control c.bot.epochs c.log) :
    Governed d.bot.control d.bot.epochs d.log := by
  -- Epochs only grow, so it is enough to look at those from before the move.
  suffices hold : Governed d.bot.control c.bot.epochs d.log from hold.mono h.getElem?_epochs
  cases h with
  | begin script => exact hgoverned.concat rfl rfl
  | finish => exact (agrees_race_finish c.bot).governed (hgoverned.concat rfl rfl)
  | arm hi => exact (agrees_order c.bot _).governed hgoverned
  | apply horders hinFlight =>
    refine hgoverned.apply ?_ ?_
    · rintro e rfl
      exact hreachable.queued.lt_of_forceStop horders
    · rintro i t rfl
      refine hreachable.epoch_of_mem ?_
      rw [hinFlight]
      exact List.mem_cons_self
  | route m => exact hgoverned.route m
  | aside hb => exact hb.governed hgoverned

theorem Reachable.governed (h : Reachable config c) :
    Governed c.bot.control c.bot.epochs c.log := by
  induction h with
  | new => exact .new
  | move h hmove ih => exact hmove.governed h ih

/-! ## The forced finish prevails -/

/-- Countdowns and forced finishes keep to their order. -/
structure Fenced (c : Chronicle) : Prop where
  /-- Countdowns begin one after the other. -/
  begun : c.log.filterMap Deed.begun? = List.range c.bot.epochs.length
  /-- Forced finishes are numbered as they come. -/
  finished : c.log.filterMap Deed.finished? = List.range' 1 c.bot.epoch
  /-- The orders in flight are those queued in the bot. -/
  orders : c.inFlight.map (·.order) = c.bot.orders
  /-- Race control knows the forced finish that it applied last. -/
  control : c.bot.control.epoch = lastStopped c.log
  control_le : c.bot.control.epoch ≤ c.bot.epoch
  /-- The forced finishes in flight are newer, in order. -/
  increasing : (stops c.bot.orders).Pairwise (· < ·)
  newer : ∀ e ∈ stops c.bot.orders, c.bot.control.epoch < e
  /-- When a start is armed, the countdown that armed it began after every forced finish that has
  been applied. -/
  armer : c.bot.control.armed = true → ∃ i, armer? c.log = some i ∧
    ∀ {e : Nat}, .stopped e ∈ c.log → Precedes (.finished e) (.begun i) c.log
  /-- A countdown that began before a forced finish never had an effect after that was applied. -/
  unheeded : ∀ {i e : Nat}, Precedes (.begun i) (.finished e) c.log →
    ¬ Precedes (.stopped e) (.heeded i) c.log
  /-- Nor will its order that is in flight. -/
  stale : ∀ {i t e : Nat}, .start i t ∈ c.inFlight → Precedes (.begun i) (.finished e) c.log →
    .stopped e ∈ c.log → c.bot.control.apply (.armStart t) = (.silent, c.bot.control)
  /-- The order of a countdown that began after all of them arms a start. -/
  fresh : ∀ {i t : Nat}, .start i t ∈ c.inFlight →
    (∀ {e : Nat}, .stopped e ∈ c.log → Precedes (.finished e) (.begun i) c.log) →
    c.bot.control.apply (.armStart t) =
      (⟨[.whoIsOnline], none⟩, { c.bot.control with armed := true })

theorem Reachable.fenced (h : Reachable config c) : c.Fenced where
  begun := h.dated.begun
  finished := h.dated.finished
  orders := h.map_order
  control := h.governed.epoch
  control_le := h.queued.le _ List.mem_cons_self
  increasing := h.queued.increasing.of_cons
  newer _ he := List.rel_of_pairwise_cons h.queued.increasing he
  armer harmed := by
    obtain ⟨i, t, harmer, hi, hle⟩ := h.governed.armer harmed
    refine ⟨i, harmer, fun he => ?_⟩
    obtain ⟨hpos, hstopped⟩ := h.governed.stopped he
    exact (h.dated.after hi).mpr ⟨hpos, Nat.le_trans hstopped hle⟩
  unheeded hbefore hafter := by
    obtain ⟨t, hi, hle⟩ := h.governed.heeded hafter
    exact Nat.not_lt.mpr hle (h.dated.before hi hbefore)
  stale hmem hbefore hstopped := by
    have hlt := h.dated.before (h.epoch_of_mem hmem) hbefore
    exact RaceControl.apply_armStart_of_lt (Nat.lt_of_lt_of_le hlt (h.governed.stopped hstopped).2)
  fresh hmem hafter := by
    refine RaceControl.apply_armStart_of_le ?_
    rw [h.governed.epoch]
    rcases Nat.eq_zero_or_pos (lastStopped c.log) with hnone | hpos
    · exact hnone ▸ Nat.zero_le _
    · have hprecedes := hafter (stopped_lastStopped_mem hpos)
      exact ((h.dated.after (h.epoch_of_mem hmem)).mp hprecedes).2

end Chronicle

/-- However commands, countdowns, orders and messages of the server interleave, an older countdown
never undoes a forced finish. Every run of the bot is among these interleavings, with everything that
happens in it. -/
theorem forcedFinish_prevails (config : Config) :
    (∀ es b, (Bot.new config).run? es = some b →
      (chronicle config es).bot = b ∧ Chronicle.Reachable config (chronicle config es) ∧
        (chronicle config es).Fenced) ∧
      ∀ c, Chronicle.Reachable config c → c.Fenced := by
  refine ⟨fun es b hrun => ?_, fun c hreachable => hreachable.fenced⟩
  obtain ⟨hbot, hreachable⟩ := chronicle_of_run hrun
  exact ⟨hbot, hreachable, hreachable.fenced⟩

/-- A countdown is called off when it has said its last line and is about to give its order; race
control applies the forced finish first. -/
def calledOffLate : List Event :=
  [.loop, .execute (.race .start)] ++
    (List.replicate 4 [.wake 0, .speak 0]).flatten ++
    [.execute (.race .finish), .arm 0, .loop, .loop, .loop]

/-- The order of a countdown comes after the forced finish that called it off, and is ignored; the
next countdown arms a start. -/
theorem forcedFinish_prevails_late : ∃ c, Chronicle.Reachable .default c ∧
    c.log = [.begun 0, .finished 1, .stopped 1, .ignored 0, .begun 1, .heeded 1] ∧
      c.bot.control.armed = true ∧ c.Fenced ∧
      ∃ b, (Bot.new .default).run? calledOffLate = some b ∧ b.control.armed = false ∧
        (chronicle .default calledOffLate).log = [.begun 0, .finished 1, .stopped 1, .ignored 0] ∧
        (chronicle .default calledOffLate).Fenced := by
  have hnew : Chronicle.Reachable .default _ := .new
  have hcalledOff := (hnew.move (.begin ["3", "Go"])).move .finish
  have hstopped := hcalledOff.move (@Chronicle.Move.apply _ (.finish 1) [] [] rfl rfl)
  have hlate := hstopped.move (@Chronicle.Move.arm _ 0 0 rfl)
  have hignored := hlate.move (@Chronicle.Move.apply _ (.start 0 0) [] [] rfl rfl)
  have hnext := (hignored.move (.begin ["Go"])).move (@Chronicle.Move.arm _ 1 1 rfl)
  have hheeded := hnext.move (@Chronicle.Move.apply _ (.start 1 1) [] [] rfl rfl)
  obtain ⟨b, hrun, harmed⟩ : ∃ b, (Bot.new .default).run? calledOffLate = some b ∧
      b.control.armed = false := ⟨_, rfl, rfl⟩
  obtain ⟨-, -, hfenced⟩ := (forcedFinish_prevails .default).1 _ b hrun
  exact ⟨_, hheeded, rfl, rfl, (forcedFinish_prevails .default).2 _ hheeded, b, hrun, harmed, rfl,
    hfenced⟩

end RaceSteward.Bot
