import RaceSteward.Proofs.StopChannel.Handles

/-!
# What handles of stop channels read, and when their waits end

A wait ends exactly if the flag of the channel is up or no trigger of the channel is left
(`StopHandles.Sound.step_wait_iff`). What the signal has seen before does not count: as long as the
flag is down there has been no write to see, which is also why a wait that is held and tried again
later finds what a new one would find (`StopHandles.Sound.repoll_eq_step`).

* `StopHandles.handles_follow_triggers`: all of this in every state that can be reached.
-/

namespace RaceSteward

namespace StopHandles

variable {s s' : StopHandles} {op : Op} {i c d : Nat}

/-! ## Reading -/

theorem readTriggers_eq (h : s.channelOf? i = some c) :
    s.readTriggers[i]? = some (some (s.isRaised c)) := by
  rw [readTriggers, List.getElem?_map, channelOf?_eq_some_iff.mp h]
  rfl

theorem readSignals_eq {seen : Nat} (h : s.signals[i]? = some (c, seen)) :
    s.readSignals[i]? = some (s.isRaised c) := by
  rw [readSignals, List.getElem?_map, h]
  rfl

/-- Every handle of the channel reads `up`. -/
structure Reads (s : StopHandles) (c : Nat) (up : Bool) : Prop where
  trigger : ∀ i, s.channelOf? i = some c → s.readTriggers[i]? = some (some up)
  signal : ∀ i seen : Nat, s.signals[i]? = some (c, seen) → s.readSignals[i]? = some up

theorem reads_isRaised (s : StopHandles) (c : Nat) : s.Reads c (s.isRaised c) where
  trigger _ := readTriggers_eq
  signal _ _ := readSignals_eq

/-! ## Waiting -/

theorem Sound.exists_channel (hs : s.Sound) {seen : Nat} (h : s.signals[i]? = some (c, seen)) :
    ∃ ch, s.channels[c]? = some ch :=
  ⟨_, List.getElem?_eq_getElem (hs.signal_lt _ (List.mem_of_getElem? h))⟩

theorem Sound.triggers_eq_zero_iff (hs : s.Sound) {ch : StopChannel}
    (hch : s.channels[c]? = some ch) : ch.triggers = 0 ↔ ∀ j, s.channelOf? j ≠ some c := by
  rw [hs.triggers_eq c ch hch, List.count_eq_zero, List.mem_iff_getElem?, not_exists]
  exact forall_congr' fun j => not_congr channelOf?_eq_some_iff.symm

theorem Sound.step_wait_iff (hs : s.Sound) {seen : Nat} (h : s.signals[i]? = some (c, seen)) :
    ∃ p, (s.step (.wait i)).1 = some p ∧
      (p = .ready ↔ s.isRaised c = true ∨ ∀ j, s.channelOf? j ≠ some c) := by
  obtain ⟨ch, hch⟩ := hs.exists_channel h
  refine ⟨ch.poll.1, by rw [step_wait h hch], ?_⟩
  have hraised : s.isRaised c = ch.raised := by rw [isRaised, hch]
  rw [ch.poll_fst_eq_ready_iff, hraised, hs.triggers_eq_zero_iff hch]

/-- A wait that has to go on leaves a signal that has seen no write: there was none. -/
theorem Sound.seen_of_pending (hs : s.Sound) {seen : Nat} (h : s.signals[i]? = some (c, seen))
    (hpending : (s.step (.wait i)).1 = some .pending) :
    (s.step (.wait i)).2.signals[i]? = some (c, 0) := by
  obtain ⟨ch, hch⟩ := hs.exists_channel h
  rw [step_wait h hch] at hpending ⊢
  have hdown : ¬ ch.raised = true := fun hraised => by
    have hready := ch.poll_fst_eq_ready_iff.mpr (.inl hraised)
    rw [hready] at hpending
    cases hpending
  have hversion : ch.version = 0 := by
    rwa [hs.raised_iff c ch hch, Decidable.not_not] at hdown
  have hi := (List.getElem?_eq_some_iff.mp h).1
  rw [hversion]
  exact List.getElem?_set_self hi

theorem Sound.repoll_eq_step (hs : s.Sound) (h : s.signals[i]? = some (c, 0)) :
    s.repoll i = s.step (.wait i) := by
  obtain ⟨ch, hch⟩ := hs.exists_channel h
  have hpoll := ch.repoll_zero (hs.raised_iff c ch hch)
  rw [step_wait h hch, ← ch.poll_snd]
  simp only [repoll, h, hch, hpoll]

/-! ## Handles keep their channel -/

theorem Acts.signal_eq (h : Acts s op s') {signal : Nat × Nat} (hi : s.signals[i]? = some signal)
    (hop : op ≠ .wait i) : s'.signals[i]? = some signal := by
  cases h with
  | absent | new | cloneTrigger | trigger | dropTrigger => exact hi
  | cloneSignal | subscribe =>
    exact (List.getElem?_append_left (List.getElem?_eq_some_iff.mp hi).1).trans hi
  | @wait j => rwa [List.getElem?_set_ne fun hij : j = i => hop (hij ▸ rfl)]

theorem Sound.signal_run_eq (hs : s.Sound) {signal : Nat × Nat} (hi : s.signals[i]? = some signal)
    {ops : List Op} (hops : .wait i ∉ ops) : (s.run ops).signals[i]? = some signal := by
  induction ops generalizing s with
  | nil => exact hi
  | cons op ops ih =>
    obtain ⟨hne, hops⟩ := not_or.mp (mt List.mem_cons.mpr hops)
    exact ih (hs.step op) ((hs.acts_step op).signal_eq hi (Ne.symm hne)) hops

/-- How the handles after an operation come from the handles before it. -/
structure Descends (s : StopHandles) (op : Op) (s' : StopHandles) : Prop where
  /-- A trigger stays one of its channel until it is dropped. -/
  trigger_kept : ∀ i c, s.channelOf? i = some c → op ≠ .dropTrigger i → s'.channelOf? i = some c
  trigger_dropped : ∀ i, op = .dropTrigger i → s'.channelOf? i = none
  /-- A trigger that was not there has a channel of its own, or that of the one it is a clone of. -/
  trigger_made : ∀ i c, s'.channelOf? i = some c → s.channelOf? i = some c ∨
    op = .new ∧ c = s.channels.length ∨ ∃ j, op = .cloneTrigger j ∧ s.channelOf? j = some c
  signal_kept : ∀ (i c seen : Nat), s.signals[i]? = some (c, seen) →
    ∃ seen', s'.signals[i]? = some (c, seen')
  /-- A signal that was not there has the channel of the signal or the trigger it is taken from. -/
  signal_made : ∀ (i c seen : Nat), s'.signals[i]? = some (c, seen) →
    (∃ seen', s.signals[i]? = some (c, seen')) ∨
    ∃ j, (op = .cloneSignal j ∨ op = .subscribe j) ∧ op.channel? s = some c

theorem channelOf?_concat {channels : List StopChannel} {signals : List (Nat × Nat)}
    {triggers : List (Option Nat)} :
    (⟨channels, triggers ++ [some c], signals⟩ : StopHandles).channelOf? i = some d ↔
      triggers[i]? = some (some d) ∨ i = triggers.length ∧ d = c := by
  rw [channelOf?_eq_some_iff]
  constructor
  · intro h
    exact (getElem?_concat_cases h).imp_right fun ⟨hi, hd⟩ => ⟨hi, Option.some.inj hd⟩
  · rintro (h | ⟨rfl, rfl⟩)
    · exact (List.getElem?_append_left (List.getElem?_eq_some_iff.mp h).1).trans h
    · exact List.getElem?_concat_length

theorem Acts.descends (h : Acts s op s') : Descends s op s' where
  trigger_kept i c hi hop := by
    cases h with
    | absent | cloneSignal | subscribe | trigger | wait => exact hi
    | new | cloneTrigger => exact channelOf?_concat.mpr (.inl (channelOf?_eq_some_iff.mp hi))
    | @dropTrigger j =>
      have hne : j ≠ i := fun hij => hop (hij ▸ rfl)
      rw [channelOf?_eq_some_iff] at hi ⊢
      rwa [List.getElem?_set_ne hne]
  trigger_dropped i hop := by
    subst hop
    cases h with
    | absent h => exact h
    | dropTrigger h =>
      have hi := (List.getElem?_eq_some_iff.mp (channelOf?_eq_some_iff.mp h)).1
      rw [channelOf?, List.getElem?_set_self hi]
      rfl
  trigger_made i c hi := by
    cases h with
    | absent | cloneSignal | subscribe | trigger | wait => exact .inl hi
    | new =>
      rcases channelOf?_concat.mp hi with hold | ⟨-, hc⟩
      · exact .inl (channelOf?_eq_some_iff.mpr hold)
      · exact .inr (.inl ⟨rfl, hc⟩)
    | @cloneTrigger j _ h =>
      rcases channelOf?_concat.mp hi with hold | ⟨-, rfl⟩
      · exact .inl (channelOf?_eq_some_iff.mpr hold)
      · exact .inr (.inr ⟨j, rfl, h⟩)
    | @dropTrigger j =>
      rw [channelOf?_eq_some_iff, List.getElem?_set] at hi
      split at hi
      · split at hi <;> cases hi
      · exact .inl (channelOf?_eq_some_iff.mpr hi)
  signal_kept i c seen hi := by
    -- a wait changes what its own signal has seen
    by_cases hop : op = .wait i
    · subst hop
      cases h with
      | absent => exact ⟨seen, hi⟩
      | wait h seen' =>
        cases hi.symm.trans h
        exact ⟨seen', List.getElem?_set_self (List.getElem?_eq_some_iff.mp hi).1⟩
    · exact ⟨seen, h.signal_eq hi hop⟩
  signal_made i c seen hi := by
    cases h with
    | absent | new | cloneTrigger | trigger | dropTrigger => exact .inl ⟨seen, hi⟩
    | @cloneSignal j _ _ h =>
      rcases getElem?_concat_cases hi with hold | ⟨-, heq⟩
      · exact .inl ⟨seen, hold⟩
      · cases heq
        exact .inr ⟨j, .inl rfl, by rw [Op.channel?, h]; rfl⟩
    | @subscribe j _ h =>
      rcases getElem?_concat_cases hi with hold | ⟨-, heq⟩
      · exact .inl ⟨seen, hold⟩
      · cases heq
        exact .inr ⟨j, .inr rfl, h⟩
    | @wait j d _ h seen' =>
      rw [List.getElem?_set] at hi
      split at hi
      case isTrue hij =>
        subst hij
        split at hi
        · cases hi
          exact .inl ⟨_, h⟩
        · cases hi
      case isFalse => exact .inl ⟨seen, hi⟩

/-! ## Other channels -/

theorem getElem?_concat_of_ne {α : Type} {l : List α} {a b : α} {i : Nat} (h : b ≠ a) :
    (l ++ [a])[i]? = some b ↔ l[i]? = some b :=
  ⟨fun hi => (getElem?_concat_cases hi).resolve_right fun hlast => h hlast.2,
    fun hi => (List.getElem?_append_left (List.getElem?_eq_some_iff.mp hi).1).trans hi⟩

/-- A channel, and the handles of it, stay as they are. -/
structure SameAt (s s' : StopHandles) (d : Nat) : Prop where
  channel : s'.channels[d]? = s.channels[d]?
  trigger : ∀ i, s'.channelOf? i = some d ↔ s.channelOf? i = some d
  signal : ∀ i seen : Nat, s'.signals[i]? = some (d, seen) ↔ s.signals[i]? = some (d, seen)

theorem Acts.sameAt (h : Acts s op s') (hd : d < s.channels.length)
    (hop : op.channel? s ≠ some d) : SameAt s s' d where
  channel := by
    cases h with
    | absent | cloneSignal | subscribe | wait => rfl
    | new => exact List.getElem?_append_left hd
    | cloneTrigger h | trigger h | dropTrigger h =>
      exact List.getElem?_modify_ne _ _ fun hcd => hop (h.trans (congrArg some hcd))
  trigger j := by
    cases h with
    | absent | cloneSignal | subscribe | trigger | wait => rfl
    | new =>
      rw [channelOf?_eq_some_iff, channelOf?_eq_some_iff]
      exact getElem?_concat_of_ne fun hlast => Nat.ne_of_lt hd (Option.some.inj hlast)
    | cloneTrigger h =>
      rw [channelOf?_eq_some_iff, channelOf?_eq_some_iff]
      exact getElem?_concat_of_ne fun hdc => hop (h.trans hdc.symm)
    | @dropTrigger i _ h =>
      by_cases hij : i = j
      · subst hij
        exact iff_of_false (by rw [(Acts.dropTrigger h).descends.trigger_dropped i rfl]; nofun) hop
      · rw [channelOf?_eq_some_iff, channelOf?_eq_some_iff, List.getElem?_set_ne hij]
  signal j seen := by
    cases h with
    | absent | new | cloneTrigger | trigger | dropTrigger => rfl
    | @cloneSignal i c _ h =>
      have hne : c ≠ d := fun hcd => hop (by rw [Op.channel?, h, ← hcd]; rfl)
      exact getElem?_concat_of_ne fun heq => hne (congrArg Prod.fst heq).symm
    | subscribe h =>
      exact getElem?_concat_of_ne fun heq => hop (h.trans (congrArg (some ·.1) heq.symm))
    | @wait i c _ h =>
      have hne : c ≠ d := fun hcd => hop (by rw [Op.channel?, h, ← hcd]; rfl)
      by_cases hij : i = j
      · subst hij
        rw [h, List.getElem?_set_self (List.getElem?_eq_some_iff.mp h).1]
        simp [hne]
      · rw [List.getElem?_set_ne hij]

/-! ## Every state that can be reached -/

theorem Triggered.append {ops : List Op} (h : Triggered ops c) (more : List Op) :
    Triggered (ops ++ more) c := by
  obtain ⟨before, i, after, rfl, hi⟩ := h
  exact ⟨before, i, after ++ more, List.append_assoc .., hi⟩

theorem repoll_run_eq {before more : List Op} (hmore : .wait i ∉ more)
    (hpending : ((start.run before).step (.wait i)).1 = some .pending) :
    let s := start.run (before ++ .wait i :: more)
    s.repoll i = s.step (.wait i) := by
  have hbefore : (start.run before).Sound := sound_start.run before
  obtain ⟨c, seen, h⟩ : ∃ c seen, (start.run before).signals[i]? = some (c, seen) := by
    cases h : (start.run before).signals[i]? with
    | none => simp [step, h] at hpending
    | some signal => exact ⟨signal.1, signal.2, rfl⟩
  have hseen := hbefore.seen_of_pending h hpending
  intro s
  have hs : s.Sound := sound_start.run _
  have hrun : s = ((start.run before).step (.wait i)).2.run more := run_append _ _ _
  refine hs.repoll_eq_step (c := c) ?_
  rw [hrun]
  exact (hbefore.step _).signal_run_eq hseen hmore

/-- Whatever is done with any number of handles, those of a channel follow its triggers and nothing
else: neither what a signal has been waited on for before, nor another channel. -/
theorem handles_follow_triggers (ops : List Op) :
    let s := start.run ops
    -- what the handles of a channel read, and read from then on
    (∀ c, ∃ up, s.Reads c up ∧ (up = true ↔ Triggered ops c)) ∧
    (∀ c, Triggered ops c → ∀ more, (s.run more).Reads c true) ∧
    -- when a wait ends, be it a new one or one that had to go on
    (∀ i c seen : Nat, s.signals[i]? = some (c, seen) → ∃ p, (s.step (.wait i)).1 = some p ∧
      (p = .ready ↔ Triggered ops c ∨ ∀ j, s.channelOf? j ≠ some c)) ∧
    (∀ before i more, ops = before ++ .wait i :: more → .wait i ∉ more →
      ((start.run before).step (.wait i)).1 = some .pending → s.repoll i = s.step (.wait i)) ∧
    -- what an operation leaves alone, and how it makes handles
    (∀ op d, d < s.channels.length → op.channel? s ≠ some d → SameAt s (s.step op).2 d) ∧
    ∀ op, Descends s op (s.step op).2 := by
  intro s
  have hs : s.Sound := sound_start.run ops
  refine ⟨fun c => ⟨_, s.reads_isRaised c, isRaised_run_start_iff ops c⟩, fun c h more => ?_,
    fun i c seen h => ?_, ?_, fun op d hd hop => (hs.acts_step op).sameAt hd hop,
    fun op => (hs.acts_step op).descends⟩
  · have hraised : (s.run more).isRaised c = true := by
      rw [← run_append]
      exact (isRaised_run_start_iff _ c).mpr (h.append more)
    exact hraised ▸ (s.run more).reads_isRaised c
  · rw [← isRaised_run_start_iff]
    exact hs.step_wait_iff h
  · rintro before i more rfl hmore hpending
    exact repoll_run_eq hmore hpending

/-- The second trigger of the first channel raises the flag and goes; the second channel loses its
only trigger. -/
theorem handles_follow_triggers_dropped :
    let ops : List Op := [.cloneTrigger 0, .cloneSignal 0, .wait 0, .new, .subscribe 2, .trigger 1,
      .dropTrigger 1, .dropTrigger 2]
    let s := start.run ops
    s.Reads 0 true ∧ s.Reads 1 false ∧ (s.step (.wait 1)).1 = some .ready ∧
      (s.step (.wait 2)).1 = some .ready ∧ s.repoll 0 = s.step (.wait 0) := by
  intro ops s
  obtain ⟨hreads, hstay, hwait, hheld, -⟩ := handles_follow_triggers ops
  have hzero : Triggered ops 0 := ⟨ops.take 5, 1, ops.drop 6, by decide, by decide⟩
  obtain ⟨up, hup, hiff⟩ := hreads 1
  have hdown : up = false := by
    have hsignal := hup.signal 2 0 (by decide)
    exact (Option.some.inj (hsignal.symm.trans (by decide : _ = some false)))
  obtain ⟨p, hp, hready⟩ := hwait 1 0 0 (by decide)
  obtain ⟨q, hq, hdropped⟩ := hwait 2 1 0 (by decide)
  have hnone : ∀ j, s.channelOf? j ≠ some 1 := by
    intro j hj
    have hmem : some 1 ∈ s.triggers := mem_triggers hj
    revert hmem
    decide
  refine ⟨hstay 0 hzero [], hdown ▸ hup, ?_, ?_, hheld (ops.take 2) 0 (ops.drop 3) (by decide)
    (by decide) (by decide)⟩
  · exact hp.trans (congrArg some (hready.mpr (.inl hzero)))
  · exact hq.trans (congrArg some (hdropped.mpr (.inr hnone)))

end StopHandles

end RaceSteward
