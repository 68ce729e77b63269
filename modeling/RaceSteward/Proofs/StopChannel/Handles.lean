import RaceSteward.StopChannel

/-!
# The handles of stop channels

What an operation does to the channels and to the handles of each (`StopHandles.Acts`), and what holds
of them all the time (`StopHandles.Sound`): every handle has a channel, every channel counts its
triggers, and a flag is up exactly if there has been a write.

* `StopHandles.Sound.run`: every state that can be reached is sound.
* `StopHandles.isRaised_run_start_iff`: a flag is up exactly if a trigger of its channel raised it.
-/

namespace RaceSteward

namespace StopChannel

theorem poll_fst_eq_ready_iff (c : StopChannel) :
    c.poll.1 = .ready ↔ c.raised = true ∨ c.triggers = 0 := by
  unfold poll look news
  cases c.raised <;> by_cases h : c.triggers = 0 <;> simp [h]

theorem poll_snd (c : StopChannel) : c.poll.2 = c.version := by
  unfold poll look news
  cases c.raised <;> by_cases h : c.triggers = 0 <;> simp [h]

/-- A wait that has found the flag down before the first write is polled again as if for the first
time. -/
theorem repoll_zero {c : StopChannel} (h : c.raised = true ↔ c.version ≠ 0) :
    c.repoll 0 = c.poll := by
  unfold repoll
  by_cases hversion : c.version = 0
  · have hdown : c.raised = false := by simpa [hversion] using h
    unfold poll look news
    by_cases htriggers : c.triggers = 0 <;> simp [hdown, hversion, htriggers]
  · rw [news, if_pos hversion]

end StopChannel

namespace StopHandles

variable {s s' : StopHandles} {op : Op} {i c : Nat}

/-! ## What an operation does -/

/-- The channel of the handle that an operation is applied to, if the handle exists. -/
def Op.channel? (s : StopHandles) : Op → Option Nat
  | .new => none
  | .cloneTrigger i | .subscribe i | .trigger i | .dropTrigger i => s.channelOf? i
  | .cloneSignal i | .wait i => (s.signals[i]?).map (·.1)

/-- All that an operation can do to the state. -/
inductive Acts (s : StopHandles) : Op → StopHandles → Prop where
  /-- There is no such handle. -/
  | absent {op : Op} (h : op.channel? s = none) : Acts s op s
  | new : Acts s .new
    { s with channels := s.channels ++ [.fresh], triggers := s.triggers ++ [some s.channels.length] }
  | cloneTrigger {i c : Nat} (h : s.channelOf? i = some c) : Acts s (.cloneTrigger i)
    { s with
      channels := s.channels.modify c fun ch => { ch with triggers := ch.triggers + 1 }
      triggers := s.triggers ++ [some c] }
  | cloneSignal {i c seen : Nat} (h : s.signals[i]? = some (c, seen)) : Acts s (.cloneSignal i)
    { s with signals := s.signals ++ [(c, seen)] }
  | subscribe {i c : Nat} (h : s.channelOf? i = some c) (seen : Nat) : Acts s (.subscribe i)
    { s with signals := s.signals ++ [(c, seen)] }
  | trigger {i c : Nat} (h : s.channelOf? i = some c) : Acts s (.trigger i)
    { s with channels := s.channels.modify c .raise }
  | dropTrigger {i c : Nat} (h : s.channelOf? i = some c) : Acts s (.dropTrigger i)
    { s with
      channels := s.channels.modify c fun ch => { ch with triggers := ch.triggers - 1 }
      triggers := s.triggers.set i none }
  | wait {i c seen : Nat} (h : s.signals[i]? = some (c, seen)) (seen' : Nat) : Acts s (.wait i)
    { s with signals := s.signals.set i (c, seen') }

theorem channelOf?_eq_some_iff : s.channelOf? i = some c ↔ s.triggers[i]? = some (some c) := by
  rw [channelOf?, Option.join_eq_some_iff]

theorem step_wait {seen : Nat} {ch : StopChannel} (h : s.signals[i]? = some (c, seen))
    (hch : s.channels[c]? = some ch) :
    s.step (.wait i) = (some ch.poll.1, { s with signals := s.signals.set i (c, ch.version) }) := by
  rw [← ch.poll_snd]
  simp only [step, h, hch]

theorem acts_step (h : ∀ signal ∈ s.signals, signal.1 < s.channels.length) (op : Op) :
    Acts s op (s.step op).2 := by
  cases op with
  | new => exact .new
  | cloneTrigger i =>
    cases hi : s.channelOf? i with
    | none =>
      simp only [step, hi]
      exact .absent hi
    | some c =>
      simp only [step, hi]
      exact .cloneTrigger hi
  | cloneSignal i =>
    cases hi : s.signals[i]? with
    | none =>
      simp only [step, hi]
      exact .absent (by rw [Op.channel?, hi]; rfl)
    | some signal =>
      simp only [step, hi]
      exact .cloneSignal hi
  | subscribe i =>
    cases hi : s.channelOf? i with
    | none =>
      simp only [step, hi]
      exact .absent hi
    | some c =>
      simp only [step, hi]
      exact .subscribe hi _
  | trigger i =>
    cases hi : s.channelOf? i with
    | none =>
      simp only [step, hi]
      exact .absent hi
    | some c =>
      simp only [step, hi]
      exact .trigger hi
  | dropTrigger i =>
    cases hi : s.channelOf? i with
    | none =>
      simp only [step, hi]
      exact .absent hi
    | some c =>
      simp only [step, hi]
      exact .dropTrigger hi
  | wait i =>
    rcases hi : s.signals[i]? with _ | ⟨c, seen⟩
    · simp only [step, hi]
      exact .absent (by rw [Op.channel?, hi]; rfl)
    · have hch := List.getElem?_eq_getElem (h _ (List.mem_of_getElem? hi))
      rw [step_wait hi hch]
      exact .wait hi _

/-! ## Sound states -/

structure Sound (s : StopHandles) : Prop where
  trigger_lt : ∀ c, some c ∈ s.triggers → c < s.channels.length
  signal_lt : ∀ signal ∈ s.signals, signal.1 < s.channels.length
  /-- Each channel counts the triggers that it has. -/
  triggers_eq : ∀ (c : Nat) (ch : StopChannel), s.channels[c]? = some ch →
    ch.triggers = s.triggers.count (some c)
  raised_iff : ∀ (c : Nat) (ch : StopChannel), s.channels[c]? = some ch →
    (ch.raised = true ↔ ch.version ≠ 0)

theorem mem_triggers (h : s.channelOf? i = some c) : some c ∈ s.triggers :=
  List.mem_of_getElem? (channelOf?_eq_some_iff.mp h)

theorem getElem?_modify_eq_some_iff {α : Type} {f : α → α} {l : List α} {i j : Nat} {b : α} :
    (l.modify i f)[j]? = some b ↔ ∃ a, l[j]? = some a ∧ b = if i = j then f a else a := by
  rw [List.getElem?_modify, Option.map_eq_map, Option.map_eq_some_iff]
  exact exists_congr fun a => and_congr_right fun _ => eq_comm

theorem getElem?_concat_cases {α : Type} {l : List α} {a b : α} {i : Nat}
    (h : (l ++ [a])[i]? = some b) : l[i]? = some b ∨ i = l.length ∧ b = a := by
  rw [List.getElem?_append] at h
  split at h
  · exact .inl h
  · obtain ⟨hi, rfl⟩ := List.getElem?_eq_some_iff.mp h
    rw [List.length_singleton] at hi
    exact .inr ⟨by omega, List.getElem_singleton hi⟩

theorem sound_start : start.Sound where
  trigger_lt c h := by
    rw [start, List.mem_singleton] at h
    cases h
    exact Nat.zero_lt_one
  signal_lt signal h := by
    rw [start, List.mem_singleton] at h
    subst h
    exact Nat.zero_lt_one
  triggers_eq c ch h := by
    obtain ⟨hc, rfl⟩ := List.getElem?_eq_some_iff.mp h
    obtain rfl : c = 0 := Nat.lt_one_iff.mp hc
    rfl
  raised_iff c ch h := by
    obtain ⟨hc, rfl⟩ := List.getElem?_eq_some_iff.mp h
    obtain rfl : c = 0 := Nat.lt_one_iff.mp hc
    simp [start, StopChannel.fresh]

/-! ### One operation -/

theorem Sound.new (hs : s.Sound) : ({ s with
    channels := s.channels ++ [.fresh]
    triggers := s.triggers ++ [some s.channels.length] } : StopHandles).Sound where
  trigger_lt c h := by
    rw [List.length_append, List.length_singleton]
    rcases List.mem_append.mp h with hold | hnew
    · exact Nat.lt_succ_of_lt (hs.trigger_lt c hold)
    · cases List.mem_singleton.mp hnew
      exact Nat.lt_succ_self _
  signal_lt signal h := by
    rw [List.length_append]
    exact Nat.lt_add_right _ (hs.signal_lt signal h)
  triggers_eq c ch h := by
    rw [List.count_append]
    rcases getElem?_concat_cases h with hold | ⟨rfl, rfl⟩
    · have hc := (List.getElem?_eq_some_iff.mp hold).1
      have hne : s.channels.length ≠ c := Nat.ne_of_gt hc
      rw [← hs.triggers_eq c ch hold]
      simp [hne]
    · -- no trigger can have a channel that was not there
      have hnone : some s.channels.length ∉ s.triggers := fun hmem =>
        Nat.lt_irrefl _ (hs.trigger_lt _ hmem)
      rw [List.count_eq_zero.mpr hnone]
      simp [StopChannel.fresh]
  raised_iff c ch h := by
    rcases getElem?_concat_cases h with hold | ⟨-, rfl⟩
    · exact hs.raised_iff c ch hold
    · simp [StopChannel.fresh]

theorem Sound.signals (hs : s.Sound) {signals : List (Nat × Nat)}
    (h : ∀ signal ∈ signals, signal.1 < s.channels.length) :
    ({ s with signals } : StopHandles).Sound where
  trigger_lt := hs.trigger_lt
  signal_lt := h
  triggers_eq := hs.triggers_eq
  raised_iff := hs.raised_iff

theorem Sound.raise (hs : s.Sound) (c : Nat) :
    ({ s with channels := s.channels.modify c .raise } : StopHandles).Sound where
  trigger_lt d hd := by
    rw [List.length_modify]
    exact hs.trigger_lt d hd
  signal_lt signal hsignal := by
    rw [List.length_modify]
    exact hs.signal_lt signal hsignal
  triggers_eq d ch h := by
    obtain ⟨old, hold, rfl⟩ := getElem?_modify_eq_some_iff.mp h
    rw [← hs.triggers_eq d old hold]
    split <;> rfl
  raised_iff d ch h := by
    obtain ⟨old, hold, rfl⟩ := getElem?_modify_eq_some_iff.mp h
    split
    · simp [StopChannel.raise]
    · exact hs.raised_iff d old hold

theorem Sound.cloneTrigger (hs : s.Sound) (h : some c ∈ s.triggers) : ({ s with
    channels := s.channels.modify c fun ch => { ch with triggers := ch.triggers + 1 }
    triggers := s.triggers ++ [some c] } : StopHandles).Sound where
  trigger_lt d hd := by
    rw [List.length_modify]
    rcases List.mem_append.mp hd with hold | hnew
    · exact hs.trigger_lt d hold
    · cases List.mem_singleton.mp hnew
      exact hs.trigger_lt c h
  signal_lt signal hsignal := by
    rw [List.length_modify]
    exact hs.signal_lt signal hsignal
  triggers_eq d ch hch := by
    obtain ⟨old, hold, rfl⟩ := getElem?_modify_eq_some_iff.mp hch
    rw [List.count_append, ← hs.triggers_eq d old hold]
    by_cases hd : c = d
    · simp [hd]
    · simp [hd]
  raised_iff d ch hch := by
    obtain ⟨old, hold, rfl⟩ := getElem?_modify_eq_some_iff.mp hch
    have hsame := hs.raised_iff d old hold
    split <;> exact hsame

theorem Sound.dropTrigger (hs : s.Sound) (h : s.triggers[i]? = some (some c)) : ({ s with
    channels := s.channels.modify c fun ch => { ch with triggers := ch.triggers - 1 }
    triggers := s.triggers.set i none } : StopHandles).Sound where
  trigger_lt d hd := by
    rw [List.length_modify]
    exact hs.trigger_lt d ((List.mem_or_eq_of_mem_set hd).resolve_right nofun)
  signal_lt signal hsignal := by
    rw [List.length_modify]
    exact hs.signal_lt signal hsignal
  triggers_eq d ch hch := by
    obtain ⟨old, hold, rfl⟩ := getElem?_modify_eq_some_iff.mp hch
    obtain ⟨hi, hget⟩ := List.getElem?_eq_some_iff.mp h
    rw [List.count_set hi, ← hs.triggers_eq d old hold, hget]
    by_cases hd : c = d
    · simp [hd]
    · simp [hd]
  raised_iff d ch hch := by
    obtain ⟨old, hold, rfl⟩ := getElem?_modify_eq_some_iff.mp hch
    have hsame := hs.raised_iff d old hold
    split <;> exact hsame

theorem Sound.acts (hs : s.Sound) (h : Acts s op s') : s'.Sound := by
  cases h with
  | absent _ => exact hs
  | new => exact hs.new
  | cloneTrigger h => exact hs.cloneTrigger (mem_triggers h)
  | cloneSignal h =>
    have hnew := hs.signal_lt _ (List.mem_of_getElem? h)
    exact hs.signals (List.forall_mem_append.mpr ⟨hs.signal_lt, List.forall_mem_singleton.mpr hnew⟩)
  | subscribe h =>
    have hnew := hs.trigger_lt _ (mem_triggers h)
    exact hs.signals (List.forall_mem_append.mpr ⟨hs.signal_lt, List.forall_mem_singleton.mpr hnew⟩)
  | trigger _ => exact hs.raise _
  | dropTrigger h => exact hs.dropTrigger (channelOf?_eq_some_iff.mp h)
  | wait h =>
    refine hs.signals fun signal hsignal => ?_
    rcases List.mem_or_eq_of_mem_set hsignal with hold | rfl
    · exact hs.signal_lt signal hold
    · have hold := hs.signal_lt _ (List.mem_of_getElem? h)
      exact hold

theorem Sound.acts_step (hs : s.Sound) (op : Op) : Acts s op (s.step op).2 :=
  StopHandles.acts_step hs.signal_lt op

theorem Sound.step (hs : s.Sound) (op : Op) : (s.step op).2.Sound :=
  hs.acts (hs.acts_step op)

theorem Sound.run (hs : s.Sound) (ops : List Op) : (s.run ops).Sound := by
  induction ops generalizing s with
  | nil => exact hs
  | cons op ops ih => exact ih (hs.step op)

theorem run_append (s : StopHandles) (before after : List Op) :
    s.run (before ++ after) = (s.run before).run after := by
  induction before generalizing s with
  | nil => rfl
  | cons op before ih => exact ih (s.step op).2

/-! ## Flags -/

theorem isRaised_eq_true_iff :
    s.isRaised c = true ↔ ∃ ch, s.channels[c]? = some ch ∧ ch.raised = true := by
  unfold isRaised
  cases s.channels[c]? <;> simp

theorem isRaised_modify (f : StopChannel → StopChannel) (hf : ∀ ch, (f ch).raised = ch.raised)
    (h : s'.channels = s.channels.modify c f) (d : Nat) : s'.isRaised d = s.isRaised d := by
  rw [Bool.eq_iff_iff, isRaised_eq_true_iff, isRaised_eq_true_iff, h]
  constructor
  · rintro ⟨ch, hch, hraised⟩
    obtain ⟨old, hold, rfl⟩ := getElem?_modify_eq_some_iff.mp hch
    refine ⟨old, hold, ?_⟩
    split at hraised
    · rwa [hf] at hraised
    · exact hraised
  · rintro ⟨old, hold, hraised⟩
    refine ⟨_, getElem?_modify_eq_some_iff.mpr ⟨old, hold, rfl⟩, ?_⟩
    split
    · rwa [hf]
    · exact hraised

theorem isRaised_raise (hc : c < s.channels.length) (d : Nat) :
    ({ s with channels := s.channels.modify c .raise } : StopHandles).isRaised d = true ↔
      s.isRaised d = true ∨ c = d := by
  rw [isRaised_eq_true_iff, isRaised_eq_true_iff]
  constructor
  · rintro ⟨ch, hch, hraised⟩
    obtain ⟨old, hold, rfl⟩ := getElem?_modify_eq_some_iff.mp hch
    split at hraised
    case isTrue h => exact .inr h
    case isFalse => exact .inl ⟨old, hold, hraised⟩
  · intro h
    have hd : d < s.channels.length := by
      rcases h with ⟨old, hold, -⟩ | rfl
      · exact (List.getElem?_eq_some_iff.mp hold).1
      · exact hc
    refine ⟨_, getElem?_modify_eq_some_iff.mpr ⟨_, List.getElem?_eq_getElem hd, rfl⟩, ?_⟩
    split
    case isTrue => rfl
    case isFalse hne =>
      obtain ⟨old, hold, hraised⟩ := h.resolve_right hne
      rw [List.getElem?_eq_getElem hd] at hold
      exact Option.some.inj hold ▸ hraised

theorem isRaised_new (s : StopHandles) (triggers : List (Option Nat)) (d : Nat) :
    ({ s with channels := s.channels ++ [.fresh], triggers } : StopHandles).isRaised d =
      s.isRaised d := by
  rw [Bool.eq_iff_iff, isRaised_eq_true_iff, isRaised_eq_true_iff]
  constructor
  · rintro ⟨ch, hch, hraised⟩
    rcases getElem?_concat_cases hch with hold | ⟨-, rfl⟩
    · exact ⟨ch, hold, hraised⟩
    · cases hraised
  · rintro ⟨ch, hch, hraised⟩
    have hd := (List.getElem?_eq_some_iff.mp hch).1
    exact ⟨ch, (List.getElem?_append_left hd).trans hch, hraised⟩

theorem isRaised_iff_of_eq {d : Nat} (h : s'.isRaised d = s.isRaised d)
    (hop : ∀ i, op ≠ .trigger i) :
    s'.isRaised d = true ↔ s.isRaised d = true ∨ ∃ i, op = .trigger i ∧ s.channelOf? i = some d := by
  rw [h]
  exact (or_iff_left fun ⟨i, hi, _⟩ => hop i hi).symm

theorem Sound.isRaised_iff (hs : s.Sound) (h : Acts s op s') (d : Nat) :
    s'.isRaised d = true ↔ s.isRaised d = true ∨ ∃ i, op = .trigger i ∧ s.channelOf? i = some d := by
  cases h with
  | absent h =>
    refine (or_iff_left ?_).symm
    rintro ⟨i, rfl, hi⟩
    cases h.symm.trans hi
  | new => exact isRaised_iff_of_eq (s.isRaised_new _ d) nofun
  | cloneTrigger =>
    exact isRaised_iff_of_eq (isRaised_modify (fun ch => { ch with triggers := ch.triggers + 1 })
      (fun _ => rfl) rfl d) nofun
  | dropTrigger =>
    exact isRaised_iff_of_eq (isRaised_modify (fun ch => { ch with triggers := ch.triggers - 1 })
      (fun _ => rfl) rfl d) nofun
  | cloneSignal | subscribe | wait => exact isRaised_iff_of_eq rfl nofun
  | @trigger i c h =>
    rw [isRaised_raise (hs.trigger_lt c (mem_triggers h))]
    simp [h]

theorem Sound.isRaised_run_iff (hs : s.Sound) (ops : List Op) (c : Nat) :
    (s.run ops).isRaised c = true ↔ s.isRaised c = true ∨
      ∃ before i after, ops = before ++ .trigger i :: after ∧
        (s.run before).channelOf? i = some c := by
  induction ops generalizing s with
  | nil => simp [StopHandles.run]
  | cons op ops ih =>
    refine (ih (hs.step op)).trans ?_
    rw [hs.isRaised_iff (hs.acts_step op), or_assoc]
    refine or_congr_right ⟨?_, ?_⟩
    · rintro (⟨i, rfl, hi⟩ | ⟨before, i, after, rfl, hi⟩)
      · exact ⟨[], i, ops, rfl, hi⟩
      · exact ⟨op :: before, i, after, rfl, hi⟩
    · rintro ⟨_ | ⟨first, before⟩, i, after, hops, hi⟩
      · obtain ⟨rfl, -⟩ := List.cons.inj hops
        exact .inl ⟨i, rfl, hi⟩
      · obtain ⟨rfl, rfl⟩ := List.cons.inj hops
        exact .inr ⟨before, i, after, rfl, hi⟩

/-- Some trigger of the channel has raised its flag, whatever became of the trigger. -/
def Triggered (ops : List Op) (c : Nat) : Prop :=
  ∃ before i after, ops = before ++ .trigger i :: after ∧ (start.run before).channelOf? i = some c

theorem isRaised_start (c : Nat) : start.isRaised c = false := by
  cases c <;> rfl

theorem isRaised_run_start_iff (ops : List Op) (c : Nat) :
    (start.run ops).isRaised c = true ↔ Triggered ops c := by
  rw [sound_start.isRaised_run_iff, isRaised_start]
  exact or_iff_right nofun

end StopHandles

end RaceSteward
