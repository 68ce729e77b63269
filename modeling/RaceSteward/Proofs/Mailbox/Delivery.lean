import RaceSteward.Mailbox

/-!
# What becomes of the messages in a mailbox

Producers call a mailbox one after another, in any order. A call puts in a parcel: the messages that
the mailbox takes from it, or nothing when the mailbox is full. Parcels are never opened: each drain
takes whole parcels, and those that no drain has taken are pending.

* `Mailbox.delivery_of_calls`: every parcel is delivered once, in the order of the calls, except that
  an urgent parcel comes right before everything that was pending when it was put in.

`Ledger` keeps the parcels where the mailbox keeps their messages; one call of the mailbox is one
entry of the ledger (`Ledger.note`), so a sequence of calls is a sequence of entries.
-/

namespace RaceSteward.Mailbox

variable {ι α : Type}

/-- An operation, and who calls it. -/
structure Call (ι α : Type) where
  producer : ι
  op : Op α

/-- The messages that a mailbox has taken from one call. -/
structure Parcel (ι α : Type) where
  /-- How many calls came before. -/
  call : Nat
  producer : ι
  /-- Put in ahead of everything pending. -/
  urgent : Bool
  messages : List α

/-- What a mailbox takes from the `n`-th call: a delivery as long as fewer messages are pending than
the upper mark, and in any case a message put ahead. -/
def parcel? (q : Mailbox α) (n : Nat) (c : Call ι α) : Option (Parcel ι α) :=
  match c.op with
  | .push a => if q.size < q.limits.nuke then some ⟨n, c.producer, false, [a]⟩ else none
  | .extend batch => if q.size < q.limits.nuke then some ⟨n, c.producer, false, batch⟩ else none
  | .pushFront a => some ⟨n, c.producer, true, [a]⟩
  | .drain => none

/-- The parcels that a mailbox takes from calls, the first of which is the `n`-th. -/
def parcels (q : Mailbox α) (n : Nat) : List (Call ι α) → List (Parcel ι α)
  | [] => []
  | c :: calls => (q.parcel? n c).toList ++ (q.step c.op).2.parcels (n + 1) calls

/-- The messages of parcels, one parcel after another. -/
def contents (parcels : List (Parcel ι α)) : List α :=
  parcels.flatMap (·.messages)

theorem contents_append (ps qs : List (Parcel ι α)) :
    contents (ps ++ qs) = contents ps ++ contents qs :=
  List.flatMap_append

theorem contents_singleton (p : Parcel ι α) : contents [p] = p.messages :=
  List.flatMap_singleton ..

def Answer.taken? : Answer α → Option (List α)
  | .drained taken => some taken
  | .delivered _ => none

/-- What each drain took. -/
def takings (answers : List (Answer α)) : List (List α) :=
  answers.filterMap Answer.taken?

theorem takings_cons (answer : Answer α) (answers : List (Answer α)) :
    takings (answer :: answers) = answer.taken?.toList ++ takings answers := by
  cases answer <;> rfl

/-- The answers of a mailbox to calls, and the mailbox after them. -/
def serve (q : Mailbox α) (calls : List (Call ι α)) : List (Answer α) × Mailbox α :=
  q.run (calls.map (·.op))

theorem serve_cons (q : Mailbox α) (c : Call ι α) (calls : List (Call ι α)) :
    q.serve (c :: calls) =
      ((q.step c.op).1 :: ((q.step c.op).2.serve calls).1, ((q.step c.op).2.serve calls).2) := rfl

@[simp] theorem limits_step (q : Mailbox α) (op : Op α) : (q.step op).2.limits = q.limits := by
  cases op with
  | push a => exact limits_extend q [a]
  | extend batch => exact limits_extend q batch
  | _ => rfl

theorem limits_serve (q : Mailbox α) (calls : List (Call ι α)) :
    (q.serve calls).2.limits = q.limits := by
  induction calls generalizing q with
  | nil => rfl
  | cons c calls ih => rw [serve_cons, ih, limits_step]

theorem pending_extend_of_lt (q : Mailbox α) (batch : List α) :
    (q.extend batch).2.pending =
      if q.size < q.limits.nuke then q.pending ++ batch else q.pending := by
  rw [pending_extend]
  by_cases h : q.size < q.limits.nuke
  · rw [if_pos h, if_neg (mt isFull_eq_true.mp (Nat.not_le.mpr h))]
  · rw [if_neg h, if_pos (isFull_eq_true.mpr (Nat.not_lt.mp h))]

/-- `taken` are the parcels that each drain of a sequence of calls took, `left` those still pending:
together they are all that was put in, and what was not urgent is in the order of the calls. -/
structure Delivers (limits : Watermarks) (calls : List (Call ι α))
    (taken : List (List (Parcel ι α))) (left : List (Parcel ι α)) : Prop where
  drained : takings ((empty limits).serve calls).1 = taken.map contents
  pending : ((empty limits).serve calls).2.pending = contents left
  perm : (taken.flatten ++ left).Perm ((empty limits).parcels 0 calls)
  in_order : (taken.flatten ++ left).filter (!·.urgent) =
    ((empty limits).parcels 0 calls).filter (!·.urgent)

/-! ## The parcels of calls -/

theorem call_of_parcel? {q : Mailbox α} {n : Nat} {c : Call ι α} {p : Parcel ι α}
    (h : q.parcel? n c = some p) : p.call = n := by
  unfold parcel? at h
  split at h
  · split at h
    · cases h; rfl
    · cases h
  · split at h
    · cases h; rfl
    · cases h
  · cases h; rfl
  · cases h

theorem parcel?_extend_of_lt {q : Mailbox α} (h : q.size < q.limits.nuke) (n : Nat) (who : ι)
    (batch : List α) :
    q.parcel? n ⟨who, .extend batch⟩ = some ⟨n, who, false, batch⟩ :=
  if_pos h

theorem le_call_of_mem_parcels {q : Mailbox α} {n : Nat} {calls : List (Call ι α)}
    {p : Parcel ι α} (h : p ∈ q.parcels n calls) : n ≤ p.call ∧ p.call < n + calls.length := by
  induction calls generalizing q n with
  | nil => cases h
  | cons c calls ih =>
    rw [List.length_cons]
    rcases List.mem_append.mp h with h | h
    · have hcall := call_of_parcel? (Option.mem_toList.mp h)
      omega
    · have hcall := ih h
      omega

theorem parcels_append (q : Mailbox α) (n : Nat) (before after : List (Call ι α)) :
    q.parcels n (before ++ after) =
      q.parcels n before ++ (q.serve before).2.parcels (n + before.length) after := by
  induction before generalizing q n with
  | nil => rfl
  | cons c before ih =>
    rw [List.cons_append, parcels, parcels, ih, List.append_assoc, List.length_cons,
      Nat.add_right_comm n, Nat.add_assoc n]
    rfl

theorem filter_parcels (q : Mailbox α) (n : Nat) (before after : List (Call ι α)) (c : Call ι α) :
    (q.parcels n (before ++ c :: after)).filter (·.call = n + before.length) =
      ((q.serve before).2.parcel? (n + before.length) c).toList := by
  rw [parcels_append, parcels, List.filter_append, List.filter_append]
  have hbefore : (q.parcels n before).filter (·.call = n + before.length) = [] := by
    rw [List.filter_eq_nil_iff]
    intro p hp
    have hcall := le_call_of_mem_parcels hp
    simp only [decide_eq_true_eq]
    omega
  have hself : ((q.serve before).2.parcel? (n + before.length) c).toList.filter
      (·.call = n + before.length) = ((q.serve before).2.parcel? (n + before.length) c).toList := by
    rw [List.filter_eq_self]
    intro p hp
    exact decide_eq_true (call_of_parcel? (Option.mem_toList.mp hp))
  have hafter : (((q.serve before).2.step c.op).2.parcels (n + before.length + 1) after).filter
      (·.call = n + before.length) = [] := by
    rw [List.filter_eq_nil_iff]
    intro p hp
    have hcall := le_call_of_mem_parcels hp
    simp only [decide_eq_true_eq]
    omega
  rw [hbefore, hself, hafter, List.nil_append, List.append_nil]

/-! ## The ledger -/

/-- Where the parcels are. -/
structure Ledger (ι α : Type) where
  /-- How many calls there have been. -/
  calls : Nat
  /-- The parcels that each drain took. -/
  taken : List (List (Parcel ι α))
  /-- The parcels pending. -/
  left : List (Parcel ι α)

namespace Ledger

def empty : Ledger ι α := ⟨0, [], []⟩

/-- All parcels, in the order in which they leave the mailbox. -/
def all (l : Ledger ι α) : List (Parcel ι α) :=
  l.taken.flatten ++ l.left

/-- A parcel is put in. -/
def file (left : List (Parcel ι α)) : Option (Parcel ι α) → List (Parcel ι α)
  | none => left
  | some p => if p.urgent then p :: left else left ++ [p]

/-- The ledger after a call of the mailbox. -/
def note (l : Ledger ι α) (q : Mailbox α) (c : Call ι α) : Ledger ι α :=
  match c.op with
  | .drain => ⟨l.calls + 1, l.taken ++ [l.left], []⟩
  | _ => ⟨l.calls + 1, l.taken, file l.left (q.parcel? l.calls c)⟩

def follow (l : Ledger ι α) (q : Mailbox α) : List (Call ι α) → Ledger ι α
  | [] => l
  | c :: calls => (l.note q c).follow (q.step c.op).2 calls

theorem follow_append (l : Ledger ι α) (q : Mailbox α) (before after : List (Call ι α)) :
    l.follow q (before ++ after) = (l.follow q before).follow (q.serve before).2 after := by
  induction before generalizing l q with
  | nil => rfl
  | cons c before ih => exact ih (l.note q c) (q.step c.op).2

@[simp] theorem calls_note (l : Ledger ι α) (q : Mailbox α) (c : Call ι α) :
    (l.note q c).calls = l.calls + 1 := by
  unfold note
  split <;> rfl

theorem calls_follow (l : Ledger ι α) (q : Mailbox α) (calls : List (Call ι α)) :
    (l.follow q calls).calls = l.calls + calls.length := by
  induction calls generalizing l q with
  | nil => rfl
  | cons c calls ih =>
    rw [follow, ih, calls_note, List.length_cons]
    omega

/-! ## One call -/

theorem note_drain (l : Ledger ι α) (q : Mailbox α) (who : ι) :
    l.note q ⟨who, .drain⟩ = ⟨l.calls + 1, l.taken ++ [l.left], []⟩ := rfl

theorem note_of_ne_drain (l : Ledger ι α) (q : Mailbox α) {c : Call ι α} (h : c.op ≠ .drain) :
    l.note q c = ⟨l.calls + 1, l.taken, file l.left (q.parcel? l.calls c)⟩ := by
  obtain ⟨who, op⟩ := c
  cases op with
  | drain => exact absurd rfl h
  | _ => rfl

theorem all_note_drain (l : Ledger ι α) (q : Mailbox α) (who : ι) :
    (l.note q ⟨who, .drain⟩).all = l.all := by
  rw [note_drain, all, all, List.flatten_append, List.flatten_singleton, List.append_nil]

theorem perm_file (left : List (Parcel ι α)) (p? : Option (Parcel ι α)) :
    (file left p?).Perm (left ++ p?.toList) := by
  cases p? with
  | none => rw [Option.toList_none, List.append_nil, file]
  | some p =>
    rw [file]
    split
    · exact (List.perm_append_singleton p left).symm
    · exact .refl _

theorem filter_file (left : List (Parcel ι α)) (p? : Option (Parcel ι α)) :
    (file left p?).filter (!·.urgent) = (left ++ p?.toList).filter (!·.urgent) := by
  cases p? with
  | none => rw [Option.toList_none, List.append_nil, file]
  | some p =>
    rw [file]
    split
    · rename_i hurgent
      rw [List.filter_cons_of_neg (by simp [hurgent]), List.filter_append, Option.toList_some,
        List.filter_cons_of_neg (by simp [hurgent]), List.filter_nil, List.append_nil]
    · rfl

theorem perm_note (l : Ledger ι α) (q : Mailbox α) (c : Call ι α) :
    (l.note q c).all.Perm (l.all ++ (q.parcel? l.calls c).toList) := by
  obtain ⟨who, op⟩ := c
  by_cases h : op = .drain
  · subst h
    rw [all_note_drain]
    exact .of_eq (List.append_nil _).symm
  · rw [note_of_ne_drain l q h, all, all, List.append_assoc]
    exact (perm_file ..).append_left _

theorem filter_note (l : Ledger ι α) (q : Mailbox α) (c : Call ι α) :
    (l.note q c).all.filter (!·.urgent) =
      (l.all ++ (q.parcel? l.calls c).toList).filter (!·.urgent) := by
  obtain ⟨who, op⟩ := c
  by_cases h : op = .drain
  · subst h
    rw [all_note_drain]
    exact congrArg _ (List.append_nil _).symm
  · rw [note_of_ne_drain l q h, all, all, List.append_assoc, List.filter_append, filter_file,
      ← List.filter_append]

theorem pending_note {l : Ledger ι α} {q : Mailbox α} (h : q.pending = contents l.left)
    (c : Call ι α) : (q.step c.op).2.pending = contents (l.note q c).left := by
  obtain ⟨who, op⟩ := c
  cases op with
  | push a =>
    show (q.extend [a]).2.pending = contents (file l.left (if _ then _ else _))
    rw [pending_extend_of_lt]
    split
    · rw [file, if_neg Bool.false_ne_true, contents_append, h]
      rfl
    · exact h
  | extend batch =>
    show (q.extend batch).2.pending = contents (file l.left (if _ then _ else _))
    rw [pending_extend_of_lt]
    split
    · rw [file, if_neg Bool.false_ne_true, contents_append, h, contents_singleton]
    · exact h
  | pushFront a =>
    show a :: q.pending = _
    rw [h]
    rfl
  | drain => rfl

theorem drained_note {l : Ledger ι α} {q : Mailbox α} (h : q.pending = contents l.left)
    (c : Call ι α) : (l.note q c).taken.map contents =
      l.taken.map contents ++ (q.step c.op).1.taken?.toList := by
  obtain ⟨who, op⟩ := c
  cases op with
  | drain =>
    show (l.taken ++ [l.left]).map contents = l.taken.map contents ++ [q.pending]
    rw [List.map_append, List.map_singleton, h]
  | _ => exact (List.append_nil _).symm

theorem exists_file (left : List (Parcel ι α)) (p? : Option (Parcel ι α)) :
    ∃ before after, file left p? = before ++ left ++ after := by
  cases p? with
  | none => exact ⟨[], [], (List.append_nil _).symm⟩
  | some p =>
    rw [file]
    split
    · exact ⟨[p], [], (List.append_nil _).symm⟩
    · exact ⟨[], [p], rfl⟩

/-! ## Any calls -/

theorem drained_follow {l : Ledger ι α} {q : Mailbox α} (h : q.pending = contents l.left)
    (calls : List (Call ι α)) :
    (l.follow q calls).taken.map contents = l.taken.map contents ++ takings (q.serve calls).1 ∧
      (q.serve calls).2.pending = contents (l.follow q calls).left := by
  induction calls generalizing l q with
  | nil => exact ⟨(List.append_nil _).symm, h⟩
  | cons c calls ih =>
    obtain ⟨htaken, hpending⟩ := ih (pending_note h c)
    refine ⟨?_, hpending⟩
    rw [follow, htaken, drained_note h, serve_cons, takings_cons, List.append_assoc]

theorem perm_follow (l : Ledger ι α) (q : Mailbox α) (calls : List (Call ι α)) :
    (l.follow q calls).all.Perm (l.all ++ q.parcels l.calls calls) := by
  induction calls generalizing l q with
  | nil => exact .of_eq (List.append_nil _).symm
  | cons c calls ih =>
    refine (ih (l.note q c) (q.step c.op).2).trans ?_
    rw [calls_note, parcels, ← List.append_assoc]
    exact (perm_note l q c).append_right _

theorem filter_follow (l : Ledger ι α) (q : Mailbox α) (calls : List (Call ι α)) :
    (l.follow q calls).all.filter (!·.urgent) =
      (l.all ++ q.parcels l.calls calls).filter (!·.urgent) := by
  induction calls generalizing l q with
  | nil => exact congrArg _ (List.append_nil _).symm
  | cons c calls ih =>
    rw [follow, ih, List.filter_append, filter_note, calls_note, ← List.filter_append,
      List.append_assoc, parcels]

theorem exists_follow (l : Ledger ι α) (q : Mailbox α) (calls : List (Call ι α)) :
    ∃ before after, (l.follow q calls).all = l.taken.flatten ++ before ++ l.left ++ after := by
  induction calls generalizing l q with
  | nil => exact ⟨[], [], by rw [List.append_nil, List.append_nil]; rfl⟩
  | cons c calls ih =>
    obtain ⟨before, after, hall⟩ := ih (l.note q c) (q.step c.op).2
    obtain ⟨who, op⟩ := c
    by_cases h : op = .drain
    · subst h
      refine ⟨[], before ++ after, hall.trans ?_⟩
      rw [note_drain, List.flatten_append, List.flatten_singleton]
      simp only [List.append_assoc, List.append_nil]
    · obtain ⟨ahead, behind, hfile⟩ := exists_file l.left (q.parcel? l.calls ⟨who, op⟩)
      refine ⟨before ++ ahead, behind ++ after, hall.trans ?_⟩
      rw [note_of_ne_drain l q h, hfile]
      simp only [List.append_assoc]

theorem taken_prefix_follow (l : Ledger ι α) (q : Mailbox α) (calls : List (Call ι α)) :
    l.taken <+: (l.follow q calls).taken := by
  induction calls generalizing l q with
  | nil => exact List.prefix_rfl
  | cons c calls ih =>
    refine List.IsPrefix.trans ?_ (ih (l.note q c) (q.step c.op).2)
    unfold note
    split
    · exact List.prefix_append ..
    · exact List.prefix_rfl

end Ledger

/-! ## Delivery -/

/-- The ledger of a new mailbox after calls. -/
def ledger (limits : Watermarks) (calls : List (Call ι α)) : Ledger ι α :=
  Ledger.empty.follow (Mailbox.empty limits) calls

theorem delivers_ledger (limits : Watermarks) (calls : List (Call ι α)) :
    Delivers limits calls (ledger limits calls).taken (ledger limits calls).left := by
  have h : (Mailbox.empty limits : Mailbox α).pending = contents (Ledger.empty : Ledger ι α).left :=
    rfl
  obtain ⟨htaken, hpending⟩ := Ledger.drained_follow h calls
  exact ⟨htaken.symm, hpending, Ledger.perm_follow .empty (.empty limits) calls,
    Ledger.filter_follow .empty (.empty limits) calls⟩

theorem Delivers.filter_call {limits : Watermarks} {before after : List (Call ι α)} {c : Call ι α}
    {taken : List (List (Parcel ι α))} {left : List (Parcel ι α)}
    (h : Delivers limits (before ++ c :: after) taken left) :
    (taken.flatten ++ left).filter (·.call = before.length) =
      (((empty limits).serve before).2.parcel? before.length c).toList := by
  have hfilter := filter_parcels (empty limits) 0 before after c
  have hperm := h.perm.filter (·.call = before.length)
  rw [Nat.zero_add] at hfilter
  rw [hfilter] at hperm
  cases hparcel : ((empty limits).serve before).2.parcel? before.length c with
  | none =>
    rw [hparcel] at hperm
    exact hperm.eq_nil
  | some p =>
    rw [hparcel] at hperm
    exact hperm.eq_singleton

theorem infix_contents {p : Parcel ι α} {ps : List (Parcel ι α)} (h : p ∈ ps) :
    p.messages <:+: contents ps := by
  obtain ⟨before, after, rfl⟩ := List.append_of_mem h
  refine ⟨contents before, contents after, ?_⟩
  rw [List.append_cons, contents_append, contents_append, contents_singleton]

/-- A batch that is taken leaves the mailbox in one drain, or is still pending, and no other message
comes in between. -/
theorem Delivers.infix {limits : Watermarks} {calls : List (Call ι α)}
    {taken : List (List (Parcel ι α))} {left : List (Parcel ι α)}
    (h : Delivers limits calls taken left) {p : Parcel ι α} (hp : p ∈ taken.flatten ++ left) :
    (∃ drained ∈ takings ((empty limits).serve calls).1, p.messages <:+: drained) ∨
      p.messages <:+: ((empty limits).serve calls).2.pending := by
  rw [h.drained, h.pending]
  rcases List.mem_append.mp hp with hp | hp
  · obtain ⟨group, hgroup, hp⟩ := List.mem_flatten.mp hp
    exact .inl ⟨contents group, List.mem_map_of_mem hgroup, infix_contents hp⟩
  · exact .inr (infix_contents hp)

/-- When a message is put ahead, everything pending then comes right after it, and everything drained
before then comes before it. -/
theorem exists_ledger_of_pushFront (limits : Watermarks) (before after : List (Call ι α)) (who : ι)
    (a : α) :
    ∃ between rest, (ledger limits (before ++ ⟨who, .pushFront a⟩ :: after)).all =
      (ledger limits before).taken.flatten ++ between ++
        ⟨before.length, who, true, [a]⟩ :: (ledger limits before).left ++ rest := by
  have hcalls : (ledger limits before).calls = before.length :=
    (Ledger.calls_follow ..).trans (Nat.zero_add _)
  obtain ⟨between, rest, hall⟩ := Ledger.exists_follow
    ((ledger limits before).note ((empty limits).serve before).2 ⟨who, .pushFront a⟩)
    (((empty limits).serve before).2.step (.pushFront a)).2 after
  refine ⟨between, rest, ?_⟩
  rw [← hcalls]
  refine (congrArg Ledger.all (Ledger.follow_append ..)).trans (hall.trans ?_)
  rfl

theorem exists_ledger_of_drain (limits : Watermarks) (before after : List (Call ι α)) (who : ι) :
    ∃ later, (ledger limits (before ++ ⟨who, .drain⟩ :: after)).taken =
      (ledger limits before).taken ++ (ledger limits before).left :: later := by
  obtain ⟨later, htaken⟩ := Ledger.taken_prefix_follow
    ((ledger limits before).note ((empty limits).serve before).2 ⟨who, .drain⟩)
    (((empty limits).serve before).2.step .drain).2 after
  refine ⟨later, ?_⟩
  refine (congrArg Ledger.taken (Ledger.follow_append ..)).trans (htaken.symm.trans ?_)
  rw [Ledger.note_drain, List.append_assoc]
  rfl

/-- Whatever producers call, in whatever order, every parcel is delivered once, whole and in the
order of the calls, unless it is urgent: then it comes right before what is pending. -/
theorem delivery_of_calls [DecidableEq ι] (limits : Watermarks) (calls : List (Call ι α)) :
    ∃ taken left, Delivers limits calls taken left ∧
      (∀ before c after, calls = before ++ c :: after →
        (taken.flatten ++ left).filter (·.call = before.length) =
          (((empty limits).serve before).2.parcel? before.length c).toList) ∧
      (∀ before who batch after, calls = before ++ ⟨who, .extend batch⟩ :: after →
        ((empty limits).serve before).2.size < limits.nuke →
        (∃ drained ∈ takings ((empty limits).serve calls).1, batch <:+: drained) ∨
          batch <:+: ((empty limits).serve calls).2.pending) ∧
      (∀ before who a after, calls = before ++ ⟨who, .pushFront a⟩ :: after →
        ∃ taken₀ left₀ between rest, Delivers limits before taken₀ left₀ ∧
          taken.flatten ++ left = taken₀.flatten ++ between ++
            ⟨before.length, who, true, [a]⟩ :: left₀ ++ rest) ∧
      (∀ before who after, calls = before ++ ⟨who, .drain⟩ :: after →
        ∃ taken₀ left₀ later, Delivers limits before taken₀ left₀ ∧
          taken = taken₀ ++ left₀ :: later) ∧
      ∀ who, (taken.flatten ++ left).filter (fun p => p.producer = who && !p.urgent) =
        ((empty limits).parcels 0 calls).filter fun p => p.producer = who && !p.urgent := by
  have h := delivers_ledger limits calls
  refine ⟨_, _, h, ?_, ?_, ?_, ?_, fun who => ?_⟩
  · rintro before c after rfl
    exact h.filter_call
  · rintro before who batch after rfl hroom
    have hparcel := parcel?_extend_of_lt (q := ((empty limits).serve before).2)
      (by rwa [limits_serve]) before.length who batch
    have hfilter := h.filter_call
    rw [hparcel, Option.toList_some] at hfilter
    have hmem := List.mem_singleton_self (⟨before.length, who, false, batch⟩ : Parcel ι α)
    rw [← hfilter] at hmem
    exact h.infix (List.mem_filter.mp hmem).1
  · rintro before who a after rfl
    obtain ⟨between, rest, hall⟩ := exists_ledger_of_pushFront limits before after who a
    exact ⟨_, _, between, rest, delivers_ledger limits before, hall⟩
  · rintro before who after rfl
    obtain ⟨later, htaken⟩ := exists_ledger_of_drain limits before after who
    exact ⟨_, _, later, delivers_ledger limits before, htaken⟩
  · rw [← List.filter_filter, ← List.filter_filter, h.in_order]

/-- Two producers: a batch, a message that reaches the upper mark, one that is refused, one put ahead,
a drain, and one more message. -/
def twoProducers : List (Call Bool Nat) :=
  [⟨false, .extend [1, 2]⟩, ⟨true, .push 3⟩, ⟨false, .push 4⟩, ⟨true, .pushFront 0⟩, ⟨false, .drain⟩,
    ⟨true, .push 5⟩]

theorem delivery_of_calls_twoProducers :
    ∃ taken left, Delivers ⟨2, 3⟩ twoProducers taken left ∧
      takings ((empty ⟨2, 3⟩).serve twoProducers).1 = [[0, 1, 2, 3]] ∧
      taken.map contents = [[0, 1, 2, 3]] ∧ contents left = [5] ∧
      (taken.flatten ++ left).filter (·.call = 2) = [] ∧
      ∃ taken₀ left₀, Delivers ⟨2, 3⟩ (twoProducers.take 4) taken₀ left₀ ∧ left₀ ∈ taken := by
  obtain ⟨taken, left, hdelivers, hcall, -, -, hdrain, -⟩ := delivery_of_calls ⟨2, 3⟩ twoProducers
  have htakings : takings ((empty ⟨2, 3⟩).serve twoProducers).1 = [[0, 1, 2, 3]] := by decide
  obtain ⟨taken₀, left₀, later, hbefore, htaken⟩ :=
    hdrain (twoProducers.take 4) false [⟨true, .push 5⟩] rfl
  refine ⟨taken, left, hdelivers, htakings, hdelivers.drained.symm.trans htakings,
    hdelivers.pending.symm.trans rfl, ?_, taken₀, left₀, hbefore, ?_⟩
  · exact (hcall (twoProducers.take 2) ⟨false, .push 4⟩ (twoProducers.drop 3) rfl).trans rfl
  · rw [htaken]
    exact List.mem_append_right _ List.mem_cons_self

end RaceSteward.Mailbox
