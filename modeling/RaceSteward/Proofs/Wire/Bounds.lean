import RaceSteward.Proofs.Wire.Window

/-!
# How far requests move a cursor

* `Cursor.stays_within`: over any bytes and after any requests, failed ones among them, the cursor has
  passed exactly the bytes that it does not hold ahead, no index was out of range on the way
  (`Window.run?` has an answer, the same), and each further request moves it as `Request.Moves` says.
-/

namespace RaceSteward

/-! ## One request -/

/-- How a request with this answer moves the cursor from `c` to `d`. -/
structure Request.Moves (q : Request) (c : Cursor) (answer : Except DecodeError Item) (d : Cursor) :
    Prop where
  forward : c.position ≤ d.position
  /-- Too few bytes for the item, or for the count of a text: nothing is passed. -/
  short : c.remaining < q.width →
    answer = .error (.truncated q.field q.width c.remaining) ∧ d = c
  /-- All items but texts have a fixed width, and it is passed even if the opcode is another one. -/
  fixed : (∀ name, q ≠ .text name) → q.width ≤ c.remaining → d.position = c.position + q.width
  /-- Only texts and opcodes fail when there are enough bytes. -/
  succeeds : (∀ name, q ≠ .text name) → (∀ expected, q ≠ .opcode expected) →
    q.width ≤ c.remaining → ∃ item, answer = .ok item
  opcode : ∀ expected found ahead, q = .opcode expected → c.rest = Word.toBytes found ++ ahead →
    answer = if found = expected.tag then .ok (.opcode expected)
      else .error (.opcodeMismatch expected found)
  text : ∀ name declared ahead, q = .text name → c.rest = Word.toBytes declared ++ ahead →
    declared.toNat ≤ ahead.length →
    answer = .ok (.text (Text.decode (ahead.take declared.toNat))) ∧
      d.position = c.position + (4 + declared.toNat)
  /-- The body of a text is cut: its count is passed. -/
  textShort : ∀ name declared ahead, q = .text name → c.rest = Word.toBytes declared ++ ahead →
    ahead.length < declared.toNat →
    answer = .error (.textTruncated name declared.toNat ahead.length) ∧
      d.position = c.position + 4
  /-- The bytes that are passed decide on the item, wherever they stand and whatever comes behind. -/
  decided : ∀ item, answer = .ok item → ∀ n other,
    q.read ⟨n, c.rest.take (d.position - c.position) ++ other⟩ =
      (.ok item, ⟨n + (d.position - c.position), other⟩)

namespace Request

variable {q : Request} {used left : Bytes} {answer : Except DecodeError Item}

theorem Consumes.length_of_fixed (h : q.Consumes used left answer) (hq : ∀ name, q ≠ .text name)
    (hwidth : q.width ≤ (used ++ left).length) : used.length = q.width := by
  cases h with
  | short q h => exact absurd hwidth (Nat.not_le.mpr h)
  | text name | textShort name => exact absurd rfl (hq name)
  | byte | word | int | single | opcode | mismatch => rfl

theorem Consumes.succeeds (h : q.Consumes used left answer) (hq : ∀ name, q ≠ .text name)
    (hq' : ∀ expected, q ≠ .opcode expected) (hwidth : q.width ≤ (used ++ left).length) :
    ∃ item, answer = .ok item := by
  cases h with
  | short q h => exact absurd hwidth (Nat.not_le.mpr h)
  | textShort name => exact absurd rfl (hq name)
  | mismatch => exact absurd rfl (hq' _)
  | byte | word | int | single | text | opcode => exact ⟨_, rfl⟩

theorem moves (q : Request) (c : Cursor) : q.Moves c (q.read c).1 (q.read c).2 := by
  -- what was consumed says everything, the unread bytes nothing
  obtain ⟨used, hrest, hposition, hconsumes⟩ := q.consumes_read c
  constructor
  case forward => exact hposition ▸ Nat.le_add_right ..
  case short =>
    intro h
    rw [show q.read c = _ from read_of_short q h c.position]
    exact ⟨rfl, rfl⟩
  case fixed =>
    intro hq h
    rw [Cursor.remaining, hrest] at h
    rw [hposition, hconsumes.length_of_fixed hq h]
  case succeeds =>
    intro hq hq' h
    rw [Cursor.remaining, hrest] at h
    exact hconsumes.succeeds hq hq' h
  case opcode =>
    rintro expected found ahead rfl hahead
    obtain ⟨n, bytes⟩ := c
    obtain rfl : bytes = Word.toBytes found ++ ahead := hahead
    by_cases hfound : found = expected.tag
    · subst hfound
      rw [(Consumes.opcode expected ahead).read n, if_pos rfl]
    · rw [(Consumes.mismatch ahead hfound).read n, if_neg hfound]
  case text =>
    rintro name declared ahead rfl hahead hbody
    obtain ⟨n, bytes⟩ := c
    obtain rfl : bytes = Word.toBytes declared ++ ahead := hahead
    have hlength := List.length_take_of_le hbody
    have hread := (Consumes.text name (ahead.drop declared.toNat) hlength).read n
    rw [List.append_assoc, List.take_append_drop, List.length_append, Word.length_toBytes,
      hlength] at hread
    rw [hread]
    exact ⟨rfl, rfl⟩
  case textShort =>
    rintro name declared ahead rfl hahead hcut
    obtain ⟨n, bytes⟩ := c
    obtain rfl : bytes = Word.toBytes declared ++ ahead := hahead
    rw [(Consumes.textShort name hcut).read n]
    exact ⟨rfl, rfl⟩
  case decided =>
    intro item hitem n other
    rw [hitem] at hconsumes
    rw [hposition, Nat.add_sub_cancel_left, hrest, List.take_left]
    exact (hconsumes.replace other).read n

end Request

/-! ## Any requests -/

namespace Cursor

variable {bytes : Bytes} {c : Cursor}

/-- The cursor stands in `bytes`: it has passed what it does not hold ahead. -/
def Over (bytes : Bytes) (c : Cursor) : Prop :=
  ∃ passed, bytes = passed ++ c.rest ∧ passed.length = c.position

theorem over_start (bytes : Bytes) : Over bytes (start bytes) :=
  ⟨[], rfl, rfl⟩

theorem Over.whole (h : Over bytes c) : c.position + c.remaining = bytes.length := by
  obtain ⟨passed, rfl, hpassed⟩ := h
  rw [← hpassed, remaining, List.length_append]

theorem Over.rest_eq (h : Over bytes c) : c.rest = bytes.drop c.position := by
  obtain ⟨passed, hbytes, hpassed⟩ := h
  rw [hbytes, ← hpassed, List.drop_left]

theorem Over.read (h : Over bytes c) (q : Request) :
    Over bytes (q.read c).2 ∧
      q.checked ⟨bytes, c.position⟩ = some ((q.read c).1, ⟨bytes, (q.read c).2.position⟩) := by
  obtain ⟨passed, hbytes, hpassed⟩ := h
  obtain ⟨used, hrest, hposition, hconsumes⟩ := q.consumes_read c
  rw [hrest] at hbytes
  constructor
  · refine ⟨passed ++ used, by rw [List.append_assoc, hbytes], ?_⟩
    rw [List.length_append, hpassed, hposition]
  · rw [hbytes, ← hpassed, hconsumes.checked passed, hpassed, hposition]

theorem Over.run (h : Over bytes c) (qs : List Request) :
    Over bytes (c.run qs).2 ∧
      Window.run? ⟨bytes, c.position⟩ qs =
        some ((c.run qs).1, ⟨bytes, (c.run qs).2.position⟩) := by
  induction qs generalizing c with
  | nil => exact ⟨h, rfl⟩
  | cons q qs ih =>
    obtain ⟨hread, hchecked⟩ := h.read q
    obtain ⟨hrun, hwindow⟩ := ih hread
    refine ⟨hrun, ?_⟩
    rw [Window.run?, hchecked, run_cons]
    simp only [Option.bind_eq_bind, Option.bind_some, hwindow]
    rfl

theorem le_position_run (c : Cursor) (qs : List Request) : c.position ≤ (c.run qs).2.position := by
  induction qs generalizing c with
  | nil => exact Nat.le_refl _
  | cons q qs ih => exact Nat.le_trans (q.moves c).forward (ih _)

/-- Whatever the bytes are and whatever is asked, reading on after each failure, the cursor stays
within the bytes and moves by exactly what a request consumes. -/
theorem stays_within (bytes : Bytes) (qs : List Request) :
    let answers := ((start bytes).run qs).1
    let c := ((start bytes).run qs).2
    Window.run? ⟨bytes, 0⟩ qs = some (answers, ⟨bytes, c.position⟩) ∧
      c.position + c.remaining = bytes.length ∧ c.rest = bytes.drop c.position ∧
      (∀ more, c.position ≤ (c.run more).2.position) ∧
      ∀ q : Request, q.Moves c (q.read c).1 (q.read c).2 := by
  intro answers c
  obtain ⟨hover, hwindow⟩ := (over_start bytes).run qs
  exact ⟨hwindow, hover.whole, hover.rest_eq, c.le_position_run, fun q => q.moves c⟩

/-- A text that declares far more than is there leaves its body to the requests after it. -/
example : (start [255, 255, 255, 255, 65]).run [.text "content", .byte "cheated", .byte "type"] =
    ([.error (.textTruncated "content" 4294967295 1), .ok (.byte 65),
      .error (.truncated "type" 1 0)], ⟨5, []⟩) :=
  rfl

end Cursor

end RaceSteward
