import RaceSteward.Proofs.Wire.Layout

/-!
# Bytes that run out

`Cut fields bytes e`: the bytes end within the bytes of the fields, and `e` says in which field, how
many of its bytes are needed and how many are there.

* `cut_append_iff`: where a cut of fields in front of other fields can lie.
* `exists_cutAt`, `CutAt.cut`: every proper beginning of fields cuts one of them.
* `Read.word_eq_error_iff`, `Read.text_eq_error_iff`: when a read of one item fails.
-/

namespace RaceSteward

/-- The bytes have run out. The other two errors are about the opcode. -/
def DecodeError.isCut : DecodeError → Bool
  | truncated .. => true
  | textTruncated .. => true
  | opcodeMismatch .. => false
  | unknownOpcode _ => false

/-- What is wrong with a field of which only the first `k` bytes are there. -/
def Field.cut (f : Field) (k : Nat) : DecodeError :=
  match f.item with
  | .text s =>
    if k < 4 then .truncated f.name 4 k else .textTruncated f.name s.length (k - 4)
  | item => .truncated f.name item.bytes.length k

/-- The bytes end within the first field that they do not hold completely, and `e` is what is wrong
with this field. -/
inductive Cut : List Field → Bytes → DecodeError → Prop where
  | here (f : Field) (fs : List Field) {k : Nat} (h : k < f.item.bytes.length) :
    Cut (f :: fs) (f.item.bytes.take k) (f.cut k)
  | later (f : Field) {fs : List Field} {bytes : Bytes} {e : DecodeError} (h : Cut fs bytes e) :
    Cut (f :: fs) (f.item.bytes ++ bytes) e

namespace Text

theorem exists_encode_eq {w : UInt32} {bs : Bytes} (h : bs.length = w.toNat) :
    ∃ s : String, s.length = w.toNat ∧ encode s = bs :=
  ⟨decode bs, by rw [← length_encode, encode_decode, h], encode_decode bs⟩

end Text

/-! ## Cuts of fields -/

variable {fs gs : List Field} {bytes : Bytes} {e : DecodeError}

theorem Field.isCut_cut (f : Field) (k : Nat) : (f.cut k).isCut = true := by
  unfold cut
  split
  · split <;> rfl
  · rfl

theorem Field.cut_of_not_text {name : String} {item : Item} (h : ∀ s, item ≠ .text s) (k : Nat) :
    cut ⟨name, item⟩ k = .truncated name item.bytes.length k := by
  cases item with
  | text s => exact absurd rfl (h s)
  | _ => rfl

theorem Field.concat_cons (f : Field) (fs : List Field) :
    concat (f :: fs) = f.item.bytes ++ concat fs := rfl

theorem not_cut_nil : ¬ Cut [] bytes e := nofun

theorem cut_cons_iff {f : Field} :
    Cut (f :: fs) bytes e ↔
      (∃ k < f.item.bytes.length, bytes = f.item.bytes.take k ∧ e = f.cut k) ∨
        ∃ rest, bytes = f.item.bytes ++ rest ∧ Cut fs rest e := by
  constructor
  · intro h
    cases h with
    | here _ _ hk => exact .inl ⟨_, hk, rfl, rfl⟩
    | later _ hrest => exact .inr ⟨_, rfl, hrest⟩
  · rintro (⟨k, hk, rfl, rfl⟩ | ⟨rest, rfl, hrest⟩)
    · exact .here f fs hk
    · exact .later f hrest

theorem cut_append_iff :
    Cut (fs ++ gs) bytes e ↔
      Cut fs bytes e ∨ ∃ rest, bytes = Field.concat fs ++ rest ∧ Cut gs rest e := by
  induction fs generalizing bytes with
  | nil => simp [not_cut_nil, Field.concat]
  | cons f fs ih =>
    simp only [List.cons_append, cut_cons_iff, ih, Field.concat_cons, List.append_assoc]
    constructor
    · rintro (hhere | ⟨rest, rfl, hrest | ⟨after, rfl, hafter⟩⟩)
      · exact .inl (.inl hhere)
      · exact .inl (.inr ⟨rest, rfl, hrest⟩)
      · exact .inr ⟨after, rfl, hafter⟩
    · rintro ((hhere | ⟨rest, rfl, hrest⟩) | ⟨after, rfl, hafter⟩)
      · exact .inl hhere
      · exact .inr ⟨rest, rfl, .inl hrest⟩
      · exact .inr ⟨_, rfl, .inr ⟨after, rfl, hafter⟩⟩

theorem Cut.isCut (h : Cut fs bytes e) : e.isCut = true := by
  induction h with
  | here f _ _ => exact f.isCut_cut _
  | later _ _ ih => exact ih

theorem Cut.exists_append (h : Cut fs bytes e) :
    ∃ rest, rest ≠ [] ∧ bytes ++ rest = Field.concat fs := by
  induction h with
  | @here f fs k hk =>
    refine ⟨f.item.bytes.drop k ++ Field.concat fs, ?_, ?_⟩
    · intro hnil
      have hlength := congrArg List.length hnil
      simp only [List.length_append, List.length_drop, List.length_nil] at hlength
      omega
    · rw [← List.append_assoc, List.take_append_drop, Field.concat_cons]
  | later f _ ih =>
    obtain ⟨rest, hrest, hbytes⟩ := ih
    exact ⟨rest, hrest, by rw [List.append_assoc, hbytes, Field.concat_cons]⟩

/-- `field`, which begins after `offset` bytes, is the first one not completely among the first `k`
bytes. -/
def CutAt (fields : List Field) (k : Nat) (field : Field) (offset : Nat) : Prop :=
  ∃ before after, fields = before ++ field :: after ∧ (Field.concat before).length = offset ∧
    offset ≤ k ∧ k < offset + field.item.bytes.length

theorem CutAt.cut {k offset : Nat} {f : Field} (h : CutAt fs k f offset) :
    Cut fs ((Field.concat fs).take k) (f.cut (k - offset)) := by
  obtain ⟨before, after, rfl, rfl, hle, hlt⟩ := h
  have hk : k - (Field.concat before).length < f.item.bytes.length := by omega
  have hbytes : (Field.concat (before ++ f :: after)).take k =
      Field.concat before ++ f.item.bytes.take (k - (Field.concat before).length) := by
    have hconcat : Field.concat (before ++ f :: after) =
        Field.concat before ++ (f.item.bytes ++ Field.concat after) := by
      simp [Field.concat]
    rw [hconcat, List.take_append, List.take_of_length_le hle,
      List.take_append_of_le_length (Nat.le_of_lt hk)]
  rw [hbytes]
  exact cut_append_iff.mpr (.inr ⟨_, rfl, .here f after hk⟩)

theorem exists_cutAt {k : Nat} (h : k < (Field.concat fs).length) :
    ∃ f offset, CutAt fs k f offset := by
  induction fs generalizing k with
  | nil => simp [Field.concat] at h
  | cons f fs ih =>
    rw [Field.concat_cons, List.length_append] at h
    by_cases hk : k < f.item.bytes.length
    · exact ⟨f, 0, [], fs, rfl, rfl, Nat.zero_le k, by omega⟩
    · obtain ⟨g, offset, before, after, rfl, rfl, hle, hlt⟩ :=
        ih (k := k - f.item.bytes.length) (by omega)
      refine ⟨g, _, f :: before, after, rfl, rfl, ?_, ?_⟩ <;>
        rw [Field.concat_cons, List.length_append] <;> omega

/-! ## Cuts of one field -/

theorem exists_cut_fixed_iff {α : Type} {name : String} (item : α → Item) (width : Nat)
    (htext : ∀ a s, item a ≠ .text s) (hwidth : ∀ a, (item a).bytes.length = width)
    (hany : ∀ bytes : Bytes, bytes.length < width → ∃ a, bytes = (item a).bytes.take bytes.length) :
    (∃ a, True ∧ Cut [⟨name, item a⟩] bytes e) ↔
      bytes.length < width ∧ e = .truncated name width bytes.length := by
  simp only [cut_cons_iff, not_cut_nil, and_false, exists_false, or_false, true_and,
    Field.cut_of_not_text (htext _), hwidth]
  constructor
  · rintro ⟨a, k, hk, rfl, rfl⟩
    rw [List.length_take, hwidth, Nat.min_eq_left (Nat.le_of_lt hk)]
    exact ⟨hk, rfl⟩
  · rintro ⟨hlength, rfl⟩
    obtain ⟨a, ha⟩ := hany bytes hlength
    exact ⟨a, bytes.length, hlength, ha, rfl⟩

theorem cut_text_iff {name s : String} :
    Cut [⟨name, .text s⟩] bytes e ↔
      (∃ k < 4, bytes = (Word.toBytes (UInt32.ofNat s.length)).take k ∧ e = .truncated name 4 k) ∨
        ∃ k < s.length, bytes = Word.toBytes (UInt32.ofNat s.length) ++ (Text.encode s).take k ∧
          e = .textTruncated name s.length k := by
  simp only [cut_cons_iff, not_cut_nil, and_false, exists_false, or_false, Item.bytes, Field.cut,
    List.length_append, Word.length_toBytes, Text.length_encode, List.take_append]
  constructor
  · rintro ⟨k, hk, rfl, rfl⟩
    by_cases hcount : k < 4
    · refine .inl ⟨k, hcount, ?_, if_pos hcount⟩
      rw [Nat.sub_eq_zero_of_le (Nat.le_of_lt hcount), List.take_zero, List.append_nil]
    · refine .inr ⟨k - 4, by omega, ?_, if_neg hcount⟩
      rw [List.take_of_length_le (by rw [Word.length_toBytes]; omega)]
  · rintro (⟨k, hk, rfl, rfl⟩ | ⟨k, hk, rfl, rfl⟩)
    · refine ⟨k, by omega, ?_, (if_pos hk).symm⟩
      rw [Nat.sub_eq_zero_of_le (Nat.le_of_lt hk), List.take_zero, List.append_nil]
    · refine ⟨4 + k, by omega, ?_, ?_⟩
      · have hcount : (Word.toBytes (UInt32.ofNat s.length)).length ≤ 4 + k := by
          rw [Word.length_toBytes]
          omega
        rw [List.take_of_length_le hcount, Nat.add_sub_cancel_left]
      · rw [if_neg (by omega), Nat.add_sub_cancel_left]

theorem exists_cut_text_iff {name : String} :
    (∃ s : String, s.length < 4294967296 ∧ Cut [⟨name, .text s⟩] bytes e) ↔
      (bytes.length < 4 ∧ e = .truncated name 4 bytes.length) ∨
        ∃ w rest, bytes = Word.toBytes w ++ rest ∧ rest.length < w.toNat ∧
          e = .textTruncated name w.toNat rest.length := by
  constructor
  · rintro ⟨s, hs, hcut⟩
    have hcount : (UInt32.ofNat s.length).toNat = s.length := by
      rw [UInt32.toNat_ofNat']
      omega
    obtain ⟨k, hk, rfl, rfl⟩ | ⟨k, hk, rfl, rfl⟩ := cut_text_iff.mp hcut
    · refine .inl ?_
      rw [List.length_take, Word.length_toBytes, Nat.min_eq_left (Nat.le_of_lt hk)]
      exact ⟨hk, rfl⟩
    · have hlength : ((Text.encode s).take k).length = k := by
        rw [List.length_take, Text.length_encode, Nat.min_eq_left (Nat.le_of_lt hk)]
      refine .inr ⟨_, _, rfl, ?_, ?_⟩ <;> rw [hcount, hlength]
      exact hk
  · -- zeros stand in for the bytes that are missing
    rintro (⟨hshort, rfl⟩ | ⟨w, rest, rfl, hlength, rfl⟩)
    · obtain ⟨w, hw⟩ := Word.exists_take_toBytes hshort
      obtain ⟨s, hs, -⟩ := Text.exists_encode_eq (List.length_replicate (n := w.toNat) (a := 0))
      refine ⟨s, hs ▸ w.toNat_lt, cut_text_iff.mpr (.inl ⟨_, hshort, ?_, rfl⟩)⟩
      rw [hs, UInt32.ofNat_toNat]
      exact hw
    · have hbs : (rest ++ List.replicate (w.toNat - rest.length) 0).length = w.toNat := by
        rw [List.length_append, List.length_replicate]
        omega
      obtain ⟨s, hs, hbody⟩ := Text.exists_encode_eq hbs
      refine ⟨s, hs ▸ w.toNat_lt, cut_text_iff.mpr (.inr ⟨rest.length, hs ▸ hlength, ?_, ?_⟩)⟩
      · rw [hs, UInt32.ofNat_toNat, hbody, List.take_left]
      · rw [hs]

/-! ## Reads that fail -/

namespace Read

variable {α β : Type} {r : Read α} {c : Cursor}

theorem bind_eq_error_iff {k : α → Read β} :
    ((r >>= k) c).1 = .error e ↔
      (r c).1 = .error e ∨ ∃ a d, r c = (.ok a, d) ∧ (k a d).1 = .error e := by
  rw [bind_run]
  rcases r c with ⟨_ | a, d⟩
  · simp
  · simp [and_assoc]

theorem map_eq_error_iff {f : α → β} : ((f <$> r) c).1 = .error e ↔ (r c).1 = .error e := by
  rw [map_run]
  rcases r c with ⟨_ | a, d⟩
  · simp
  · simp

theorem not_pure_eq_error {a : α} : ¬ ((pure a : Read α) c).1 = .error e := nofun

theorem word_of_short (field : String) {c : Cursor} (h : c.rest.length < 4) :
    word field c = (.error (.truncated field 4 c.rest.length), c) := by
  obtain ⟨n, rest⟩ := c
  match rest with
  | [] | [_] | [_, _] | [_, _, _] => rfl
  | _ :: _ :: _ :: _ :: _ =>
    simp only [List.length_cons] at h
    omega

theorem word_eq_error_iff {field : String} :
    (word field c).1 = .error e ↔ c.rest.length < 4 ∧ e = .truncated field 4 c.rest.length := by
  obtain ⟨n, bytes⟩ := c
  rcases Word.front_cases bytes with hshort | ⟨w, rest, rfl⟩
  · rw [word_of_short field hshort]
    simp [hshort, eq_comm]
  · have hlength : ¬ 4 + rest.length < 4 := by omega
    rw [word_toBytes]
    simp [hlength]

theorem body_eq_error_iff {field : String} {count : Nat} :
    (body field count c).1 = .error e ↔
      c.rest.length < count ∧ e = .textTruncated field count c.rest.length := by
  unfold body
  rw [List.length_take]
  split
  · simp only [reduceCtorEq, false_iff]
    omega
  · simp only [Except.error.injEq]
    constructor
    · rintro rfl
      exact ⟨by omega, rfl⟩
    · rintro ⟨-, rfl⟩
      rfl

theorem text_eq_error_iff {field : String} :
    (text field c).1 = .error e ↔
      (c.rest.length < 4 ∧ e = .truncated field 4 c.rest.length) ∨
        ∃ w rest, c.rest = Word.toBytes w ++ rest ∧ rest.length < w.toNat ∧
          e = .textTruncated field w.toNat rest.length := by
  refine bind_eq_error_iff.trans (or_congr word_eq_error_iff ?_)
  simp only [body_eq_error_iff]
  constructor
  · rintro ⟨w, d, hw, hlength, rfl⟩
    exact ⟨w, d.rest, (word_eq_ok hw).1, hlength, rfl⟩
  · obtain ⟨n, bytes⟩ := c
    rintro ⟨w, rest, rfl, hlength, rfl⟩
    exact ⟨w, _, word_toBytes field w n rest, hlength, rfl⟩

end Read

end RaceSteward
