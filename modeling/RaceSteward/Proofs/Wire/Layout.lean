import RaceSteward.Wire.Layout

/-!
# Layouts that lose nothing

`Layout.Faithful l fits arrives`: what `l` writes for a value that `fits` is read back as what
`arrives` of the value, whatever follows it; and whatever `l` reads is exactly what it would write
for the answer. Texts and counts have a bound, since their length travels in four bytes, and a text
arrives narrowed; everything else fits and arrives as it is.

The law holds of every one-item layout (`faithful_word`, `faithful_text`, ...) and is kept by every
way of putting layouts together (`Faithful.and`, `Faithful.as`, `Faithful.list`), so a payload has it
by the shape of its layout.
-/

namespace RaceSteward

namespace Read

variable {α β : Type}

/-! ## Reads that succeed -/

theorem bind_eq_ok_iff {r : Read α} {k : α → Read β} {c d : Cursor} {b : β} :
    (r >>= k) c = (.ok b, d) ↔ ∃ a e, r c = (.ok a, e) ∧ k a e = (.ok b, d) := by
  rw [bind_run]
  constructor
  · intro h
    split at h
    · rename_i a e hr
      exact ⟨a, e, hr, h⟩
    · cases h
  · rintro ⟨a, e, hr, hk⟩
    rw [hr]
    exact hk

theorem map_eq_ok_iff {f : α → β} {r : Read α} {c d : Cursor} {b : β} :
    (f <$> r) c = (.ok b, d) ↔ ∃ a, r c = (.ok a, d) ∧ f a = b := by
  rw [map_run]
  constructor
  · intro h
    split at h
    · rename_i a e hr
      simp only [Prod.mk.injEq, Except.ok.injEq] at h
      obtain ⟨rfl, rfl⟩ := h
      exact ⟨a, hr, rfl⟩
    · cases h
  · rintro ⟨a, hr, rfl⟩
    rw [hr]

theorem pure_eq_ok_iff {a b : α} {c d : Cursor} :
    (pure a : Read α) c = (.ok b, d) ↔ a = b ∧ c = d := by
  rw [pure_run, Prod.mk.injEq, Except.ok.injEq]

/-! ## Words and texts at the front -/

theorem word_toBytes (field : String) (w : UInt32) (n : Nat) (rest : Bytes) :
    word field ⟨n, Word.toBytes w ++ rest⟩ = (.ok w, ⟨n + 4, rest⟩) := by
  show (Except.ok (Word.ofBytes _ _ _ _), Cursor.mk (n + 4) rest) = _
  rw [Word.ofBytes_toBytes]

theorem word_eq_ok {field : String} {w : UInt32} {c d : Cursor} (h : word field c = (.ok w, d)) :
    c.rest = Word.toBytes w ++ d.rest ∧ d.position = c.position + 4 := by
  unfold word at h
  split at h
  · rename_i b₀ b₁ b₂ b₃ rest hrest
    simp only [Prod.mk.injEq, Except.ok.injEq] at h
    obtain ⟨rfl, rfl⟩ := h
    exact ⟨by rw [Word.toBytes_ofBytes, hrest]; rfl, rfl⟩
  · cases h

theorem body_append (field : String) (bs : Bytes) (n : Nat) (rest : Bytes) :
    body field bs.length ⟨n, bs ++ rest⟩ = (.ok (Text.decode bs), ⟨n + bs.length, rest⟩) := by
  simp only [body, List.take_left, List.drop_left, if_true]

theorem body_eq_ok {field : String} {count : Nat} {s : String} {c d : Cursor}
    (h : body field count c = (.ok s, d)) :
    ∃ bs, bs.length = count ∧ s = Text.decode bs ∧ c.rest = bs ++ d.rest ∧
      d.position = c.position + count := by
  unfold body at h
  split at h
  · rename_i hlen
    simp only [Prod.mk.injEq, Except.ok.injEq] at h
    obtain ⟨rfl, rfl⟩ := h
    exact ⟨c.rest.take count, hlen, rfl, (List.take_append_drop count c.rest).symm, rfl⟩
  · cases h

end Read

namespace Layout

variable {α β : Type}

/-- Both directions of a layout undo each other. -/
structure Faithful (l : Layout α) (fits : α → Prop) (arrives : α → α) : Prop where
  /-- What is written is read back, and the bytes after it are left alone. -/
  read_write : ∀ a, fits a → ∀ n rest,
    l.read ⟨n, l.write a ++ rest⟩ = (.ok (arrives a), ⟨n + (l.write a).length, rest⟩)
  /-- What has been read is written again with the bytes that were consumed. -/
  write_read : ∀ c a d, l.read c = (.ok a, d) →
    arrives a = a ∧ c.rest = l.write a ++ d.rest ∧ d.position = c.position + (l.write a).length
  /-- The journey has no trace in the bytes. -/
  write_arrives : ∀ a, l.write (arrives a) = l.write a

/-! ## What is written -/

@[simp] theorem write_and (l : Layout α) (r : Layout β) (p : α × β) :
    (l.and r).write p = l.write p.1 ++ r.write p.2 := by
  simp [write, Layout.and, Field.concat]

@[simp] theorem write_as (l : Layout α) (make : α → β) (parts : β → α) (b : β) :
    (l.as make parts).write b = l.write (parts b) := rfl

theorem concat_flatMap (l : Layout α) (as : List α) :
    Field.concat (as.flatMap l.fields) = as.flatMap l.write := by
  induction as with
  | nil => rfl
  | cons a as ih =>
    rw [List.flatMap_cons, List.flatMap_cons, ← ih]
    simp [write, Field.concat]

@[simp] theorem write_list (name : String) (size : Nat) (l : Layout α) (as : List α) :
    (list name size l).write as =
      Word.toBytes (UInt32.ofNat as.length) ++ as.flatMap l.write := by
  rw [← concat_flatMap]
  rfl

/-! ## One item -/

theorem write_word (name : String) (v : UInt32) : (word name).write v = Word.toBytes v :=
  List.append_nil _

theorem write_int (name : String) (v : Int32) : (int name).write v = Word.toBytes v.toUInt32 :=
  List.append_nil _

theorem write_single (name : String) (v : Single) : (single name).write v = Word.toBytes v.bits :=
  List.append_nil _

theorem write_text (name : String) (s : String) :
    (text name).write s = Word.toBytes (UInt32.ofNat s.length) ++ Text.encode s :=
  List.append_nil _

theorem length_write_text (name : String) (s : String) :
    ((text name).write s).length = 4 + s.length := by
  rw [write_text, List.length_append, Word.length_toBytes, Text.length_encode]

theorem faithful_byte (name : String) : (byte name).Faithful (fun _ => True) id where
  read_write _ _ _ _ := rfl
  write_read c a d h := by
    change Read.byte name c = _ at h
    unfold Read.byte at h
    split at h
    · rename_i b rest hrest
      simp only [Prod.mk.injEq, Except.ok.injEq] at h
      obtain ⟨rfl, rfl⟩ := h
      exact ⟨rfl, hrest, rfl⟩
    · cases h
  write_arrives _ := rfl

theorem faithful_word (name : String) : (word name).Faithful (fun _ => True) id where
  read_write v _ n rest := by
    rw [write_word]
    exact Read.word_toBytes name v n rest
  write_read c v d h := by
    rw [write_word]
    exact ⟨rfl, Read.word_eq_ok h⟩
  write_arrives _ := rfl

theorem faithful_int (name : String) : (int name).Faithful (fun _ => True) id where
  read_write v _ n rest := by
    rw [write_int]
    exact Read.map_eq_ok_iff.mpr ⟨v.toUInt32, Read.word_toBytes name _ n rest, rfl⟩
  write_read c v d h := by
    obtain ⟨w, hw, rfl⟩ := Read.map_eq_ok_iff.mp h
    rw [write_int]
    exact ⟨rfl, Read.word_eq_ok hw⟩
  write_arrives _ := rfl

theorem faithful_single (name : String) : (single name).Faithful (fun _ => True) id where
  read_write v _ n rest := by
    rw [write_single]
    exact Read.map_eq_ok_iff.mpr ⟨v.bits, Read.word_toBytes name _ n rest, rfl⟩
  write_read c v d h := by
    obtain ⟨w, hw, rfl⟩ := Read.map_eq_ok_iff.mp h
    rw [write_single]
    exact ⟨rfl, Read.word_eq_ok hw⟩
  write_arrives _ := rfl

theorem faithful_text (name : String) :
    (text name).Faithful (fun s => s.length < 4294967296) Text.narrow where
  read_write s hs n rest := by
    have hcount : (UInt32.ofNat s.length).toNat = (Text.encode s).length := by
      rw [UInt32.toNat_ofNat', Text.length_encode]
      omega
    rw [write_text, List.append_assoc]
    refine (Read.bind_of_ok (Read.word_toBytes name _ n _)).trans ?_
    rw [hcount, Read.body_append, Text.decode_encode]
    simp only [List.length_append, Word.length_toBytes, Nat.add_assoc]
  write_read c s d h := by
    obtain ⟨w, e, hw, hbody⟩ := Read.bind_eq_ok_iff.mp h
    obtain ⟨hrest, hpos⟩ := Read.word_eq_ok hw
    obtain ⟨bs, hlen, rfl, hbs, hpos'⟩ := Read.body_eq_ok hbody
    have hcount : UInt32.ofNat (Text.decode bs).length = w := by
      rw [← Text.length_encode, Text.encode_decode, hlen, UInt32.ofNat_toNat]
    rw [write_text, hcount, Text.encode_decode]
    refine ⟨Text.narrow_eq_self (Text.isSingleByte_decode bs), ?_, ?_⟩
    · rw [hrest, hbs, List.append_assoc]
    · rw [hpos', hpos, List.length_append, Word.length_toBytes, hlen, Nat.add_assoc]
  write_arrives s := by
    rw [write_text, write_text, ← Text.decode_encode, Text.encode_decode, ← Text.length_encode,
      Text.encode_decode, Text.length_encode]

/-! ## Putting layouts together -/

theorem faithful_nothing : nothing.Faithful (fun _ => True) id where
  read_write _ _ _ _ := rfl
  write_read c a d h := by
    obtain ⟨-, rfl⟩ := Read.pure_eq_ok_iff.mp h
    exact ⟨rfl, rfl, rfl⟩
  write_arrives _ := rfl

namespace Faithful

variable {l : Layout α} {r : Layout β} {fits : α → Prop} {fits' : β → Prop} {arrives : α → α}
  {arrives' : β → β}

theorem restrict (hl : l.Faithful fits arrives) {fewer : α → Prop} (h : ∀ a, fewer a → fits a) :
    l.Faithful fewer arrives where
  read_write a ha := hl.read_write a (h a ha)
  write_read := hl.write_read
  write_arrives := hl.write_arrives

theorem and (hl : l.Faithful fits arrives) (hr : r.Faithful fits' arrives') :
    (l.and r).Faithful (fun p => fits p.1 ∧ fits' p.2) (Prod.map arrives arrives') where
  read_write := by
    rintro ⟨a, b⟩ ⟨ha, hb⟩ n rest
    rw [write_and, List.append_assoc]
    refine (Read.bind_of_ok (hl.read_write a ha n _)).trans ?_
    refine (Read.bind_of_ok (hr.read_write b hb _ rest)).trans ?_
    rw [Read.pure_run, List.length_append, Nat.add_assoc]
    rfl
  write_read c p d h := by
    obtain ⟨a, e, ha, h⟩ := Read.bind_eq_ok_iff.mp h
    obtain ⟨b, f, hb, h⟩ := Read.bind_eq_ok_iff.mp h
    obtain ⟨rfl, rfl⟩ := Read.pure_eq_ok_iff.mp h
    obtain ⟨haa, harest, hapos⟩ := hl.write_read _ _ _ ha
    obtain ⟨hbb, hbrest, hbpos⟩ := hr.write_read _ _ _ hb
    rw [write_and]
    refine ⟨?_, ?_, ?_⟩
    · rw [Prod.map_apply, haa, hbb]
    · rw [harest, hbrest, List.append_assoc]
    · rw [hbpos, hapos, List.length_append, Nat.add_assoc]
  write_arrives p := by
    rw [write_and, write_and, Prod.map_fst, Prod.map_snd, hl.write_arrives, hr.write_arrives]

theorem as (hl : l.Faithful fits arrives) {make : α → β} {parts : β → α}
    (hparts : ∀ a, parts (make a) = a) :
    (l.as make parts).Faithful (fun b => fits (parts b))
      (fun b => make (arrives (parts b))) where
  read_write b hb n rest :=
    Read.map_eq_ok_iff.mpr ⟨_, hl.read_write (parts b) hb n rest, rfl⟩
  write_read c b d h := by
    obtain ⟨a, ha, rfl⟩ := Read.map_eq_ok_iff.mp h
    obtain ⟨haa, hrest, hpos⟩ := hl.write_read _ _ _ ha
    rw [write_as, hparts, haa]
    exact ⟨rfl, hrest, hpos⟩
  write_arrives b := by
    rw [write_as, write_as, hparts, hl.write_arrives]

theorem read_times (size : Nat) (hl : l.Faithful fits arrives) :
    ∀ as : List α, (∀ a ∈ as, fits a) → ∀ n rest,
      Read.times size l.read as.length ⟨n, as.flatMap l.write ++ rest⟩ =
        (.ok (as.map arrives), ⟨n + (as.flatMap l.write).length, rest⟩) := by
  intro as
  induction as with
  | nil => intro _ n rest; rfl
  | cons a as ih =>
    intro hfits n rest
    rw [List.flatMap_cons, List.append_assoc, List.length_cons, Read.times_succ]
    refine (Read.bind_of_ok (hl.read_write a (hfits a (by simp)) n _)).trans ?_
    refine (Read.bind_of_ok (ih (fun b hb => hfits b (by simp [hb])) _ rest)).trans ?_
    rw [Read.pure_run, List.length_append, Nat.add_assoc]
    rfl

theorem write_times {size : Nat} (hl : l.Faithful fits arrives) :
    ∀ n c as d, Read.times size l.read n c = (.ok as, d) →
      as.length = n ∧ as.map arrives = as ∧ c.rest = as.flatMap l.write ++ d.rest ∧
        d.position = c.position + (as.flatMap l.write).length := by
  intro n
  induction n with
  | zero =>
    intro c as d h
    rw [Read.times_zero] at h
    obtain ⟨rfl, rfl⟩ := Read.pure_eq_ok_iff.mp h
    exact ⟨rfl, rfl, rfl, rfl⟩
  | succ n ih =>
    intro c as d h
    rw [Read.times_succ] at h
    obtain ⟨a, e, ha, h⟩ := Read.bind_eq_ok_iff.mp h
    obtain ⟨more, f, hmore, h⟩ := Read.bind_eq_ok_iff.mp h
    obtain ⟨rfl, rfl⟩ := Read.pure_eq_ok_iff.mp h
    obtain ⟨haa, harest, hapos⟩ := hl.write_read _ _ _ ha
    obtain ⟨hlen, hmap, hrest, hpos⟩ := ih _ _ _ hmore
    rw [List.flatMap_cons]
    refine ⟨by rw [List.length_cons, hlen], by rw [List.map_cons, haa, hmap], ?_, ?_⟩
    · rw [harest, hrest, List.append_assoc]
    · rw [hpos, hapos, List.length_append, Nat.add_assoc]

theorem list (name : String) (size : Nat) (hl : l.Faithful fits arrives) :
    (Layout.list name size l).Faithful (fun as => as.length < 4294967296 ∧ ∀ a ∈ as, fits a)
      (List.map arrives) where
  read_write := by
    rintro as ⟨hlen, hfits⟩ n rest
    have hcount : (UInt32.ofNat as.length).toNat = as.length := by
      rw [UInt32.toNat_ofNat']
      omega
    rw [write_list, List.append_assoc]
    refine (Read.bind_of_ok (Read.word_toBytes name _ n _)).trans ?_
    rw [hcount, hl.read_times size as hfits, List.length_append, Word.length_toBytes, Nat.add_assoc]
  write_read c as d h := by
    obtain ⟨w, e, hw, h⟩ := Read.bind_eq_ok_iff.mp h
    obtain ⟨hwrest, hwpos⟩ := Read.word_eq_ok hw
    obtain ⟨hlen, hmap, hrest, hpos⟩ := hl.write_times _ _ _ _ h
    rw [write_list, hlen, UInt32.ofNat_toNat]
    refine ⟨hmap, ?_, ?_⟩
    · rw [hwrest, hrest, List.append_assoc]
    · rw [hpos, hwpos, List.length_append, Word.length_toBytes, Nat.add_assoc]
  write_arrives as := by
    have hmore : (as.map arrives).flatMap l.write = as.flatMap l.write := by
      rw [List.flatMap_map]
      exact congrArg (as.flatMap ·) (funext hl.write_arrives)
    rw [write_list, write_list, List.length_map, hmore]

end Faithful

end Layout

end RaceSteward
