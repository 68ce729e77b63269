import RaceSteward.Bytes

/-!
# Text

Text on the wire is one byte per character: the byte is the code point. A character above `U+00FF`
has no byte and is written as `?`. White space is what has the Unicode property `White_Space`.

* `Text.decode_encode`: what comes back is the narrowed text.
* `Text.encode_decode`: every byte string is the text of its decoding.
-/

namespace RaceSteward

namespace Text

/-- The byte of a character, `?` for one above `U+00FF`. -/
def byteOf (c : Char) : UInt8 :=
  if c.toNat ≤ 255 then UInt8.ofNat c.toNat else 63

/-- The character whose code point is the byte. -/
def charOf (b : UInt8) : Char :=
  Char.ofNat b.toNat

/-- The character that a byte can carry in place of `c`. -/
def narrowChar (c : Char) : Char :=
  if c.toNat ≤ 255 then c else '?'

def encode (s : String) : Bytes :=
  s.toList.map byteOf

def decode (bs : Bytes) : String :=
  String.ofList (bs.map charOf)

/-- The text with every character above `U+00FF` replaced by `?`. -/
def narrow (s : String) : String :=
  String.ofList (s.toList.map narrowChar)

/-- Text that a byte per character can carry. -/
def IsSingleByte (s : String) : Prop :=
  ∀ c ∈ s.toList, c.toNat ≤ 255

instance (s : String) : Decidable (IsSingleByte s) :=
  List.decidableBAll _ s.toList

/-- Text that every reader of single bytes takes alike. -/
def IsAscii (s : String) : Prop :=
  ∀ c ∈ s.toList, c.toNat < 128

instance (s : String) : Decidable (IsAscii s) :=
  List.decidableBAll _ s.toList

/-! ## Characters -/

theorem toNat_charOf (b : UInt8) : (charOf b).toNat = b.toNat := by
  have hb := b.toNat_lt
  have hv : b.toNat.isValidChar := Or.inl (by omega)
  rw [charOf, Char.ofNat, dif_pos hv]
  rfl

theorem byteOf_charOf (b : UInt8) : byteOf (charOf b) = b := by
  have hb := b.toNat_lt
  rw [byteOf, toNat_charOf, if_pos (by omega)]
  simp

theorem charOf_byteOf (c : Char) : charOf (byteOf c) = narrowChar c := by
  unfold byteOf narrowChar
  split
  · rename_i h
    rw [charOf, UInt8.toNat_ofNat', Nat.mod_eq_of_lt (by omega), Char.ofNat_toNat]
  · rfl

theorem narrowChar_of_le {c : Char} (h : c.toNat ≤ 255) : narrowChar c = c :=
  if_pos h

theorem toNat_narrowChar_le (c : Char) : (narrowChar c).toNat ≤ 255 := by
  unfold narrowChar
  split
  · assumption
  · decide

/-! ## Texts -/

@[simp] theorem length_encode (s : String) : (encode s).length = s.length := by
  rw [encode, List.length_map, String.length_toList]

theorem decode_encode (s : String) : decode (encode s) = narrow s := by
  simp [decode, encode, narrow, Function.comp_def, charOf_byteOf]

theorem encode_decode (bs : Bytes) : encode (decode bs) = bs := by
  simp [decode, encode, Function.comp_def, byteOf_charOf]

theorem narrow_eq_self {s : String} (h : IsSingleByte s) : narrow s = s := by
  have hmap : s.toList.map narrowChar = s.toList := by
    conv => rhs; rw [← List.map_id s.toList]
    exact List.map_congr_left fun c hc => narrowChar_of_le (h c hc)
  rw [narrow, hmap, String.ofList_toList]

theorem isSingleByte_decode (bs : Bytes) : IsSingleByte (decode bs) := by
  intro c hc
  simp only [decode, String.toList_ofList, List.mem_map] at hc
  obtain ⟨b, -, rfl⟩ := hc
  have hb := b.toNat_lt
  rw [toNat_charOf]
  omega

theorem isSingleByte_narrow (s : String) : IsSingleByte (narrow s) := by
  intro c hc
  simp only [narrow, String.toList_ofList, List.mem_map] at hc
  obtain ⟨d, -, rfl⟩ := hc
  exact toNat_narrowChar_le d

theorem isSingleByte_append {s t : String} :
    IsSingleByte (s ++ t) ↔ IsSingleByte s ∧ IsSingleByte t := by
  rw [IsSingleByte, String.toList_append, List.forall_mem_append]
  rfl

theorem isAscii_append {s t : String} : IsAscii (s ++ t) ↔ IsAscii s ∧ IsAscii t := by
  rw [IsAscii, String.toList_append, List.forall_mem_append]
  rfl

theorem IsAscii.isSingleByte {s : String} (h : IsAscii s) : IsSingleByte s := by
  intro c hc
  have hascii := h c hc
  omega

theorem encode_append (s t : String) : encode (s ++ t) = encode s ++ encode t := by
  rw [encode, String.toList_append, List.map_append]
  rfl

/-- The bytes of a text that they can carry tell it from every other one. -/
theorem encode_inj {s t : String} (hs : IsSingleByte s) (ht : IsSingleByte t) :
    encode s = encode t ↔ s = t := by
  refine ⟨fun h => ?_, congrArg encode⟩
  rw [← narrow_eq_self hs, ← narrow_eq_self ht, ← decode_encode, ← decode_encode, h]

/-! ## White space -/

/-- The code points of white space, as ranges. -/
def blankRanges : List (Nat × Nat) :=
  [(0x9, 0xd), (0x20, 0x20), (0x85, 0x85), (0xa0, 0xa0), (0x1680, 0x1680), (0x2000, 0x200a),
    (0x2028, 0x2029), (0x202f, 0x202f), (0x205f, 0x205f), (0x3000, 0x3000)]

def isBlank (c : Char) : Bool :=
  blankRanges.any fun (first, last) => decide (first ≤ c.toNat ∧ c.toNat ≤ last)

/-- The text without white space at its ends. -/
def trim (s : List Char) : List Char :=
  ((s.dropWhile isBlank).reverse.dropWhile isBlank).reverse

example (c : Char) (h : c.isWhitespace = true) : isBlank c = true := by
  simp only [Char.isWhitespace, Bool.or_eq_true, decide_eq_true_eq] at h
  rcases h with ((rfl | rfl) | rfl) | rfl <;> decide

end Text

end RaceSteward
