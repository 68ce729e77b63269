import RaceSteward.Proofs.Message.Announced

/-!
# What decoding refuses

Behind a known opcode only one thing can be wrong: the bytes run out. So the beginning of a message
is refused with the field that is cut, and everything that is refused there is the beginning of a
message.

* `Message.decode_of_cut`, `Message.decode_tag_eq_error_iff`: the error is that of the cut.
* `Message.decode_append_of_ok`: what follows a message changes nothing.
* `Message.decode_take_encode`: the beginning of a message, byte for byte.
* `Message.decode_refuses`: any bytes.
-/

namespace RaceSteward.Message

variable {bytes : Bytes} {m : Message} {e : DecodeError}

theorem decode_tag_eq_error_iff {op : Opcode} {rest : Bytes} :
    decode (Word.toBytes op.tag ++ rest) = .error e ↔
      ∃ p, (ofPayload op p).Fits ∧ Cut (op.layout.fields p) rest e := by
  obtain ⟨arrives, hop, -⟩ := op.exists_exact
  rw [← hop.read_eq_error_iff ⟨4, rest⟩, decode_tag, Opcode.decode_tag]
  cases (op.layout.read ⟨4, rest⟩).1 with
  | ok p => simp [Except.map]
  | error e => simp [Except.map]

theorem decode_of_cut (h : m.Fits) (hcut : Cut m.fields bytes e) : decode bytes = .error e := by
  obtain ⟨k, hk, rfl, rfl⟩ | ⟨rest, rfl, hrest⟩ := cut_cons_iff.mp hcut
  · have hlength : ((Word.toBytes m.opcode.tag).take k).length = k := by
      rw [List.length_take]
      exact Nat.min_eq_left (Nat.le_of_lt hk)
    have hshort := decode_of_short (hlength.symm ▸ hk)
    rw [hlength] at hshort
    exact hshort
  · rw [← ofPayload_payload m] at h
    exact decode_tag_eq_error_iff.mpr ⟨m.payload, h, hrest⟩

theorem isCut_of_decode_tag {op : Opcode} {rest : Bytes}
    (h : decode (Word.toBytes op.tag ++ rest) = .error e) : e.isCut = true := by
  obtain ⟨p, -, hcut⟩ := decode_tag_eq_error_iff.mp h
  exact hcut.isCut

theorem decode_ne_opcodeMismatch (bytes : Bytes) (expected : Opcode) (found : UInt32) :
    decode bytes ≠ .error (.opcodeMismatch expected found) := by
  intro h
  rcases Opcode.cases_front bytes with hshort | ⟨tag, rest, hnone, rfl⟩ | ⟨op, rest, rfl⟩
  · rw [decode_of_short hshort] at h
    cases h
  · rw [decode_of_unknown hnone] at h
    cases h
  · cases isCut_of_decode_tag h

/-- What is decoded could have been written: every length has come in four bytes. -/
theorem fits_of_decode (h : decode bytes = .ok m) : m.Fits := by
  rcases Opcode.cases_front bytes with hshort | ⟨tag, rest, hnone, rfl⟩ | ⟨op, rest, rfl⟩
  · rw [decode_of_short hshort] at h
    cases h
  · rw [decode_of_unknown hnone] at h
    cases h
  · obtain ⟨p, hp, rfl⟩ := decode_tag_eq_ok_iff.mp h
    rw [Opcode.decode_tag] at hp
    obtain ⟨arrives, hop, -⟩ := op.exists_exact
    exact hop.fits_of_read ⟨4, rest⟩ p (op.layout.read ⟨4, rest⟩).2 (Prod.ext hp rfl)

theorem decode_append_of_ok (h : decode bytes = .ok m) (more : Bytes) :
    decode (bytes ++ more) = .ok m := by
  obtain ⟨rest, rfl⟩ := encode_prefix_of_decode h
  rw [List.append_assoc, decode_encode_of_fits (fits_of_decode h),
    narrow_eq_self_iff.mpr (isSingleByte_of_decode h)]

theorem exists_completion {op : Opcode} {rest : Bytes}
    (h : decode (Word.toBytes op.tag ++ rest) = .error e) :
    ∃ m more, more ≠ [] ∧ Word.toBytes op.tag ++ rest ++ more = m.encode ∧
      decode (Word.toBytes op.tag ++ rest ++ more) = .ok m := by
  obtain ⟨p, hp, hcut⟩ := decode_tag_eq_error_iff.mp h
  obtain ⟨more, hmore, hrest⟩ := hcut.exists_append
  have hencode : Word.toBytes op.tag ++ rest ++ more = (ofPayload op p).encode := by
    rw [encode_ofPayload, List.append_assoc, hrest]
    rfl
  have hdecode := decode_encode_of_fits hp []
  rw [List.append_nil] at hdecode
  exact ⟨(ofPayload op p).narrow, more, hmore, by rw [hencode, encode_narrow],
    by rw [hencode, hdecode]⟩

/-! ## The beginning of a message -/

/-- The beginning of a message is refused with the first field that is not completely there: its
name, the bytes that it needs and those that are there. -/
theorem decode_take_encode {m : Message} (h : m.Fits) {k : Nat} (hk : k < m.encode.length) :
    (∃ field offset, CutAt m.fields k field offset) ∧
      ∀ field offset, CutAt m.fields k field offset →
        decode (m.encode.take k) = .error (field.cut (k - offset)) ∧
          (field.cut (k - offset)).isCut = true :=
  ⟨exists_cutAt hk, fun field _ hfield => ⟨decode_of_cut h hfield.cut, field.isCut_cut _⟩⟩

/-- A list that ends within the nickname of its second player, after two of four bytes. -/
theorem decode_take_encode_clientList :
    Fits (.clientList ⟨[⟨7, "Zoë", 0⟩, ⟨8, "Mira", 1⟩]⟩) ∧
      30 < (encode (.clientList ⟨[⟨7, "Zoë", 0⟩, ⟨8, "Mira", 1⟩]⟩)).length ∧
      decode ((encode (.clientList ⟨[⟨7, "Zoë", 0⟩, ⟨8, "Mira", 1⟩]⟩)).take 30) =
        .error (.textTruncated "player.nickname" 4 2) := by
  have hfits : Fits (.clientList ⟨[⟨7, "Zoë", 0⟩, ⟨8, "Mira", 1⟩]⟩) := by
    constructor <;> decide
  have hlength : 30 < (encode (.clientList ⟨[⟨7, "Zoë", 0⟩, ⟨8, "Mira", 1⟩]⟩)).length := by decide
  have hcut : CutAt (fields (.clientList ⟨[⟨7, "Zoë", 0⟩, ⟨8, "Mira", 1⟩]⟩)) 30
      ⟨"player.nickname", .text "Mira"⟩ 24 :=
    ⟨(fields (.clientList ⟨[⟨7, "Zoë", 0⟩, ⟨8, "Mira", 1⟩]⟩)).take 6, _, rfl, by decide⟩
  exact ⟨hfits, hlength, ((decode_take_encode hfits hlength).2 _ _ hcut).1⟩

/-! ## Any bytes -/

/-- What decoding refuses. Four bytes that are no opcode are refused as such. Behind an opcode either
a message is read, whatever follows it, or the bytes ran out and are a proper beginning of a message.
A mismatch is never reported. -/
theorem decode_refuses (bytes : Bytes) :
    (∀ expected found, decode bytes ≠ .error (.opcodeMismatch expected found)) ∧
      (4 ≤ bytes.length → ∃ tag, bytes.take 4 = Word.toBytes tag ∧
        (¬ (1 ≤ tag ∧ tag ≤ 11) → decode bytes = .error (.unknownOpcode tag)) ∧
        (1 ≤ tag ∧ tag ≤ 11 →
          (∃ m, decode bytes = .ok m ∧ ∀ more, decode (bytes ++ more) = .ok m) ∨
            ∃ e, decode bytes = .error e ∧ e.isCut = true ∧
              ∃ m more, more ≠ [] ∧ bytes ++ more = m.encode ∧
                decode (bytes ++ more) = .ok m)) := by
  refine ⟨decode_ne_opcodeMismatch bytes, fun hlength => ?_⟩
  rcases Opcode.cases_front bytes with hshort | ⟨tag, rest, hnone, rfl⟩ | ⟨op, rest, rfl⟩
  · exact absurd hlength (Nat.not_le.mpr hshort)
  · refine ⟨tag, List.take_left' (Word.length_toBytes tag), fun _ => decode_of_unknown hnone rest, ?_⟩
    exact fun hknown => absurd hknown (Opcode.ofTag?_eq_none_iff.mp hnone)
  · refine ⟨op.tag, List.take_left' (Word.length_toBytes op.tag), fun hunknown => ?_, fun _ => ?_⟩
    · rw [← Opcode.ofTag?_eq_none_iff, Opcode.ofTag?_tag] at hunknown
      cases hunknown
    · cases hdecode : decode (Word.toBytes op.tag ++ rest) with
      | ok m => exact .inl ⟨m, rfl, decode_append_of_ok hdecode⟩
      | error e => exact .inr ⟨e, rfl, isCut_of_decode_tag hdecode, exists_completion hdecode⟩

/-- A list that announces 4294967295 players and ends within the length of the first nickname. -/
theorem decode_refuses_hostileCount :
    4 ≤ ([5, 0, 0, 0, 255, 255, 255, 255, 7, 0, 0, 0, 3] : Bytes).length ∧
      ∃ m more, more ≠ [] ∧
        [5, 0, 0, 0, 255, 255, 255, 255, 7, 0, 0, 0, 3] ++ more = encode m ∧
        decode ([5, 0, 0, 0, 255, 255, 255, 255, 7, 0, 0, 0, 3] ++ more) = .ok m := by
  have hlength : 4 ≤ ([5, 0, 0, 0, 255, 255, 255, 255, 7, 0, 0, 0, 3] : Bytes).length := by decide
  have hrefused : decode [5, 0, 0, 0, 255, 255, 255, 255, 7, 0, 0, 0, 3] =
      .error (.truncated "player.nickname" 4 1) := rfl
  obtain ⟨tag, htag, -, hknown⟩ := (decode_refuses _).2 hlength
  obtain rfl : tag = 5 := Word.toBytes_inj.mp htag.symm
  obtain ⟨m, hm, -⟩ | ⟨e, -, -, hmore⟩ := hknown (by decide)
  · rw [hrefused] at hm
    cases hm
  · exact ⟨hlength, hmore⟩

end RaceSteward.Message
