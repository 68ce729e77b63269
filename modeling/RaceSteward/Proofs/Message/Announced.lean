import RaceSteward.Proofs.Message.RoundTrip

/-!
# What the opcode announces

There are two ways to decode: `Message.decode` reads whatever payload the opcode announces, and
`Opcode.decode` the payload of one kind. Each looks at the opcode first, and where it is that of the
kind asked for, both read the same payload (`Message.decode_tag`, `Opcode.decode_tag`).

* `Opcode.decode_agrees`: how the two answers go together, on any bytes.
-/

namespace RaceSteward

variable {bytes : Bytes}

namespace Opcode

theorem ofTag?_eq_none_iff {t : UInt32} : ofTag? t = none ↔ ¬ (1 ≤ t ∧ t ≤ 11) := by
  rw [UInt32.le_iff_toNat_le, UInt32.le_iff_toNat_le]
  constructor
  · rintro hnone ⟨hlow, hhigh⟩
    have hsome : ∀ n : Fin 12, n ≠ 0 → (ofTag? (UInt32.ofNat n.val)).isSome = true := by decide
    have hone : (1 : UInt32).toNat = 1 := rfl
    have heleven : (11 : UInt32).toNat = 11 := rfl
    have ht := hsome ⟨t.toNat, by omega⟩ (by rw [ne_eq, Fin.ext_iff]; simp; omega)
    rw [UInt32.ofNat_toNat, hnone] at ht
    cases ht
  · intro hout
    cases hop : ofTag? t with
    | none => rfl
    | some op =>
      have htag : ∀ op : Opcode, 1 ≤ op.tag.toNat ∧ op.tag.toNat ≤ 11 := by
        intro op
        cases op <;> decide
      rw [← ofTag?_eq_some_iff.mp hop] at hout
      exact absurd (htag op) hout

theorem cases_front (bytes : Bytes) :
    bytes.length < 4 ∨ (∃ tag rest, ofTag? tag = none ∧ bytes = Word.toBytes tag ++ rest) ∨
      ∃ (op : Opcode) (rest : Bytes), bytes = Word.toBytes op.tag ++ rest := by
  rcases Word.front_cases bytes with hshort | ⟨tag, rest, rfl⟩
  · exact .inl hshort
  · cases hop : ofTag? tag with
    | none => exact .inr (.inl ⟨tag, rest, hop, rfl⟩)
    | some op => exact .inr (.inr ⟨op, rest, by rw [ofTag?_eq_some_iff.mp hop]⟩)

theorem decode_of_short (op : Opcode) (h : bytes.length < 4) :
    op.decode bytes = .error (.truncated "opcode" 4 bytes.length) := by
  have hopcode : Read.opcode op (.start bytes) =
      (.error (.truncated "opcode" 4 bytes.length), .start bytes) :=
    Read.bind_of_error (Read.word_of_short "opcode" h)
  exact congrArg Prod.fst (Read.bind_of_error hopcode)

theorem decode_of_ne {op : Opcode} {tag : UInt32} (h : tag ≠ op.tag) (rest : Bytes) :
    op.decode (Word.toBytes tag ++ rest) = .error (.opcodeMismatch op tag) := by
  have hopcode : Read.opcode op (.start (Word.toBytes tag ++ rest)) =
      (.error (.opcodeMismatch op tag), ⟨4, rest⟩) := by
    refine (Read.bind_of_ok (Read.word_toBytes "opcode" tag 0 rest)).trans ?_
    rw [if_neg h]
    rfl
  exact congrArg Prod.fst (Read.bind_of_error hopcode)

theorem decode_tag (op : Opcode) (rest : Bytes) :
    op.decode (Word.toBytes op.tag ++ rest) = (op.layout.read ⟨4, rest⟩).1 := by
  have hopcode : Read.opcode op (.start (Word.toBytes op.tag ++ rest)) = (.ok (), ⟨4, rest⟩) := by
    refine (Read.bind_of_ok (Read.word_toBytes "opcode" op.tag 0 rest)).trans ?_
    rw [if_pos rfl]
    rfl
  exact congrArg Prod.fst (Read.bind_of_ok hopcode)

end Opcode

namespace Message

theorem decode_of_short (h : bytes.length < 4) :
    decode bytes = .error (.truncated "opcode" 4 bytes.length) :=
  congrArg Prod.fst (Read.bind_of_error (Read.word_of_short "opcode" h))

theorem decode_of_unknown {tag : UInt32} (h : Opcode.ofTag? tag = none) (rest : Bytes) :
    decode (Word.toBytes tag ++ rest) = .error (.unknownOpcode tag) := by
  refine (congrArg Prod.fst (Read.bind_of_ok (Read.word_toBytes "opcode" tag 0 rest))).trans ?_
  rw [h]
  rfl

theorem decode_tag (op : Opcode) (rest : Bytes) :
    decode (Word.toBytes op.tag ++ rest) =
      (op.decode (Word.toBytes op.tag ++ rest)).map (ofPayload op) := by
  refine (congrArg Prod.fst (Read.bind_of_ok (Read.word_toBytes "opcode" op.tag 0 rest))).trans ?_
  rw [Opcode.decode_tag, Opcode.ofTag?_tag]
  show ((ofPayload op <$> op.layout.read) ⟨4, rest⟩).1 = _
  rw [Read.map_run]
  rcases op.layout.read ⟨4, rest⟩ with ⟨_ | _, _⟩ <;> rfl

theorem ofPayload_inj {op : Opcode} {p q : op.Payload} : ofPayload op p = ofPayload op q ↔ p = q := by
  refine ⟨fun h => ?_, fun h => by rw [h]⟩
  cases op <;> cases h <;> rfl

theorem decode_tag_eq_ok_iff {op : Opcode} {rest : Bytes} {m : Message} :
    decode (Word.toBytes op.tag ++ rest) = .ok m ↔
      ∃ p, op.decode (Word.toBytes op.tag ++ rest) = .ok p ∧ ofPayload op p = m := by
  rw [decode_tag]
  cases op.decode (Word.toBytes op.tag ++ rest) <;> simp [Except.map]

theorem encode_eq_append (m : Message) :
    m.encode = Word.toBytes m.opcode.tag ++ m.opcode.layout.write m.payload := by
  rw [← encode_ofPayload, ofPayload_payload]

end Message

namespace Opcode

/-- The two ways to decode agree on all bytes that begin with the opcode asked for; any other word
is a mismatch for it. -/
theorem decode_agrees (op : Opcode) (bytes : Bytes) :
    (bytes.length < 4 →
      op.decode bytes = .error (.truncated "opcode" 4 bytes.length) ∧
        Message.decode bytes = .error (.truncated "opcode" 4 bytes.length)) ∧
    (∀ tag rest, bytes = Word.toBytes tag ++ rest →
      (tag = op.tag →
        (∀ p, op.decode bytes = .ok p ↔ Message.decode bytes = .ok (.ofPayload op p)) ∧
          ∀ e, op.decode bytes = .error e ↔ Message.decode bytes = .error e) ∧
      (tag ≠ op.tag → op.decode bytes = .error (.opcodeMismatch op tag))) ∧
    ∀ (m : Message) (more : Bytes),
      m.encode.take 4 = Word.toBytes m.opcode.tag ∧
      Message.decode (m.encode ++ more) =
        (m.opcode.decode (m.encode ++ more)).map (.ofPayload m.opcode) ∧
      (∀ m', Message.decode (m.encode ++ more) = .ok m' → m'.opcode = m.opcode) ∧
      (m.Fits → Message.decode (m.encode ++ more) = .ok m.narrow) := by
  refine ⟨fun h => ⟨op.decode_of_short h, Message.decode_of_short h⟩, ?_, fun m more => ?_⟩
  · rintro tag rest rfl
    refine ⟨?_, fun h => decode_of_ne h rest⟩
    rintro rfl
    rw [Message.decode_tag]
    cases op.decode (Word.toBytes op.tag ++ rest) with
    | ok p => simp [Except.map, Message.ofPayload_inj]
    | error e => simp [Except.map]
  · refine ⟨?_, ?_, ?_, fun h => Message.decode_encode_of_fits h more⟩
    all_goals rw [m.encode_eq_append]
    · exact List.take_left' (Word.length_toBytes _)
    · rw [List.append_assoc]
      exact Message.decode_tag _ _
    · intro m' h
      rw [List.append_assoc] at h
      obtain ⟨p, -, rfl⟩ := Message.decode_tag_eq_ok_iff.mp h
      exact Message.opcode_ofPayload _ p

/-- A chat line whose player is cut, as a chat and as something else; fewer bytes than an opcode has;
and a whole chat line. -/
theorem decode_agrees_chat :
    (chat.decode [2, 0, 0, 0, 1, 0, 0, 0, 104, 7, 0] = .error (.truncated "player_id" 4 2) ∧
      Message.decode [2, 0, 0, 0, 1, 0, 0, 0, 104, 7, 0] = .error (.truncated "player_id" 4 2)) ∧
    levelFinish.decode [2, 0, 0, 0, 1, 0, 0, 0, 104, 7, 0] =
      .error (.opcodeMismatch levelFinish 2) ∧
    Message.decode [2, 0, 0] = .error (.truncated "opcode" 4 3) ∧
    Message.Fits (.chat ⟨"h€", 7⟩) ∧
    Message.decode (Message.encode (.chat ⟨"h€", 7⟩) ++ [0]) = .ok (.chat ⟨"h?", 7⟩) := by
  have hchat : chat.decode [2, 0, 0, 0, 1, 0, 0, 0, 104, 7, 0] =
      .error (.truncated "player_id" 4 2) := rfl
  have hfits : Message.Fits (.chat ⟨"h€", 7⟩) := by
    constructor <;> decide
  refine ⟨⟨hchat, ?_⟩, ?_, ?_, hfits, ?_⟩
  · exact ((((decode_agrees chat _).2.1 2 _ rfl).1 rfl).2 _).mp hchat
  · exact ((decode_agrees levelFinish _).2.1 2 _ rfl).2 (by decide)
  · exact ((decode_agrees chat _).1 (by decide)).2
  · exact ((decode_agrees chat []).2.2 _ _).2.2.2 hfits

end Opcode

end RaceSteward
