import RaceSteward.Message.Codec
import RaceSteward.Proofs.Wire.Exact

/-!
# Messages survive the wire

What `Message.encode` writes is read back as the narrowed message, whatever follows it, and what
`Message.decode` accepts is, byte for byte, what `Message.encode` writes of the answer.

* `Message.decode_encode_append`: decoding undoes encoding, up to characters without a byte.
* `Message.encode_of_decode`: encoding undoes decoding, and no two byte strings are read as one
  message.

Both follow from one law, `Layout.Exact`, that each payload inherits from the shape of its layout
(`Opcode.exists_exact`).
-/

namespace RaceSteward

namespace Text

theorem narrow_eq_self_iff {s : String} : narrow s = s ↔ IsSingleByte s := by
  constructor
  · intro h
    rw [← h]
    exact isSingleByte_narrow s
  · exact narrow_eq_self

end Text

/-! ## Payloads -/

open Layout

theorem Player.exact : Player.layout.Exact (fun p => p.nickname.length < 4294967296)
    (fun p => { p with nickname := Text.narrow p.nickname }) :=
  (((exact_word _).and ((exact_text _).and (exact_byte _))).as fun _ => rfl).congr fun _ => by simp

theorem Vector3.exact (name : String) : (Vector3.layout name).Exact (fun _ => True) id :=
  (((exact_single _).and ((exact_single _).and (exact_single _))).as
    fun _ => rfl).congr fun _ => by simp

theorem Quaternion.exact (name : String) :
    (Quaternion.layout name).Exact (fun _ => True) id :=
  (((exact_single _).and ((exact_single _).and ((exact_single _).and
    (exact_single _)))).as fun _ => rfl).congr fun _ => by simp

theorem OrderChat.exact : OrderChat.layout.Exact (fun m => m.content.length < 4294967296)
    (fun m => ⟨Text.narrow m.content⟩) :=
  (exact_text _).as fun _ => rfl

theorem Chat.exact : Chat.layout.Exact (fun m => m.content.length < 4294967296)
    (fun m => ⟨Text.narrow m.content, m.playerId⟩) :=
  ((OrderChat.exact.and (exact_word _)).as fun _ => rfl).congr fun _ => by simp

theorem OrderGlobalCheat.exact : OrderGlobalCheat.layout.Exact (fun _ => True) id :=
  (exact_byte _).as fun _ => rfl

theorem GlobalCheat.exact : GlobalCheat.layout.Exact (fun _ => True) id :=
  ((OrderGlobalCheat.exact.and (exact_word _)).as fun _ => rfl).congr fun _ => by simp

theorem OrderClientList.exact : OrderClientList.layout.Exact (fun _ => True) id :=
  exact_nothing.as fun _ => rfl

theorem ClientList.exact : ClientList.layout.Exact
    (fun m => m.players.length < 4294967296 ∧ ∀ p ∈ m.players, p.nickname.length < 4294967296)
    (fun m => ⟨m.players.map fun p => { p with nickname := Text.narrow p.nickname }⟩) :=
  (Player.exact.list _ _).as fun _ => rfl

theorem BallState.exact : BallState.layout.Exact (fun _ => True) id :=
  (((exact_word _).and ((exact_word _).and ((Vector3.exact _).and
    (Quaternion.exact _)))).as fun _ => rfl).congr fun _ => by simp

theorem ClientConnected.exact :
    ClientConnected.layout.Exact (fun m => m.player.nickname.length < 4294967296)
      (fun m => ⟨{ m.player with nickname := Text.narrow m.player.nickname }⟩) :=
  Player.exact.as fun _ => rfl

theorem ClientDisconnected.exact : ClientDisconnected.layout.Exact (fun _ => True) id :=
  (exact_word _).as fun _ => rfl

theorem CheatState.exact : CheatState.layout.Exact (fun _ => True) id :=
  (((exact_word _).and (exact_byte _)).as fun _ => rfl).congr fun _ => by simp

theorem LevelFinish.exact : LevelFinish.layout.Exact (fun _ => True) id :=
  (((exact_word _).and ((exact_int _).and ((exact_int _).and ((exact_int _).and
    ((exact_int _).and ((exact_single _).and ((exact_int _).and ((exact_int _).and
    (exact_byte _))))))))).as fun _ => rfl).congr fun _ => by simp

/-! ## What a message carries -/

namespace Message

/-- The texts of a message. -/
def texts : Message → List String
  | orderChat m => [m.content]
  | chat m => [m.content]
  | clientList m => m.players.map (·.nickname)
  | clientConnected m => [m.player.nickname]
  | _ => []

/-- The players that a message counts. -/
def listed : Message → List Player
  | clientList m => m.players
  | _ => []

/-- Every length that the message has to announce fits its four bytes. -/
def Fits (m : Message) : Prop :=
  (∀ s ∈ m.texts, s.length < 4294967296) ∧ m.listed.length < 4294967296

/-- A byte per character carries every text of the message. -/
def IsSingleByte (m : Message) : Prop :=
  ∀ s ∈ m.texts, Text.IsSingleByte s

theorem fits_iff_of_no_text {m : Message} (htexts : m.texts = []) (hlisted : m.listed = []) :
    m.Fits ↔ True := by
  simp [Fits, htexts, hlisted]

theorem fits_iff_of_text {m : Message} {s : String} (htexts : m.texts = [s])
    (hlisted : m.listed = []) : m.Fits ↔ s.length < 4294967296 := by
  simp [Fits, htexts, hlisted]

theorem fits_clientList_iff {m : ClientList} : (clientList m).Fits ↔
    m.players.length < 4294967296 ∧ ∀ p ∈ m.players, p.nickname.length < 4294967296 := by
  rw [Fits, and_comm, texts, List.forall_mem_map, listed]

end Message

open Message in
/-- Each payload has the law, and arrives as the message around it does. -/
theorem Opcode.exists_exact (op : Opcode) :
    ∃ arrives, op.layout.Exact (fun p => (Message.ofPayload op p).Fits) arrives ∧
      ∀ p, Message.ofPayload op (arrives p) = (Message.ofPayload op p).narrow := by
  cases op with
  | orderChat => exact ⟨_, OrderChat.exact.congr fun _ => fits_iff_of_text rfl rfl, fun _ => rfl⟩
  | chat => exact ⟨_, Chat.exact.congr fun _ => fits_iff_of_text rfl rfl, fun _ => rfl⟩
  | orderGlobalCheat =>
    exact ⟨_, OrderGlobalCheat.exact.congr fun _ => fits_iff_of_no_text rfl rfl, fun _ => rfl⟩
  | orderClientList =>
    exact ⟨_, OrderClientList.exact.congr fun _ => fits_iff_of_no_text rfl rfl, fun _ => rfl⟩
  | clientList => exact ⟨_, ClientList.exact.congr fun _ => fits_clientList_iff, fun _ => rfl⟩
  | ballState => exact ⟨_, BallState.exact.congr fun _ => fits_iff_of_no_text rfl rfl, fun _ => rfl⟩
  | clientConnected =>
    exact ⟨_, ClientConnected.exact.congr fun _ => fits_iff_of_text rfl rfl, fun _ => rfl⟩
  | clientDisconnected =>
    exact ⟨_, ClientDisconnected.exact.congr fun _ => fits_iff_of_no_text rfl rfl, fun _ => rfl⟩
  | cheatState =>
    exact ⟨_, CheatState.exact.congr fun _ => fits_iff_of_no_text rfl rfl, fun _ => rfl⟩
  | globalCheat =>
    exact ⟨_, GlobalCheat.exact.congr fun _ => fits_iff_of_no_text rfl rfl, fun _ => rfl⟩
  | levelFinish =>
    exact ⟨_, LevelFinish.exact.congr fun _ => fits_iff_of_no_text rfl rfl, fun _ => rfl⟩

/-! ## Messages -/

namespace Message

theorem exists_ofPayload (m : Message) : ∃ op p, m = ofPayload op p :=
  ⟨m.opcode, m.payload, (ofPayload_payload m).symm⟩

theorem encode_ofPayload (op : Opcode) (p : op.Payload) :
    (ofPayload op p).encode = Word.toBytes op.tag ++ op.layout.write p := by
  cases op <;> rfl

theorem encode_chat (content : String) (playerId : UInt32) :
    (chat ⟨content, playerId⟩).encode = Word.toBytes 2 ++
      (Word.toBytes (UInt32.ofNat content.length) ++ Text.encode content) ++
      Word.toBytes playerId := by
  refine (encode_ofPayload .chat _).trans ?_
  show _ ++ (OrderChat.layout.and (Layout.word _)).write (⟨content⟩, playerId) = _
  rw [write_and, OrderChat.layout, write_as, write_text, write_word, List.append_assoc,
    List.append_assoc]
  rfl

theorem encode_chat_inj {s t : String} {playerId : UInt32} :
    (chat ⟨s, playerId⟩).encode = (chat ⟨t, playerId⟩).encode ↔ Text.encode s = Text.encode t := by
  rw [encode_chat, encode_chat]
  constructor
  · intro h
    have htext := (List.append_inj (List.append_inj' h rfl).1 rfl).2
    exact (List.append_inj htext rfl).2
  · intro h
    have hlength := congrArg List.length h
    rw [Text.length_encode, Text.length_encode] at hlength
    rw [h, hlength]

theorem write_player (p : Player) :
    Player.layout.write p = Word.toBytes p.id ++
      (Word.toBytes (UInt32.ofNat p.nickname.length) ++ Text.encode p.nickname ++ [p.cheated]) := by
  rw [Player.layout, write_as, write_and, write_and, write_word, write_text]
  rfl

theorem encode_clientList (list : ClientList) :
    (clientList list).encode = Word.toBytes 5 ++
      (Word.toBytes (UInt32.ofNat list.players.length) ++
        list.players.flatMap Player.layout.write) := by
  refine (encode_ofPayload .clientList _).trans ?_
  show _ ++ (Layout.list _ Player.minSize Player.layout).write list.players = _
  rw [write_list]
  rfl

theorem read_encode {m : Message} (h : m.Fits) (n : Nat) (rest : Bytes) :
    read ⟨n, m.encode ++ rest⟩ = (.ok m.narrow, ⟨n + m.encode.length, rest⟩) := by
  obtain ⟨op, p, rfl⟩ := exists_ofPayload m
  obtain ⟨arrives, hop, harrives⟩ := op.exists_exact
  rw [encode_ofPayload, List.append_assoc, ← harrives]
  refine (Read.bind_of_ok (Read.word_toBytes _ _ n _)).trans ?_
  rw [Opcode.ofTag?_tag]
  refine Read.map_eq_ok_iff.mpr ⟨arrives p, ?_, rfl⟩
  rw [hop.read_write p h, List.length_append, Word.length_toBytes, Nat.add_assoc]

theorem decode_encode_of_fits {m : Message} (h : m.Fits) (rest : Bytes) :
    decode (m.encode ++ rest) = .ok m.narrow :=
  congrArg Prod.fst (read_encode h 0 rest)

theorem encode_read {m : Message} {c d : Cursor} (h : read c = (.ok m, d)) :
    m.narrow = m ∧ c.rest = m.encode ++ d.rest ∧ d.position = c.position + m.encode.length := by
  obtain ⟨tag, e, htag, h⟩ := Read.bind_eq_ok_iff.mp h
  obtain ⟨hrest, hpos⟩ := Read.word_eq_ok htag
  cases hop : Opcode.ofTag? tag with
  | none =>
    rw [hop] at h
    cases h
  | some op =>
    rw [hop] at h
    obtain ⟨arrives, hexact, harrives⟩ := op.exists_exact
    obtain ⟨p, hp, rfl⟩ := Read.map_eq_ok_iff.mp h
    obtain ⟨hp', hprest, hppos⟩ := hexact.write_read _ _ _ hp
    rw [encode_ofPayload, Opcode.ofTag?_eq_some_iff.mp hop, ← harrives, hp']
    refine ⟨rfl, ?_, ?_⟩
    · rw [hrest, hprest, List.append_assoc]
    · rw [hppos, hpos, List.length_append, Word.length_toBytes, Nat.add_assoc]

theorem encode_narrow (m : Message) : m.narrow.encode = m.encode := by
  obtain ⟨op, p, rfl⟩ := exists_ofPayload m
  obtain ⟨arrives, hop, harrives⟩ := op.exists_exact
  rw [← harrives, encode_ofPayload, encode_ofPayload, hop.write_arrives]

theorem narrow_eq_self_iff {m : Message} : m.narrow = m ↔ m.IsSingleByte := by
  unfold IsSingleByte
  simp only [← Text.narrow_eq_self_iff]
  cases m with
  | orderChat m => cases m; simp [narrow, texts]
  | chat m => cases m; simp [narrow, texts]
  | clientList m =>
    obtain ⟨players⟩ := m
    have hmap : (players.map fun p => { p with nickname := Text.narrow p.nickname }) = players ↔
        ∀ p ∈ players, Text.narrow p.nickname = p.nickname := by
      conv => lhs; rhs; rw [← List.map_id players]
      rw [List.map_inj_left]
      exact forall₂_congr fun p _ => by cases p; simp
    simpa [narrow, texts] using hmap
  | clientConnected m => obtain ⟨⟨_, _, _⟩⟩ := m; simp [narrow, texts]
  | _ => simp [narrow, texts]

/-- The bytes that decoding passes. -/
def consumed (bytes : Bytes) : Bytes :=
  bytes.take (read (.start bytes)).2.position

theorem read_start_of_decode {bytes : Bytes} {m : Message} (h : decode bytes = .ok m) :
    read (.start bytes) = (.ok m, (read (.start bytes)).2) :=
  Prod.ext h rfl

theorem encode_prefix_of_decode {bytes : Bytes} {m : Message} (h : decode bytes = .ok m) :
    m.encode <+: bytes := by
  obtain ⟨-, hrest, -⟩ := encode_read (read_start_of_decode h)
  exact ⟨_, hrest.symm⟩

theorem consumed_of_decode {bytes : Bytes} {m : Message} (h : decode bytes = .ok m) :
    consumed bytes = m.encode := by
  obtain ⟨-, -, hpos⟩ := encode_read (read_start_of_decode h)
  have hpos' : (read (.start bytes)).2.position = m.encode.length := hpos.trans (Nat.zero_add _)
  rw [consumed, hpos']
  exact (List.prefix_iff_eq_take.mp (encode_prefix_of_decode h)).symm

theorem isSingleByte_of_decode {bytes : Bytes} {m : Message} (h : decode bytes = .ok m) :
    m.IsSingleByte :=
  narrow_eq_self_iff.mp (encode_read (read_start_of_decode h)).1

/-- Decoding undoes encoding, whatever follows the message: characters without a byte have become
`?`, and the bytes show no trace of that. -/
theorem decode_encode_append (m : Message) (h : m.Fits) (rest : Bytes) :
    decode (m.encode ++ rest) = .ok m.narrow ∧
      (m.IsSingleByte → decode (m.encode ++ rest) = .ok m) ∧ m.narrow.encode = m.encode := by
  have hread : decode (m.encode ++ rest) = .ok m.narrow :=
    congrArg Prod.fst (read_encode h 0 rest)
  refine ⟨hread, fun hm => ?_, encode_narrow m⟩
  rw [hread, narrow_eq_self_iff.mpr hm]

/-- Encoding undoes decoding: a message that has been decoded is written with the bytes that
decoding has passed, so no two of them are read as one message. -/
theorem encode_of_decode {bytes : Bytes} {m : Message} (h : decode bytes = .ok m) :
    m.IsSingleByte ∧ m.encode <+: bytes ∧ consumed bytes = m.encode ∧
      ∀ bytes', decode bytes' = .ok m → consumed bytes' = consumed bytes := by
  refine ⟨isSingleByte_of_decode h, encode_prefix_of_decode h, consumed_of_decode h, ?_⟩
  intro bytes' h'
  rw [consumed_of_decode h, consumed_of_decode h']

/-- A nickname with a character above `U+00FF`, an empty one, and two bytes that are no field. -/
theorem decode_encode_append_clientList :
    Fits (.clientList ⟨[⟨7, "Zoë€", 1⟩, ⟨4294967295, "", 0⟩]⟩) ∧
      decode (encode (.clientList ⟨[⟨7, "Zoë€", 1⟩, ⟨4294967295, "", 0⟩]⟩) ++ [5, 0]) =
        .ok (.clientList ⟨[⟨7, "Zoë?", 1⟩, ⟨4294967295, "", 0⟩]⟩) := by
  have hfits : Fits (.clientList ⟨[⟨7, "Zoë€", 1⟩, ⟨4294967295, "", 0⟩]⟩) := by
    constructor
    · decide
    · decide
  exact ⟨hfits, (decode_encode_append _ hfits [5, 0]).1⟩

/-- A list of one player with a byte above 127 in the nickname, and a byte that is no field. -/
theorem encode_of_decode_clientList :
    decode [5, 0, 0, 0, 1, 0, 0, 0, 255, 255, 255, 255, 2, 0, 0, 0, 90, 235, 1, 77] =
        .ok (.clientList ⟨[⟨4294967295, "Zë", 1⟩]⟩) ∧
      IsSingleByte (.clientList ⟨[⟨4294967295, "Zë", 1⟩]⟩) ∧
      encode (.clientList ⟨[⟨4294967295, "Zë", 1⟩]⟩) <+:
        [5, 0, 0, 0, 1, 0, 0, 0, 255, 255, 255, 255, 2, 0, 0, 0, 90, 235, 1, 77] := by
  have h : decode [5, 0, 0, 0, 1, 0, 0, 0, 255, 255, 255, 255, 2, 0, 0, 0, 90, 235, 1, 77] =
      .ok (.clientList ⟨[⟨4294967295, "Zë", 1⟩]⟩) := rfl
  obtain ⟨hsingle, hprefix, -⟩ := encode_of_decode h
  exact ⟨h, hsingle, hprefix⟩

end Message

end RaceSteward
