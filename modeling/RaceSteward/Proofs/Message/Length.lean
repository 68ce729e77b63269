import RaceSteward.Proofs.Message.RoundTrip

/-!
# The length of messages

Every text and every player of a message takes bytes of its encoding. So a message whose encoding
has a length of four bytes announces no length that does not fit, and arrives
(`Message.fits_of_length_encode`).
-/

namespace RaceSteward

open Layout

theorem Player.length_write (p : Player) :
    (Player.layout.write p).length = minSize + p.nickname.length := by
  rw [Player.layout, write_as, write_and, write_and, write_word, List.length_append,
    List.length_append, Word.length_toBytes, length_write_text]
  show 4 + (4 + p.nickname.length + 1) = 9 + p.nickname.length
  omega

theorem Player.minSize_mul_le (players : List Player) :
    minSize * players.length ≤ (players.flatMap Player.layout.write).length := by
  induction players with
  | nil => exact Nat.le_refl 0
  | cons p players ih =>
    rw [List.flatMap_cons, List.length_append, List.length_cons, Player.length_write, Nat.mul_succ]
    omega

theorem Player.length_le_length_flatMap_write (players : List Player) :
    players.length ≤ (players.flatMap Player.layout.write).length := by
  have hsize : 0 < minSize := by decide
  exact Nat.le_trans (Nat.le_mul_of_pos_left _ hsize) (minSize_mul_le players)

theorem Player.length_nickname_le {players : List Player} {p : Player} (h : p ∈ players) :
    p.nickname.length ≤ (players.flatMap Player.layout.write).length := by
  have hwrite := List.mem_map_of_mem (f := Player.layout.write) h
  have hle := (List.sublist_flatten_of_mem hwrite).length_le
  rw [Player.length_write, ← List.flatMap_def] at hle
  omega

namespace Message

theorem length_encode_ofPayload (op : Opcode) (p : op.Payload) :
    (ofPayload op p).encode.length = 4 + (op.layout.write p).length := by
  rw [encode_ofPayload, List.length_append, Word.length_toBytes]

theorem length_encode_orderChat (m : OrderChat) :
    (orderChat m).encode.length = 8 + m.content.length := by
  refine (length_encode_ofPayload .orderChat m).trans ?_
  show 4 + ((Layout.text _).write m.content).length = _
  rw [length_write_text]
  omega

theorem length_encode_chat (m : Chat) : (chat m).encode.length = 12 + m.content.length := by
  refine (length_encode_ofPayload .chat m).trans ?_
  show 4 + ((OrderChat.layout.and (Layout.word _)).write (⟨m.content⟩, m.playerId)).length = _
  rw [write_and, List.length_append, OrderChat.layout, write_as, length_write_text, write_word,
    Word.length_toBytes]
  show 4 + (4 + m.content.length + 4) = _
  omega

theorem length_encode_clientList (m : ClientList) :
    (clientList m).encode.length = 8 + (m.players.flatMap Player.layout.write).length := by
  refine (length_encode_ofPayload .clientList m).trans ?_
  show 4 + ((Layout.list _ Player.minSize Player.layout).write m.players).length = _
  rw [write_list, List.length_append, Word.length_toBytes]
  omega

theorem length_encode_clientConnected (m : ClientConnected) :
    (clientConnected m).encode.length = 4 + Player.minSize + m.player.nickname.length := by
  refine (length_encode_ofPayload .clientConnected m).trans ?_
  show 4 + (Player.layout.write m.player).length = _
  rw [Player.length_write, Nat.add_assoc]

theorem length_le_of_mem_texts {m : Message} {s : String} (h : s ∈ m.texts) :
    s.length ≤ m.encode.length := by
  cases m with
  | orderChat m =>
    rw [List.mem_singleton.mp h, length_encode_orderChat]
    exact Nat.le_add_left ..
  | chat m =>
    rw [List.mem_singleton.mp h, length_encode_chat]
    exact Nat.le_add_left ..
  | clientList m =>
    obtain ⟨p, hp, rfl⟩ := List.mem_map.mp h
    rw [length_encode_clientList]
    exact Nat.le_trans (Player.length_nickname_le hp) (Nat.le_add_left ..)
  | clientConnected m =>
    rw [List.mem_singleton.mp h, length_encode_clientConnected]
    exact Nat.le_add_left ..
  | _ => cases h

theorem length_listed_le (m : Message) : m.listed.length ≤ m.encode.length := by
  cases m with
  | clientList m =>
    rw [length_encode_clientList]
    exact Nat.le_trans (Player.length_le_length_flatMap_write _) (Nat.le_add_left ..)
  | _ => exact Nat.zero_le _

theorem fits_of_length_encode {m : Message} (h : m.encode.length < 4294967296) : m.Fits :=
  ⟨fun _ hs => Nat.lt_of_le_of_lt (length_le_of_mem_texts hs) h,
    Nat.lt_of_le_of_lt m.length_listed_le h⟩

end Message

end RaceSteward
