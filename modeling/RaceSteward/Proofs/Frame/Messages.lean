import RaceSteward.Proofs.Frame.Conveys
import RaceSteward.Proofs.Frame.Split
import RaceSteward.Proofs.Message.Length

/-!
# The frames of messages

Messages are written one frame after another. A reader of these frames, of all of them or of any
beginning of them, gets the messages whose frames are whole, narrowed to characters with a byte, and
nothing of the frame that is cut.

* `Frame.conveys_ofMessages`: the frames of messages convey the messages.
* `Frame.incomplete_of_append`: the beginning of a frame is no frame and no refused header.
* `Frame.split_ofMessages`: what a reader makes of whole frames and the beginning of one more.
-/

namespace RaceSteward.Frame

/-- The frames of messages, one after another. -/
def ofMessages (messages : List Message) : Bytes :=
  messages.flatMap fun m => encode m.encode

variable {limit : UInt32} {messages : List Message}

theorem ofMessages_append (before after : List Message) :
    ofMessages (before ++ after) = ofMessages before ++ ofMessages after :=
  List.flatMap_append

theorem ofMessages_concat (messages : List Message) (m : Message) :
    ofMessages (messages ++ [m]) = ofMessages messages ++ encode m.encode := by
  rw [ofMessages_append]
  exact congrArg (ofMessages messages ++ ·) (List.append_nil _)

theorem ofMessages_prefix {before : List Message} (h : before <+: messages) :
    ofMessages before <+: ofMessages messages := by
  obtain ⟨after, rfl⟩ := h
  rw [ofMessages_append]
  exact List.prefix_append _ _

theorem decode_encode_of_lt {m : Message} (h : m.encode.length < limit.toNat) :
    Message.decode m.encode = .ok m.narrow := by
  have hfits : m.Fits := Message.fits_of_length_encode (Nat.lt_trans h limit.toNat_lt)
  have hdecode := Message.decode_encode_of_fits hfits []
  rw [List.append_nil] at hdecode
  exact hdecode

theorem conveys_ofMessages (h : ∀ m ∈ messages, m.encode.length < limit.toNat) :
    Conveys limit (ofMessages messages) (messages.map .narrow) [] := by
  induction messages with
  | nil => exact conveys_nil limit []
  | cons m messages ih =>
    obtain ⟨hm, hmessages⟩ := List.forall_mem_cons.mp h
    exact (ih hmessages).cons hm (decode_encode_of_lt hm)

/-! ## A frame that is cut -/

theorem encode_ne_nil (payload : Bytes) : encode payload ≠ [] := by
  intro h
  have hlength := congrArg List.length h
  rw [encode, List.length_append, Word.length_toBytes, List.length_nil] at hlength
  omega

/-- What comes before the last bytes of a frame below the limit is part of a header, or a header with
part of its payload. -/
theorem incomplete_of_append {payload part rest : Bytes} (h : encode payload = part ++ rest)
    (hrest : rest ≠ []) (hlimit : payload.length < limit.toNat) : Incomplete limit part := by
  rcases Word.front_cases part with hshort | ⟨length, more, rfl⟩
  · exact .inl hshort
  · rw [encode, List.append_assoc] at h
    obtain ⟨hheader, hpayload⟩ := List.append_inj h rfl
    have hlength : length.toNat = payload.length := by
      rw [← Word.toBytes_inj.mp hheader, UInt32.toNat_ofNat']
      have := limit.toNat_lt
      omega
    have hmore : more.length + rest.length = payload.length := by
      rw [hpayload, List.length_append]
    have hpos := List.length_pos_iff.mpr hrest
    refine .inr ⟨length, more, rfl, ?_, by omega⟩
    rw [UInt32.lt_iff_toNat_lt, hlength]
    exact hlimit

theorem split_ofMessages {part : Bytes} (h : ∀ m ∈ messages, m.encode.length < limit.toNat)
    (hpart : Incomplete limit part) :
    split limit (ofMessages messages ++ part) =
      ⟨messages.map (·.encode), .receiveFailed .unexpectedEof, part, none⟩ := by
  have hframes : ofMessages messages = (messages.map (·.encode)).flatMap encode :=
    (List.flatMap_map ..).symm
  have hbelow : ∀ p ∈ messages.map (·.encode), p.length < limit.toNat := List.forall_mem_map.mpr h
  rw [hframes, split_append hbelow, split_of_incomplete hpart, List.append_nil]

end RaceSteward.Frame
