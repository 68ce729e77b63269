import RaceSteward.Frame

/-!
# The front of a stream, exactly

What `Frame.next` answers says what the stream looks like, and the other way round.

* `Frame.next_eq_whole_iff`, `Frame.next_eq_tooLarge_iff`, `Frame.next_eq_incomplete_iff`: one
  equivalence for each answer.
-/

namespace RaceSteward.Frame

/-- Part of a header, or a header below the limit with part of its payload. -/
def Incomplete (limit : UInt32) (stream : Bytes) : Prop :=
  stream.length < 4 ∨ ∃ length rest, stream = Word.toBytes length ++ rest ∧ length < limit ∧
    rest.length < length.toNat

theorem next_of_short {limit : UInt32} {stream : Bytes} (h : stream.length < 4) :
    next limit stream = .incomplete := by
  match stream with
  | [] | [_] | [_, _] | [_, _, _] => rfl
  | a :: b :: c :: d :: rest =>
    simp only [List.length_cons] at h
    omega

theorem toBytes_length_eq {length : UInt32} {payload : Bytes}
    (h : payload.length = length.toNat) : Word.toBytes length ++ payload = encode payload := by
  rw [encode, h, UInt32.ofNat_toNat]

theorem next_eq_whole_iff {limit : UInt32} {stream payload rest : Bytes} :
    next limit stream = .whole payload rest ↔
      stream = encode payload ++ rest ∧ payload.length < limit.toNat := by
  constructor
  · intro h
    rcases Word.front_cases stream with hshort | ⟨length, more, rfl⟩
    · rw [next_of_short hshort] at h
      cases h
    · rw [next_header] at h
      split at h
      · cases h
      · rename_i hlimit
        split at h
        · rename_i htake
          cases h
          constructor
          · rw [← toBytes_length_eq htake, List.append_assoc, List.take_append_drop]
          · rw [htake]
            rw [UInt32.le_iff_toNat_le] at hlimit
            omega
        · cases h
  · rintro ⟨rfl, hlength⟩
    exact next_encode hlength rest

theorem next_eq_tooLarge_iff {limit length : UInt32} {stream unread : Bytes} :
    next limit stream = .tooLarge length unread ↔
      stream = Word.toBytes length ++ unread ∧ limit ≤ length := by
  constructor
  · intro h
    rcases Word.front_cases stream with hshort | ⟨declared, more, rfl⟩
    · rw [next_of_short hshort] at h
      cases h
    · rw [next_header] at h
      split at h
      · rename_i hlimit
        cases h
        exact ⟨rfl, hlimit⟩
      · split at h <;> cases h
  · rintro ⟨rfl, hlimit⟩
    rw [next_header, if_pos hlimit]

theorem next_eq_incomplete_iff {limit : UInt32} {stream : Bytes} :
    next limit stream = .incomplete ↔ Incomplete limit stream := by
  constructor
  · intro h
    rcases Word.front_cases stream with hshort | ⟨length, rest, rfl⟩
    · exact .inl hshort
    · rw [next_header] at h
      split at h
      · cases h
      · rename_i hlimit
        split at h
        · cases h
        · rename_i htake
          rw [List.length_take] at htake
          exact .inr ⟨length, rest, rfl, UInt32.not_le.mp hlimit, by omega⟩
  · rintro (hshort | ⟨length, rest, rfl, hlimit, hrest⟩)
    · exact next_of_short hshort
    · have htake : (rest.take length.toNat).length ≠ length.toNat := by
        rw [List.length_take]
        omega
      rw [next_header, if_neg (UInt32.not_le.mpr hlimit), if_neg htake]

end RaceSteward.Frame
