import RaceSteward.Proofs.Frame.Front

/-!
# A stream is split in one way

Frames are cut off the front of a stream until that fails. What comes out is the only way to write
the stream as frames below the limit and something at which no further frame can be cut: the
beginning of a frame, or a header that is refused.

* `Frame.split_append`: frames below the limit are cut off, then what follows them is split.
* `Frame.joins_split`: the frames and the rest make up the stream.
* `Frame.split_exact`: how a stream is split, and that there is no other way.
-/

namespace RaceSteward.Frame

variable {limit : UInt32} {stream rest : Bytes}

/-! ## One step -/

theorem split_eq (limit : UInt32) (stream : Bytes) :
    split limit stream =
      match next limit stream with
      | .whole payload rest =>
        { split limit rest with payloads := payload :: (split limit rest).payloads }
      | .tooLarge length unread => ⟨[], .frameTooLarge length limit, stream, some unread⟩
      | .incomplete => ⟨[], .receiveFailed .unexpectedEof, stream, none⟩ := by
  rw [split]
  split <;> rename_i hfront <;> rw [hfront]

theorem split_of_whole {payload : Bytes} (h : next limit stream = .whole payload rest) :
    split limit stream =
      { split limit rest with payloads := payload :: (split limit rest).payloads } := by
  rw [split_eq, h]

theorem split_of_tooLarge {length : UInt32} {unread : Bytes}
    (h : next limit stream = .tooLarge length unread) :
    split limit stream = ⟨[], .frameTooLarge length limit, stream, some unread⟩ := by
  rw [split_eq, h]

theorem split_of_incomplete (h : Incomplete limit stream) :
    split limit stream = ⟨[], .receiveFailed .unexpectedEof, stream, none⟩ := by
  rw [split_eq, next_eq_incomplete_iff.mpr h]

/-! ## Whole streams -/

theorem split_append {payloads : List Bytes} (h : ∀ p ∈ payloads, p.length < limit.toNat)
    (rest : Bytes) :
    split limit (payloads.flatMap encode ++ rest) =
      { split limit rest with payloads := payloads ++ (split limit rest).payloads } := by
  induction payloads with
  | nil => rfl
  | cons p payloads ih =>
    obtain ⟨hp, hpayloads⟩ := List.forall_mem_cons.mp h
    rw [List.flatMap_cons, List.append_assoc, split_of_whole (next_encode hp _), ih hpayloads]
    rfl

/-- The stream ended between two frames or within one, and nothing was refused. -/
def Split.RanOut (limit : UInt32) (s : Split) : Prop :=
  s.stop = .receiveFailed .unexpectedEof ∧ Incomplete limit s.rest ∧ s.unread = none

/-- A header at or above the limit was refused, and what the reader left is what stands behind it. -/
def Split.Refused (limit : UInt32) (s : Split) : Prop :=
  ∃ length unread, s.stop = .frameTooLarge length limit ∧ limit ≤ length ∧
    s.rest = Word.toBytes length ++ unread ∧ s.unread = some unread

theorem Split.not_refused_of_ranOut {s : Split} (h : s.RanOut limit) : ¬ s.Refused limit := by
  rintro ⟨length, unread, hstop, -⟩
  rw [h.1] at hstop
  cases hstop

/-- A stream joins payloads and a rest: they are its frames, and no frame can be cut off the rest. -/
structure Joins (limit : UInt32) (stream : Bytes) (payloads : List Bytes) (rest : Bytes) : Prop where
  stream_eq : stream = payloads.flatMap encode ++ rest
  below : ∀ p ∈ payloads, p.length < limit.toNat
  stuck : ∀ p after, next limit rest ≠ .whole p after

theorem joins_split (limit : UInt32) (stream : Bytes) :
    Joins limit stream (split limit stream).payloads (split limit stream).rest ∧
      ((split limit stream).RanOut limit ∨ (split limit stream).Refused limit) := by
  induction hlength : stream.length using Nat.strongRecOn generalizing stream with
  | ind n ih =>
    subst hlength
    cases hfront : next limit stream with
    | whole payload rest =>
      obtain ⟨⟨hrest, hbelow, hstuck⟩, hend⟩ := ih _ (length_lt_of_next_whole hfront) rest rfl
      obtain ⟨hstream, hpayload⟩ := next_eq_whole_iff.mp hfront
      rw [split_of_whole hfront]
      refine ⟨⟨?_, List.forall_mem_cons.mpr ⟨hpayload, hbelow⟩, hstuck⟩, hend⟩
      rw [List.flatMap_cons, List.append_assoc, ← hrest, hstream]
    | tooLarge length unread =>
      obtain ⟨hstream, hlimit⟩ := next_eq_tooLarge_iff.mp hfront
      have hstuck : ∀ p after, next limit stream ≠ .whole p after := by simp [hfront]
      rw [split_of_tooLarge hfront]
      exact ⟨⟨rfl, by simp, hstuck⟩, .inr ⟨length, unread, rfl, hlimit, hstream, rfl⟩⟩
    | incomplete =>
      have hstuck : ∀ p after, next limit stream ≠ .whole p after := by simp [hfront]
      have hincomplete := next_eq_incomplete_iff.mp hfront
      rw [split_of_incomplete hincomplete]
      exact ⟨⟨rfl, by simp, hstuck⟩, .inl ⟨rfl, hincomplete, rfl⟩⟩

theorem Joins.unique {payloads : List Bytes} (h : Joins limit stream payloads rest) :
    payloads = (split limit stream).payloads ∧ rest = (split limit stream).rest := by
  have hsplit := split_append h.below rest
  have hrest : (split limit rest).payloads = [] ∧ (split limit rest).rest = rest := by
    cases hfront : next limit rest with
    | whole p after => exact absurd hfront (h.stuck p after)
    | tooLarge length unread =>
      rw [split_of_tooLarge hfront]
      exact ⟨rfl, rfl⟩
    | incomplete =>
      rw [split_of_incomplete (next_eq_incomplete_iff.mp hfront)]
      exact ⟨rfl, rfl⟩
  rw [← h.stream_eq, hrest.1, List.append_nil] at hsplit
  rw [hsplit]
  exact ⟨rfl, hrest.2.symm⟩

/-- The frames and the rest make up the stream in one way only; either the stream ran out, or a
header was refused and the reader left what is behind it. -/
theorem split_exact (limit : UInt32) (stream : Bytes) :
    Joins limit stream (split limit stream).payloads (split limit stream).rest ∧
      ((split limit stream).RanOut limit ∧ ¬ (split limit stream).Refused limit ∨
        (split limit stream).Refused limit ∧ ¬ (split limit stream).RanOut limit) ∧
      (∀ payloads rest, Joins limit stream payloads rest →
        payloads = (split limit stream).payloads ∧ rest = (split limit stream).rest) ∧
      ∀ payloads rest, (∀ p ∈ payloads, p.length < limit.toNat) →
        split limit (payloads.flatMap encode ++ rest) =
          { split limit rest with payloads := payloads ++ (split limit rest).payloads } := by
  obtain ⟨hjoins, hend⟩ := joins_split limit stream
  refine ⟨hjoins, ?_, fun _ _ => Joins.unique, fun _ rest h => split_append h rest⟩
  rcases hend with hranOut | hrefused
  · exact .inl ⟨hranOut, Split.not_refused_of_ranOut hranOut⟩
  · exact .inr ⟨hrefused, fun hranOut => Split.not_refused_of_ranOut hranOut hrefused⟩

/-- An empty frame, a frame of two bytes, and a header that declares just the limit. -/
theorem split_exact_refused :
    (∀ p ∈ ([[], [7, 8]] : List Bytes), p.length < (3 : UInt32).toNat) ∧
      split 3 [0, 0, 0, 0, 2, 0, 0, 0, 7, 8, 3, 0, 0, 0, 9] =
        ⟨[[], [7, 8]], .frameTooLarge 3 3, [3, 0, 0, 0, 9], some [9]⟩ ∧
      Joins 3 [0, 0, 0, 0, 2, 0, 0, 0, 7, 8, 3, 0, 0, 0, 9] [[], [7, 8]] [3, 0, 0, 0, 9] := by
  have hbelow : ∀ p ∈ ([[], [7, 8]] : List Bytes), p.length < (3 : UInt32).toNat := by decide
  have hsplit := (split_exact 3 []).2.2.2 [[], [7, 8]] [3, 0, 0, 0, 9] hbelow
  have hrefused : next 3 [3, 0, 0, 0, 9] = .tooLarge 3 [9] := rfl
  rw [split_of_tooLarge hrefused] at hsplit
  have hjoins := (split_exact 3 [0, 0, 0, 0, 2, 0, 0, 0, 7, 8, 3, 0, 0, 0, 9]).1
  have hstream : split 3 [0, 0, 0, 0, 2, 0, 0, 0, 7, 8, 3, 0, 0, 0, 9] =
      ⟨[[], [7, 8]], .frameTooLarge 3 3, [3, 0, 0, 0, 9], some [9]⟩ := hsplit
  rw [hstream] at hjoins
  exact ⟨hbelow, hstream, hjoins⟩

end RaceSteward.Frame
