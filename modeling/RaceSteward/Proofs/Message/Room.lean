import Mathlib.Algebra.Order.Ring.Nat
import RaceSteward.Proofs.Message.Length

/-!
# Room for the players that a list announces

The count in front of a list is whatever the peer says, up to 4294967295. Room is made for as many
players as are announced, but for no more than the bytes that are there can hold, and the players are
then put into it one by one until one of them cannot be read.

* `Read.length_got_le`, `Read.outcome_fill_eq_ok_iff`: how far a repeated read comes.
* `Layout.Faithful.got_prefix`: all of it stands in the bytes.
* `ClientList.got_within_room`: the room holds every player that is read, whatever the count.
-/

namespace RaceSteward

namespace Read

variable {α : Type}

theorem length_got_le (r : Read α) (room n : Nat) (c : Cursor) :
    (fill r room n c).got.length ≤ n := by
  induction n generalizing c with
  | zero => exact Nat.le_refl 0
  | succ n ih =>
    rcases hr : r c with ⟨e | a, d⟩
    · rw [fill_of_error hr]
      exact Nat.zero_le _
    · rw [fill_of_ok hr]
      exact Nat.succ_le_succ (ih d)

theorem outcome_fill_eq_ok_iff (r : Read α) (room n : Nat) (c : Cursor) :
    (fill r room n c).outcome = .ok () ↔ (fill r room n c).got.length = n := by
  induction n generalizing c with
  | zero => exact iff_of_true rfl rfl
  | succ n ih =>
    rcases hr : r c with ⟨e | a, d⟩
    · rw [fill_of_error hr]
      exact iff_of_false nofun nofun
    · rw [fill_of_ok hr, List.length_cons, Nat.succ_inj]
      exact ih d

end Read

namespace Layout

variable {α : Type} {l : Layout α} {fits : α → Prop} {arrives : α → α}

/-- What a repeated read has got stands in the bytes, one value after another, also when it fails
later. -/
theorem Faithful.got_prefix (hl : l.Faithful fits arrives) (room n : Nat) (c : Cursor) :
    (Read.fill l.read room n c).got.flatMap l.write <+: c.rest := by
  -- on the reads still to do, wherever the cursor stands
  induction n generalizing c with
  | zero => exact List.nil_prefix
  | succ n ih =>
    rcases hr : l.read c with ⟨e | a, d⟩
    · rw [Read.fill_of_error hr]
      exact List.nil_prefix
    · obtain ⟨-, hrest, -⟩ := hl.write_read c a d hr
      rw [Read.fill_of_ok hr, hrest, List.flatMap_cons]
      exact (List.prefix_append_right_inj _).mpr (ih d)

end Layout

namespace ClientList

theorem read_eq_entries (count : UInt32) (n : Nat) (rest : Bytes) :
    layout.read ⟨n, Word.toBytes count ++ rest⟩ =
      ((entries count ⟨n + 4, rest⟩).outcome.map fun _ => ⟨(entries count ⟨n + 4, rest⟩).got⟩,
        (entries count ⟨n + 4, rest⟩).cursor) := by
  have hlist : (Layout.list "players.len" Player.minSize Player.layout).read
      ⟨n, Word.toBytes count ++ rest⟩ =
        ((entries count ⟨n + 4, rest⟩).outcome.map fun _ => (entries count ⟨n + 4, rest⟩).got,
          (entries count ⟨n + 4, rest⟩).cursor) :=
    Read.bind_of_ok (Read.word_toBytes _ count n rest)
  refine (Read.map_run _ _ _).trans ?_
  rw [hlist]
  cases (entries count ⟨n + 4, rest⟩).outcome <;> rfl

theorem room_entries (count : UInt32) (c : Cursor) :
    (entries count c).room = room count c.rest.length :=
  Read.room_fill ..

theorem entries_written (count : UInt32) (c : Cursor) :
    (entries count c).got.flatMap Player.layout.write <+: c.rest :=
  Player.exact.toFaithful.got_prefix ..

theorem sum_entries_le (count : UInt32) (c : Cursor) :
    ((entries count c).got.map fun p => Player.minSize + p.nickname.length).sum ≤ c.rest.length := by
  have hprefix := (entries_written count c).length_le
  rw [List.length_flatMap] at hprefix
  simp only [Player.length_write] at hprefix
  exact hprefix

theorem length_entries_le (count : UInt32) (c : Cursor) :
    (entries count c).got.length ≤ c.rest.length / Player.minSize := by
  have hsize : 0 < Player.minSize := by decide
  have hprefix := (entries_written count c).length_le
  rw [Nat.le_div_iff_mul_le hsize, Nat.mul_comm]
  exact Nat.le_trans (Player.minSize_mul_le _) hprefix

/-- A list of players costs no more than the bytes that have been sent, whatever count it announces
and whether it is read to its end or refused. -/
theorem got_within_room (count : UInt32) (n : Nat) (rest : Bytes) :
    let read := (layout.read ⟨n, Word.toBytes count ++ rest⟩).1
    let entries := entries count ⟨n + 4, rest⟩
    let most := rest.length / 9
    read = (entries.outcome.map fun _ => ⟨entries.got⟩) ∧
      (entries.got.map fun p => 9 + p.nickname.length).sum ≤ rest.length ∧
      entries.room = room count rest.length ∧
      entries.got.length ≤ most ∧ room count rest.length ≤ most ∧
      entries.got.length ≤ room count rest.length ∧
      ∀ list, read = .ok list →
        count.toNat ≤ most ∧ list.players.length = count.toNat ∧
          room count rest.length = count.toNat := by
  intro read entries most
  have hread : read = (entries.outcome.map fun _ => ⟨entries.got⟩) :=
    congrArg Prod.fst (read_eq_entries count n rest)
  have hmost : entries.got.length ≤ most := length_entries_le count _
  have hcount : entries.got.length ≤ count.toNat := Read.length_got_le ..
  refine ⟨hread, sum_entries_le count _, room_entries count _, hmost, Nat.min_le_right ..,
    Nat.le_min.mpr ⟨hcount, hmost⟩, fun list hlist => ?_⟩
  rw [hread] at hlist
  rcases houtcome : entries.outcome with e | _
  · rw [houtcome] at hlist
    cases hlist
  · rw [houtcome] at hlist
    cases hlist
    have hall : entries.got.length = count.toNat :=
      (Read.outcome_fill_eq_ok_iff ..).mp houtcome
    have hholds : count.toNat ≤ most := hall ▸ hmost
    exact ⟨hholds, hall, Nat.min_eq_left hholds⟩

/-- One player and a byte that is no field, announced as one player; and the same bytes announced as
4294967295 players, of which the second is cut. -/
theorem got_within_room_hostile :
    (layout.read ⟨4, Word.toBytes 1 ++ [7, 0, 0, 0, 2, 0, 0, 0, 90, 235, 1, 9]⟩).1 =
        .ok ⟨[⟨7, "Zë", 1⟩]⟩ ∧
      room 1 12 = 1 ∧
      (layout.read ⟨4, Word.toBytes 4294967295 ++ [7, 0, 0, 0, 2, 0, 0, 0, 90, 235, 1, 9]⟩).1 =
        .error (.truncated "player.id" 4 1) ∧
      (entries 4294967295 ⟨8, [7, 0, 0, 0, 2, 0, 0, 0, 90, 235, 1, 9]⟩).got.length ≤
        room 4294967295 12 ∧
      room 4294967295 12 = 1 ∧
      (entries 4294967295 ⟨8, [7, 0, 0, 0, 2, 0, 0, 0, 90, 235, 1, 9]⟩).room = 1 := by
  have hread : (layout.read ⟨4, Word.toBytes 1 ++ [7, 0, 0, 0, 2, 0, 0, 0, 90, 235, 1, 9]⟩).1 =
      .ok ⟨[⟨7, "Zë", 1⟩]⟩ := rfl
  obtain ⟨-, -, -, -, -, -, hwhole⟩ := got_within_room 1 4 [7, 0, 0, 0, 2, 0, 0, 0, 90, 235, 1, 9]
  obtain ⟨-, -, hmade, -, -, hroom, -⟩ :=
    got_within_room 4294967295 4 [7, 0, 0, 0, 2, 0, 0, 0, 90, 235, 1, 9]
  exact ⟨hread, (hwhole _ hread).2.2, rfl, hroom, by decide, hmade⟩

end ClientList

end RaceSteward
