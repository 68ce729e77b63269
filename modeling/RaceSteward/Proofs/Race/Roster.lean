import RaceSteward.Race.Roster

/-!
# Rosters of distinct players

The roster of a race is the list of players without the later entries of an id. It is a list with
distinct ids, so taking out an id leaves exactly the players with another one.

* `Roster.enter_empty`: entering players one after another keeps the first entry of each id.
* `Roster.players_remove`: what is left when an id is taken out.
-/

namespace RaceSteward.Race

/-! ## First occurrences -/

section Firsts

variable {α β : Type} [DecidableEq β] (key : α → β)

/-- The elements whose key no element before them has. -/
def firsts : List α → List α
  | [] => []
  | a :: l => a :: (firsts l).filter (key · ≠ key a)

@[simp] theorem firsts_nil : firsts key [] = [] := rfl

theorem firsts_append (l m : List α) :
    firsts key (l ++ m) =
      firsts key l ++ (firsts key m).filter fun b => !l.any fun a => key a = key b := by
  induction l with
  | nil => exact (List.filter_eq_self.mpr fun _ _ => rfl).symm
  | cons a l ih =>
    rw [List.cons_append, firsts, firsts, ih, List.filter_append, List.filter_filter,
      List.cons_append]
    congr 2
    apply List.filter_congr
    intro b _
    by_cases hb : key a = key b
    · simp [hb]
    · simp [hb, Ne.symm hb]

theorem firsts_concat (l : List α) (a : α) :
    firsts key (l ++ [a]) =
      if l.any fun b => key b = key a then firsts key l else firsts key l ++ [a] := by
  rw [firsts_append]
  by_cases h : l.any fun b => key b = key a
  · simp [firsts, h]
  · simp [firsts, h]

theorem pairwise_firsts (l : List α) : (firsts key l).Pairwise fun a b => key a ≠ key b := by
  induction l with
  | nil => exact List.Pairwise.nil
  | cons a l ih =>
    refine List.pairwise_cons.mpr ⟨fun b hb => ?_, ih.filter _⟩
    have hne := (List.mem_filter.mp hb).2
    exact fun h => by simp [h] at hne

end Firsts

namespace Roster

/-- The players of a list without the later entries of an id. -/
def distinct (players : List Player) : List Player :=
  firsts (·.id) players

theorem distinct_cons (p : Player) (players : List Player) :
    distinct (p :: players) = p :: (distinct players).filter (·.id ≠ p.id) := rfl

theorem pairwise_distinct (players : List Player) :
    (distinct players).Pairwise fun a b => a.id ≠ b.id :=
  pairwise_firsts _ players

theorem nodup_ids_distinct (players : List Player) :
    ((distinct players).map (·.id)).Nodup :=
  List.pairwise_map.mpr (pairwise_distinct players)

theorem mem_ids_distinct {players : List Player} {id : UInt32} :
    id ∈ (distinct players).map (·.id) ↔ id ∈ players.map (·.id) := by
  induction players with
  | nil => rfl
  | cons p players ih =>
    rw [distinct_cons, List.map_cons, List.map_cons, List.mem_cons, List.mem_cons, ← ih]
    by_cases hid : id = p.id
    · simp only [hid, true_or]
    · simp only [hid, false_or, List.mem_map, List.mem_filter, decide_eq_true_eq]
      constructor
      · rintro ⟨q, ⟨hq, -⟩, rfl⟩
        exact ⟨q, hq, rfl⟩
      · rintro ⟨q, hq, rfl⟩
        exact ⟨q, ⟨hq, hid⟩, rfl⟩

theorem players_enter (r : Roster) (players : List Player) :
    (r.enter players).players =
      r.players ++ (distinct players).filter fun p => !r.contains p.id := by
  induction players generalizing r with
  | nil => simp [enter, distinct]
  | cons p players ih =>
    change ((r.insert p).2.enter players).players = _
    rw [ih, distinct_cons, insert]
    by_cases hp : r.contains p.id
    · rw [if_pos hp, List.filter_cons_of_neg (by simp [hp]), List.filter_filter]
      congr 1
      apply List.filter_congr
      intro q _
      by_cases hq : q.id = p.id
      · simp [hq, hp]
      · simp [hq]
    · rw [if_neg hp, List.filter_cons_of_pos (by simp [hp]), List.filter_filter, List.append_assoc,
        List.singleton_append]
      congr 2
      apply List.filter_congr
      intro q _
      simp [contains, List.any_append, eq_comm, Bool.and_comm]

theorem enter_empty (players : List Player) : empty.enter players = ⟨distinct players⟩ := by
  apply congrArg Roster.mk
  exact (players_enter empty players).trans (List.filter_eq_self.mpr fun _ _ => rfl)

theorem players_remove {r : Roster} (h : r.players.Pairwise fun a b => a.id ≠ b.id)
    (id : UInt32) : (r.remove id).2.players = r.players.filter (·.id ≠ id) := by
  obtain ⟨players⟩ := r
  change players.eraseP _ = _
  induction players with
  | nil => rfl
  | cons p players ih =>
    obtain ⟨hp, hrest⟩ := List.pairwise_cons.mp h
    by_cases hid : p.id = id
    · rw [List.eraseP_cons_of_pos (by simp [hid]), List.filter_cons_of_neg (by simp [hid])]
      refine (List.filter_eq_self.mpr fun q hq => ?_).symm
      simpa [hid] using (hp q hq).symm
    · rw [List.eraseP_cons_of_neg (by simp [hid]), List.filter_cons_of_pos (by simp [hid]), ih hrest]

theorem find?_of_mem {players : List Player} (h : players.Pairwise fun a b => a.id ≠ b.id)
    {p : Player} (hp : p ∈ players) : players.find? (·.id = p.id) = some p := by
  induction players with
  | nil => cases hp
  | cons q players ih =>
    obtain ⟨hq, hrest⟩ := List.pairwise_cons.mp h
    rcases List.mem_cons.mp hp with rfl | hp
    · exact List.find?_cons_of_pos (by simp)
    · rw [List.find?_cons_of_neg (by simpa using hq p hp), ih hrest hp]

theorem id_of_get? {r : Roster} {id : UInt32} {p : Player} (h : r.get? id = some p) : p.id = id := by
  simpa using List.find?_some h

end Roster

end RaceSteward.Race
