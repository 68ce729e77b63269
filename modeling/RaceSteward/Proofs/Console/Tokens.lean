import RaceSteward.Console.Command

/-!
# Tokens are the longest runs

`Runs s words`: `s` consists of the words in order and of spaces, the words have no space in them, and
at least one space stands between two of them. So the words are the longest runs of characters other
than the space. A text has exactly one list of them.

* `runs_eq_iff`, `tokens_eq_iff`: the tokens of a line are its longest runs.
* `runs_eq_filter_splitOn`: they are what lies between spaces, without the empty pieces.
-/

namespace RaceSteward.Console

/-- The longest runs of characters other than the space, in order. -/
inductive Runs : List Char → List (List Char) → Prop where
  | blank {gap : List Char} (hgap : ∀ c ∈ gap, c = ' ') : Runs gap []
  /-- A run begins behind spaces, if any, and ends where the text ends or a space follows. -/
  | word {gap word rest : List Char} {words : List (List Char)} (hgap : ∀ c ∈ gap, c = ' ')
    (hne : word ≠ []) (hword : ' ' ∉ word) (hend : ∀ c ∈ rest.head?, c = ' ')
    (hrest : Runs rest words) : Runs (gap ++ (word ++ rest)) (word :: words)

theorem Runs.blank_cons {s : List Char} {words : List (List Char)} (h : Runs s words) :
    Runs (' ' :: s) words := by
  cases h with
  | blank hgap => exact .blank (List.forall_mem_cons.mpr ⟨rfl, hgap⟩)
  | @word gap _ _ _ hgap hne hword hend hrest =>
    have hgap' : ∀ c ∈ ' ' :: gap, c = ' ' := List.forall_mem_cons.mpr ⟨rfl, hgap⟩
    exact .word hgap' hne hword hend hrest

theorem Runs.append_front {word rest : List Char} {words : List (List Char)}
    (hrest : Runs rest words) (hword : ' ' ∉ word) (hend : ∀ c ∈ rest.head?, c = ' ') :
    Runs (word ++ rest) (if word.isEmpty then words else word :: words) := by
  cases word with
  | nil => exact hrest
  | cons c word =>
    have hgap : ∀ c ∈ ([] : List Char), c = ' ' := nofun
    exact .word hgap (List.cons_ne_nil c word) hword hend hrest

/-! ## Cutting -/

/-- The runs of a text that has been cut. -/
def runs (s : List Char) : List (List Char) :=
  if (cut s).1.isEmpty then (cut s).2 else (cut s).1 :: (cut s).2

theorem tokens_eq_map_runs (line : String) : tokens line = (runs line.toList).map String.ofList :=
  rfl

theorem cut_blank_cons (s : List Char) : cut (' ' :: s) = ([], runs s) := by
  show (if ' ' = ' ' then ([], runs s) else (' ' :: (cut s).1, (cut s).2)) = _
  exact if_pos rfl

theorem cut_cons_of_ne {c : Char} (h : c ≠ ' ') (s : List Char) :
    cut (c :: s) = (c :: (cut s).1, (cut s).2) := by
  show (if c = ' ' then ([], runs s) else (c :: (cut s).1, (cut s).2)) = _
  exact if_neg h

theorem runs_blank_cons (s : List Char) : runs (' ' :: s) = runs s := by
  rw [runs, cut_blank_cons]
  rfl

theorem runs_blank_append {gap : List Char} (h : ∀ c ∈ gap, c = ' ') (s : List Char) :
    runs (gap ++ s) = runs s := by
  induction gap with
  | nil => rfl
  | cons c gap ih =>
    obtain ⟨rfl, hgap⟩ := List.forall_mem_cons.mp h
    exact (runs_blank_cons _).trans (ih hgap)

theorem cut_of_head {s : List Char} (h : ∀ c ∈ s.head?, c = ' ') : cut s = ([], runs s) := by
  cases s with
  | nil => rfl
  | cons c s =>
    obtain rfl : c = ' ' := h c rfl
    rw [cut_blank_cons, runs_blank_cons]

theorem cut_word_append {word rest : List Char} (hword : ' ' ∉ word)
    (hend : ∀ c ∈ rest.head?, c = ' ') : cut (word ++ rest) = (word, runs rest) := by
  induction word with
  | nil => exact cut_of_head hend
  | cons c word ih =>
    rw [List.mem_cons, not_or] at hword
    rw [List.cons_append, cut_cons_of_ne (Ne.symm hword.1), ih hword.2]

theorem runs_word_append {word rest : List Char} (hne : word ≠ []) (hword : ' ' ∉ word)
    (hend : ∀ c ∈ rest.head?, c = ' ') : runs (word ++ rest) = word :: runs rest := by
  rw [runs, cut_word_append hword hend]
  exact if_neg (fun h => hne (List.isEmpty_iff.mp h))

theorem cut_front (s : List Char) :
    ' ' ∉ (cut s).1 ∧ ∃ rest, s = (cut s).1 ++ rest ∧ (∀ c ∈ rest.head?, c = ' ') ∧
      Runs rest (cut s).2 := by
  induction s with
  | nil => exact ⟨List.not_mem_nil, [], rfl, nofun, .blank nofun⟩
  | cons c s ih =>
    obtain ⟨hrun, rest, hs, hend, hrest⟩ := ih
    by_cases hc : c = ' '
    · subst hc
      have hruns : Runs s (runs s) := by
        have hfront := hrest.append_front hrun hend
        rwa [← hs] at hfront
      rw [cut_blank_cons]
      exact ⟨List.not_mem_nil, _, rfl, fun c hc => (Option.some.inj hc).symm, hruns.blank_cons⟩
    · rw [cut_cons_of_ne hc]
      refine ⟨?_, rest, congrArg (c :: ·) hs, hend, hrest⟩
      rw [List.mem_cons, not_or]
      exact ⟨Ne.symm hc, hrun⟩

/-! ## Longest runs -/

theorem runs_eq_iff {s : List Char} {words : List (List Char)} : runs s = words ↔ Runs s words := by
  constructor
  · rintro rfl
    obtain ⟨hrun, rest, hs, hend, hrest⟩ := cut_front s
    have hfront := hrest.append_front hrun hend
    rwa [← hs] at hfront
  · intro h
    induction h with
    | @blank gap hgap =>
      have hnil := runs_blank_append hgap []
      rwa [List.append_nil] at hnil
    | word hgap hne hword hend _ ih => rw [runs_blank_append hgap, runs_word_append hne hword hend, ih]

/-- The words of a line: its longest runs of characters other than the space. -/
def IsWords (line : String) (words : List String) : Prop :=
  Runs line.toList (words.map String.toList)

theorem tokens_eq_iff {line : String} {words : List String} :
    tokens line = words ↔ IsWords line words := by
  rw [IsWords, ← runs_eq_iff, tokens_eq_map_runs]
  constructor
  · rintro rfl
    simp [Function.comp_def]
  · intro h
    rw [h]
    simp [Function.comp_def]

theorem Runs.of_mem {s : List Char} {words : List (List Char)} (h : Runs s words) :
    ∀ word ∈ words, word ≠ [] ∧ ' ' ∉ word := by
  induction h with
  | blank _ => exact nofun
  | word _ hne hword _ _ ih => exact List.forall_mem_cons.mpr ⟨⟨hne, hword⟩, ih⟩

theorem of_mem_tokens {line word : String} (h : word ∈ tokens line) :
    word ≠ "" ∧ ' ' ∉ word.toList := by
  obtain ⟨hne, hblank⟩ := (tokens_eq_iff.mp rfl).of_mem _ (List.mem_map_of_mem h)
  exact ⟨fun hempty => hne (by rw [hempty]; rfl), hblank⟩

/-! ## Splitting at spaces -/

theorem filter_cut_cons (s : List Char) {pieces : List (List Char)}
    (h : pieces.filter (· ≠ []) = (cut s).2) :
    ((cut s).1 :: pieces).filter (· ≠ []) = runs s := by
  rw [List.filter_cons, h, runs]
  cases (cut s).1 <;> rfl

/-- The pieces between spaces begin with the run that is cut off; those that follow are the other runs
and one empty piece for each space too many. -/
theorem exists_splitOn_eq_cut (s : List Char) :
    ∃ pieces, s.splitOn ' ' = (cut s).1 :: pieces ∧ pieces.filter (· ≠ []) = (cut s).2 := by
  induction s with
  | nil => exact ⟨[], rfl, rfl⟩
  | cons c s ih =>
    obtain ⟨pieces, hsplit, hpieces⟩ := ih
    by_cases hc : c = ' '
    · subst hc
      refine ⟨(cut s).1 :: pieces, ?_, ?_⟩
      · rw [List.splitOn_cons_eq_if_modifyHead, hsplit, cut_blank_cons]
        rfl
      · rw [cut_blank_cons]
        exact filter_cut_cons s hpieces
    · refine ⟨pieces, ?_, ?_⟩
      · rw [List.splitOn_cons_eq_if_modifyHead, hsplit, cut_cons_of_ne hc,
          if_neg (fun h => hc (beq_iff_eq.mp h)), List.modifyHead_cons]
      · rw [cut_cons_of_ne hc]
        exact hpieces

theorem runs_eq_filter_splitOn (s : List Char) : runs s = (s.splitOn ' ').filter (· ≠ []) := by
  obtain ⟨pieces, hsplit, hpieces⟩ := exists_splitOn_eq_cut s
  rw [hsplit, filter_cut_cons s hpieces]

end RaceSteward.Console
