import RaceSteward.Json.Document

/-!
# Literals that are written are read back

* `Json.text?_escape`: an escaped text ends at the quote that closes it.
* `Json.unescape?_escape`: an escaped text stands for the text.
* `Json.Numeral.parse?_ofNat`: the numeral of a number ends where something else begins.
* `Json.Numeral.toInt?_ofNat`: the numeral of a number stands for the number.
-/

namespace RaceSteward.Json

/-! ## Texts -/

theorem escapeChar_cases (c : Char) :
    (∃ letter, escapeChar c = ['\\', letter] ∧ letter ≠ 'u' ∧ letterEscape? letter = some c) ∨
    (isControl c = true ∧
      escapeChar c = ['\\', 'u', '0', '0', hexDigit (c.toNat / 16), hexDigit (c.toNat % 16)]) ∨
    (isControl c = false ∧ c ≠ '"' ∧ c ≠ '\\' ∧ escapeChar c = [c]) := by
  unfold escapeChar
  iterate 7
    split
    · subst_vars
      exact .inl ⟨_, rfl, by decide, by decide⟩
  split
  case isTrue h => exact .inr (.inl ⟨h, rfl⟩)
  case isFalse h => exact .inr (.inr ⟨Bool.eq_false_iff.mpr h, ‹_›, ‹_›, rfl⟩)

theorem hexValue?_hexDigit : ∀ n < 16, hexValue? (hexDigit n) = some n := by
  decide

theorem hexValue4?_hexDigit {n : Nat} (h : n < 32) :
    hexValue4? '0' '0' (hexDigit (n / 16)) (hexDigit (n % 16)) = some n := by
  have hzero : hexValue? '0' = some 0 := by decide
  have hhigh := hexValue?_hexDigit (n / 16) (by omega)
  have hlow := hexValue?_hexDigit (n % 16) (by omega)
  simp only [hexValue4?, hzero, hhigh, hlow, Option.bind_eq_bind, Option.bind_some]
  congr 1
  omega

/-- The piece is the character, as it stands or by the number of a control character. -/
def Piece.IsFor (p : Piece) (c : Char) : Prop :=
  p = .char c ∨ p = .unit c.toNat ∧ isControl c = true

theorem exists_pieces?_escapeChar (c : Char) :
    ∃ p : Piece, p.IsFor c ∧
      ∀ rest, pieces? (escapeChar c ++ rest) = (pieces? rest).map (p :: ·) := by
  rcases escapeChar_cases c with
    ⟨letter, hc, hu, hletter⟩ | ⟨hcontrol, hc⟩ | ⟨hcontrol, hquote, hback, hc⟩
  · refine ⟨.char c, .inl rfl, fun rest => ?_⟩
    rw [hc, List.cons_append, List.cons_append, List.nil_append, pieces?]
    · rw [hletter]
      cases pieces? rest <;> rfl
    · intro _ _ _ _ _ h
      exact absurd h hu
  · refine ⟨.unit c.toNat, .inr ⟨rfl, hcontrol⟩, fun rest => ?_⟩
    rw [hc]
    simp only [List.cons_append, List.nil_append, pieces?]
    rw [hexValue4?_hexDigit (of_decide_eq_true hcontrol)]
    cases pieces? rest <;> rfl
  · refine ⟨.char c, .inl rfl, fun rest => ?_⟩
    rw [hc, List.cons_append, List.nil_append, pieces?]
    · rw [if_neg (by simp [hcontrol, hquote])]
      cases pieces? rest <;> rfl
    all_goals simp [hback]

theorem join?_cons {p : Piece} {c : Char} (h : p.IsFor c) (rest : List Piece) :
    join? (p :: rest) = (join? rest).map (c :: ·) := by
  rcases h with rfl | ⟨rfl, hcontrol⟩
  · rfl
  · -- the number of a control character is no half of a pair
    have hlt : c.toNat < 32 := of_decide_eq_true hcontrol
    have hlead : isLeading c.toNat = false := by
      rw [isLeading]
      exact decide_eq_false (by omega)
    have htrail : isTrailing c.toNat = false := by
      rw [isTrailing]
      exact decide_eq_false (by omega)
    rcases rest with _ | ⟨_ | _, rest⟩ <;>
      simp only [join?, hlead, htrail, Char.ofNat_toNat, Bool.or_self, Bool.false_eq_true, if_false,
        Option.map_eq_map]

theorem unescape?_escape (s : List Char) : unescape? (escape s) = some s := by
  induction s with
  | nil => rfl
  | cons c s ih =>
    obtain ⟨p, hp, hpieces⟩ := exists_pieces?_escapeChar c
    obtain ⟨pieces, hs, hjoin⟩ := Option.bind_eq_some_iff.mp ih
    rw [unescape?, escape, List.flatMap_cons, hpieces]
    change ((pieces? (escape s)).map (p :: ·)).bind join? = _
    rw [hs]
    exact (join?_cons hp pieces).trans (congrArg (Option.map (c :: ·)) hjoin)

theorem body?_cons {c : Char} (hquote : c ≠ '"') (hback : c ≠ '\\') (rest : List Char) :
    body? (c :: rest) = (body? rest).map fun cut => (c :: cut.1, cut.2) := by
  rw [body?]
  · cases body? rest <;> rfl
  all_goals simp [hquote, hback]

theorem hexDigit_ne : ∀ n < 16, hexDigit n ≠ '"' ∧ hexDigit n ≠ '\\' := by
  decide

theorem body?_escapeChar (c : Char) (rest : List Char) :
    body? (escapeChar c ++ rest) = (body? rest).map fun cut => (escapeChar c ++ cut.1, cut.2) := by
  rcases escapeChar_cases c with ⟨letter, hc, -, -⟩ | ⟨hcontrol, hc⟩ | ⟨-, hquote, hback, hc⟩
  · rw [hc, List.cons_append, List.cons_append, List.nil_append, body?]
    cases body? rest <;> rfl
  · have hlt : c.toNat < 32 := of_decide_eq_true hcontrol
    obtain ⟨hhigh, hhigh'⟩ := hexDigit_ne (c.toNat / 16) (by omega)
    obtain ⟨hlow, hlow'⟩ := hexDigit_ne (c.toNat % 16) (by omega)
    rw [hc]
    simp only [List.cons_append, List.nil_append]
    rw [body?, body?_cons (by decide) (by decide), body?_cons (by decide) (by decide),
      body?_cons hhigh hhigh', body?_cons hlow hlow']
    cases body? rest <;> rfl
  · rw [hc]
    exact body?_cons hquote hback rest

theorem body?_escape (s rest : List Char) :
    body? (escape s ++ '"' :: rest) = some (escape s, rest) := by
  induction s with
  | nil => rfl
  | cons c s ih =>
    have hcons : escape (c :: s) = escapeChar c ++ escape s := List.flatMap_cons
    rw [hcons, List.append_assoc, body?_escapeChar, ih]
    rfl

/-- An escaped text ends at the quote that closes it. -/
theorem text?_escape (s rest : List Char) :
    text? (escape s ++ '"' :: rest) = some (escape s, rest) := by
  obtain ⟨pieces, hpieces, -⟩ := Option.bind_eq_some_iff.mp (unescape?_escape s)
  simp [text?, body?_escape, hpieces]

/-! ## Numerals -/

namespace Numeral

/-- What follows starts with none of the characters that a numeral could go on with. -/
def EndsAt (rest : List Char) : Prop :=
  ∀ c ∈ rest.head?, c.isDigit = false ∧ c ≠ '.' ∧ c ≠ 'e' ∧ c ≠ 'E'

theorem digits_append {ds rest : List Char} (hds : ∀ c ∈ ds, c.isDigit = true)
    (hrest : EndsAt rest) : digits (ds ++ rest) = (ds, rest) := by
  have hstop : rest.takeWhile Char.isDigit = [] ∧ rest.dropWhile Char.isDigit = rest := by
    cases rest with
    | nil => exact ⟨rfl, rfl⟩
    | cons c rest =>
      have hc := (hrest c rfl).1
      exact ⟨List.takeWhile_cons_of_neg (by simp [hc]), List.dropWhile_cons_of_neg (by simp [hc])⟩
  rw [digits, List.takeWhile_append_of_pos hds, List.dropWhile_append_of_pos hds, hstop.1, hstop.2,
    List.append_nil]

theorem isDigit_of_mem_toDigits {n : Nat} {c : Char} (h : c ∈ Nat.toDigits 10 n) :
    c.isDigit = true :=
  Nat.isDigit_of_mem_toDigits (by decide) (by decide) h

theorem eq_zero_of_toDigits_eq {n : Nat} {ds : List Char} (h : Nat.toDigits 10 n = '0' :: ds) :
    n = 0 := by
  induction n using Nat.strongRecOn generalizing ds with
  | ind n ih =>
    rw [Nat.toDigits_eq_if (by decide)] at h
    split at h
    case isTrue hlt =>
      have hfirst : ∀ n < 10, n.digitChar = '0' → n = 0 := by decide
      exact hfirst n hlt (List.cons.inj h).1
    case isFalse hle =>
      have hne : Nat.toDigits 10 (n / 10) ≠ [] := Nat.toDigits_ne_nil
      obtain ⟨c, cs, hcs⟩ := List.exists_cons_of_ne_nil hne
      rw [hcs, List.cons_append] at h
      obtain ⟨rfl, -⟩ := List.cons.inj h
      have hzero := ih (n / 10) (by omega) hcs
      omega

theorem whole?_append (n : Nat) {rest : List Char} (hrest : EndsAt rest) :
    whole? (Nat.toDigits 10 n ++ rest) = some (Nat.toDigits 10 n, rest) := by
  rw [whole?, digits_append (fun _ => isDigit_of_mem_toDigits) hrest]
  split
  case h_1 heq => exact absurd (congrArg Prod.fst heq) Nat.toDigits_ne_nil
  case h_2 heq =>
    have hzero := eq_zero_of_toDigits_eq (congrArg Prod.fst heq)
    rw [hzero, Nat.toDigits_zero] at heq
    cases heq
  case h_3 heq =>
    cases heq
    rfl

theorem parse?_ofNat (n : Nat) {rest : List Char} (hrest : EndsAt rest) :
    parse? ((ofNat n).render ++ rest) = some (ofNat n, rest) := by
  have hrender : (ofNat n).render = Nat.toDigits 10 n := by simp [render, ofNat]
  have hfraction : fraction? rest = some (none, rest) := by
    rw [fraction?]
    rintro _ rfl
    exact (hrest '.' rfl).2.1 rfl
  have hexponent : exponent? rest = some (none, rest) := by
    rw [exponent?]
    · rintro _ rfl
      exact (hrest 'e' rfl).2.2.1 rfl
    · rintro _ rfl
      exact (hrest 'E' rfl).2.2.2 rfl
  have hunsigned : unsigned? false (Nat.toDigits 10 n ++ rest) = some (ofNat n, rest) := by
    simp only [unsigned?, whole?_append n hrest, hfraction, hexponent, Option.bind_eq_bind,
      Option.bind_some]
    rfl
  rw [hrender, parse?]
  · exact hunsigned
  · intro s hs
    have hne : Nat.toDigits 10 n ≠ [] := Nat.toDigits_ne_nil
    obtain ⟨c, cs, hcs⟩ := List.exists_cons_of_ne_nil hne
    have hdigit : c.isDigit = true := isDigit_of_mem_toDigits (hcs ▸ List.mem_cons_self)
    rw [hcs, List.cons_append] at hs
    rw [(List.cons.inj hs).1] at hdigit
    exact absurd hdigit (by decide)

theorem toInt?_ofNat {n : Nat} (h : n ≤ maxDigits) : (ofNat n).toInt? = some (n : Int) := by
  have hvalue : natOf (Nat.toDigits 10 n) = n := Nat.ofDigitChars_ten_toDigits
  simp only [toInt?, ofNat, hvalue, Bool.false_eq_true, if_false]
  exact if_pos (Nat.lt_succ_of_le h)

end Numeral

end RaceSteward.Json
