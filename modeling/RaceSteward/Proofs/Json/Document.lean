import RaceSteward.Json.Reading
import RaceSteward.Proofs.Json.Literals

/-!
# Documents that are written are read back

`Json.Written` are the documents made of what this program writes: escaped texts and natural numbers
of at most 64 bits. The text of one is read to its end and no further (`Json.Written.isReadBack`), so
it is the document that the whole text is (`Json.Written.buffered?_toText`).
-/

namespace RaceSteward.Json

inductive Written : Json → Prop where
  | null : Written null
  | nat {n : Nat} (h : n ≤ Numeral.maxDigits) : Written (ofNat n)
  | string (s : String) : Written (ofString s)
  | array {items : List Json} (h : ∀ item ∈ items, Written item) : Written (array items)
  | record {members : List (String × Json)} (h : ∀ member ∈ members, Written member.2) :
    Written (record members)

/-! ## Reading what is written -/

/-- What follows a value in a document. -/
def Delimits (rest : List Char) : Prop :=
  ∀ c ∈ rest.head?, c = ',' ∨ c = ']' ∨ c = '}'

theorem Delimits.endsAt {rest : List Char} (h : Delimits rest) : Numeral.EndsAt rest := by
  intro c hc
  rcases h c hc with rfl | rfl | rfl <;> decide

theorem delimits_renderItems (items : List Json) (rest : List Char) :
    Delimits (renderItems items ++ rest) := by
  cases items with
  | nil => simp [Delimits, renderItems]
  | cons => simp [Delimits, renderItems]

theorem delimits_renderMembers (members : List (List Char × Json)) (rest : List Char) :
    Delimits (renderMembers members ++ rest) := by
  rcases members with _ | ⟨⟨key, value⟩, members⟩
  · simp [Delimits, renderMembers]
  · simp [Delimits, renderMembers]

theorem skipBlank_cons {c : Char} (h : isBlank c = false) (rest : List Char) :
    skipBlank (c :: rest) = c :: rest :=
  List.dropWhile_cons_of_neg (by simp [h])

theorem skipBlank_quoted (body rest : List Char) :
    skipBlank (quoted body ++ rest) = quoted body ++ rest :=
  skipBlank_cons (by decide) _

/-- The text of the document starts like a value, and is read to its end and no further. -/
structure IsReadBack (j : Json) : Prop where
  starts : ∃ c s, j.render = c :: s ∧ isBlank c = false ∧ c ≠ ']'
  value?_eq : ∀ (fuel : Nat) (rest : List Char), j.render.length ≤ fuel → Delimits rest →
    value? fuel (j.render ++ rest) = some (j, rest)

theorem IsReadBack.skipBlank_render {j : Json} (h : j.IsReadBack) (rest : List Char) :
    skipBlank (j.render ++ rest) = j.render ++ rest := by
  obtain ⟨c, s, hj, hblank, -⟩ := h.starts
  rw [hj, List.cons_append, skipBlank_cons hblank]

theorem isReadBack_of_cons {j : Json} {c : Char} {s : List Char} (hrender : j.render = c :: s)
    (hblank : isBlank c = false) (hclose : c ≠ ']')
    (h : ∀ (fuel : Nat) (rest : List Char), s.length ≤ fuel → Delimits rest →
      value? (fuel + 1) (c :: (s ++ rest)) = some (j, rest)) : j.IsReadBack where
  starts := ⟨c, s, hrender, hblank, hclose⟩
  value?_eq fuel rest hfuel hrest := by
    rw [hrender] at hfuel ⊢
    rcases fuel with _ | fuel
    · exact absurd hfuel (Nat.not_succ_le_zero _)
    · exact h fuel rest (Nat.le_of_succ_le_succ hfuel) hrest

theorem isBlank_of_isDigit {c : Char} (h : c.isDigit = true) : isBlank c = false := by
  rw [Bool.eq_false_iff]
  intro hblank
  simp only [isBlank, Bool.or_eq_true, decide_eq_true_eq] at hblank
  rcases hblank with ((rfl | rfl) | rfl) | rfl <;> exact absurd h (by decide)

theorem value?_of_isDigit {c : Char} (h : c.isDigit = true) (fuel : Nat) (s : List Char) :
    value? (fuel + 1) (c :: s) =
      (Numeral.parse? (c :: s)).map fun read => (number read.1, read.2) := by
  rw [value?]
  · cases Numeral.parse? (c :: s) <;> rfl
  all_goals
    intro _ hs
    rw [(List.cons.inj hs).1] at h
    exact absurd h (by decide)

theorem isReadBack_ofNat (n : Nat) : (ofNat n).IsReadBack := by
  have hrender : (ofNat n).render = Nat.toDigits 10 n := by
    simp [ofNat, render, Numeral.render, Numeral.ofNat]
  have hne : Nat.toDigits 10 n ≠ [] := Nat.toDigits_ne_nil
  obtain ⟨c, s, hcs⟩ := List.exists_cons_of_ne_nil hne
  have hdigit : c.isDigit = true := Numeral.isDigit_of_mem_toDigits (hcs ▸ List.mem_cons_self)
  have hclose : c ≠ ']' := by
    rintro rfl
    exact absurd hdigit (by decide)
  refine isReadBack_of_cons (hrender.trans hcs) (isBlank_of_isDigit hdigit) hclose
    fun fuel rest _ hrest => ?_
  have hparse := Numeral.parse?_ofNat n hrest.endsAt
  have hnumber : (Numeral.ofNat n).render = c :: s := hrender.trans hcs
  rw [hnumber, List.cons_append] at hparse
  rw [value?_of_isDigit hdigit, hparse]
  rfl

theorem isReadBack_ofString (text : String) : (ofString text).IsReadBack := by
  have hrender : (ofString text).render = '"' :: (escape text.toList ++ ['"']) := rfl
  refine isReadBack_of_cons hrender (by decide) (by decide) fun fuel rest _ _ => ?_
  simp [value?, text?_escape, ofString]

theorem items?_render {item : Json} {items : List Json} (hitem : item.IsReadBack)
    (hitems : ∀ item ∈ items, item.IsReadBack) (fuel : Nat) (rest : List Char)
    (hfuel : item.render.length + (renderItems items).length ≤ fuel) :
    items? fuel (item.render ++ (renderItems items ++ rest)) = some (item :: items, rest) := by
  induction items generalizing item fuel with
  | nil =>
    rw [renderItems, List.length_singleton] at hfuel
    rcases fuel with _ | fuel
    · exact absurd hfuel (Nat.not_succ_le_zero _)
    have hread := hitem.value?_eq fuel (']' :: rest) (Nat.le_of_succ_le_succ hfuel)
      (delimits_renderItems [] rest)
    rw [renderItems, List.cons_append, List.nil_append, items?, hread]
    simp only [Option.bind_eq_bind, Option.bind_some,
      skipBlank_cons (by decide : isBlank ']' = false)]
  | cons next items ih =>
    simp only [renderItems, List.cons_append, List.length_cons, List.length_append] at hfuel
    rcases fuel with _ | fuel
    · omega
    obtain ⟨hnext, hitems⟩ := List.forall_mem_cons.mp hitems
    have hread := hitem.value?_eq fuel (renderItems (next :: items) ++ rest) (by omega)
      (delimits_renderItems _ rest)
    have hmore := ih hnext hitems fuel (by omega)
    rw [items?, hread]
    simp only [Option.bind_eq_bind, Option.bind_some, renderItems, List.cons_append,
      List.append_assoc, skipBlank_cons (by decide : isBlank ',' = false), hnext.skipBlank_render,
      hmore]

theorem value?_array {c : Char} (hblank : isBlank c = false) (hclose : c ≠ ']') (fuel : Nat)
    (s : List Char) :
    value? (fuel + 1) ('[' :: c :: s) =
      (items? fuel (c :: s)).map fun read => (array read.1, read.2) := by
  rw [value?, skipBlank_cons hblank]
  split
  case h_1 heq => exact absurd (List.cons.inj heq).1 hclose
  case h_2 => cases items? fuel (c :: s) <;> rfl

theorem isReadBack_array {items : List Json} (h : ∀ item ∈ items, item.IsReadBack) :
    (array items).IsReadBack := by
  rcases items with _ | ⟨item, items⟩
  · exact isReadBack_of_cons rfl (by decide) (by decide) fun _ _ _ _ => rfl
  · obtain ⟨hitem, hitems⟩ := List.forall_mem_cons.mp h
    have hrender : (array (item :: items)).render = '[' :: (item.render ++ renderItems items) := by
      rw [render, List.cons_append]
    refine isReadBack_of_cons hrender (by decide) (by decide) fun fuel rest hfuel _ => ?_
    rw [List.length_append] at hfuel
    have hread := items?_render hitem hitems fuel rest hfuel
    obtain ⟨c, s, hcs, hblank, hclose⟩ := hitem.starts
    rw [List.append_assoc]
    rw [hcs, List.cons_append] at hread ⊢
    rw [value?_array hblank hclose, hread]
    rfl

/-- The members of a record, each by the body of its key. -/
def bodies (members : List (String × Json)) : List (List Char × Json) :=
  members.map fun (key, value) => (escape key.toList, value)

theorem members?_render (key : String) {value : Json} {members : List (String × Json)}
    (hvalue : value.IsReadBack) (hmembers : ∀ member ∈ members, member.2.IsReadBack) (fuel : Nat)
    (rest : List Char)
    (hfuel : value.render.length + (renderMembers (bodies members)).length ≤ fuel) :
    members? fuel (quoted (escape key.toList) ++
        ':' :: (value.render ++ (renderMembers (bodies members) ++ rest))) =
      some (bodies ((key, value) :: members), rest) := by
  -- on the members behind the first; each costs more characters than the fuel that it uses
  induction members generalizing key value fuel with
  | nil =>
    rw [bodies, List.map_nil, renderMembers, List.length_singleton] at hfuel
    rcases fuel with _ | fuel
    · exact absurd hfuel (Nat.not_succ_le_zero _)
    have hread := hvalue.value?_eq fuel ('}' :: rest) (Nat.le_of_succ_le_succ hfuel)
      (delimits_renderMembers [] rest)
    rw [bodies, List.map_nil, renderMembers, quoted, List.append_assoc, List.cons_append, members?]
    simp only [Option.bind_eq_bind, Option.bind_some, List.cons_append, List.nil_append,
      text?_escape, skipBlank_cons (by decide : isBlank ':' = false), hvalue.skipBlank_render, hread,
      skipBlank_cons (by decide : isBlank '}' = false)]
    rfl
  | cons next members ih =>
    obtain ⟨hnext, hmembers⟩ := List.forall_mem_cons.mp hmembers
    have hbodies : bodies (next :: members) = (escape next.1.toList, next.2) :: bodies members :=
      rfl
    simp only [hbodies, renderMembers, List.cons_append, List.length_cons, List.length_append]
      at hfuel
    rcases fuel with _ | fuel
    · omega
    have hread := hvalue.value?_eq fuel (renderMembers (bodies (next :: members)) ++ rest)
      (by omega) (delimits_renderMembers _ rest)
    have hmore := ih next.1 hnext hmembers fuel (by omega)
    rw [hbodies, renderMembers] at hread ⊢
    rw [quoted, List.append_assoc, List.cons_append, members?]
    simp only [List.cons_append, List.append_assoc, List.nil_append] at hread ⊢
    simp only [Option.bind_eq_bind, Option.bind_some, text?_escape,
      skipBlank_cons (by decide : isBlank ':' = false), hvalue.skipBlank_render, hread,
      skipBlank_cons (by decide : isBlank ',' = false), skipBlank_quoted, hmore]
    rfl

theorem value?_object (fuel : Nat) (body s : List Char) :
    value? (fuel + 1) ('{' :: (quoted body ++ s)) =
      (members? fuel (quoted body ++ s)).map fun read => (object read.1, read.2) := by
  rw [value?, skipBlank_quoted]
  split
  case h_1 heq => exact absurd (List.cons.inj heq).1 (by decide)
  case h_2 => cases members? fuel (quoted body ++ s) <;> rfl

theorem isReadBack_record {members : List (String × Json)}
    (h : ∀ member ∈ members, member.2.IsReadBack) : (record members).IsReadBack := by
  rcases members with _ | ⟨⟨key, value⟩, members⟩
  · exact isReadBack_of_cons rfl (by decide) (by decide) fun _ _ _ _ => rfl
  · obtain ⟨hvalue, hmembers⟩ := List.forall_mem_cons.mp h
    change value.IsReadBack at hvalue
    have hrender : (record ((key, value) :: members)).render = '{' :: (quoted (escape key.toList) ++
        ':' :: (value.render ++ renderMembers (bodies members))) := by
      simp only [record, bodies, List.map_cons, render, List.cons_append, List.append_assoc]
    refine isReadBack_of_cons hrender (by decide) (by decide) fun fuel rest hfuel _ => ?_
    simp only [List.length_cons, List.length_append] at hfuel
    have hread := members?_render key hvalue hmembers fuel rest (by omega)
    rw [List.append_assoc, List.cons_append, List.append_assoc, value?_object, hread]
    rfl

theorem Written.isReadBack {j : Json} (h : j.Written) : j.IsReadBack := by
  induction h with
  | null => exact isReadBack_of_cons rfl (by decide) (by decide) fun _ _ _ _ => rfl
  | nat => exact isReadBack_ofNat _
  | string text => exact isReadBack_ofString text
  | array _ ih => exact isReadBack_array ih
  | record _ ih => exact isReadBack_record ih

/-! ## Whole texts -/

theorem Written.parse?_toText {j : Json} (h : j.Written) : parse? j.toText = some j := by
  have hread := h.isReadBack.value?_eq (2 * j.render.length + 2) [] (by omega) nofun
  have hskip := h.isReadBack.skipBlank_render []
  rw [List.append_nil] at hread hskip
  simp only [parse?, toText, String.toList_ofList, hskip, hread]
  rfl

theorem itemsSound_iff {tooGreat : Numeral → Bool} {items : List Json} :
    itemsSound tooGreat items = true ↔ ∀ item ∈ items, literalsSound tooGreat item = true := by
  induction items with
  | nil => simp [itemsSound]
  | cons item items ih => simp [itemsSound, ih]

theorem membersSound_bodies_iff {tooGreat : Numeral → Bool} {members : List (String × Json)} :
    membersSound tooGreat (bodies members) = true ↔
      ∀ member ∈ members, literalsSound tooGreat member.2 = true := by
  induction members with
  | nil => simp [bodies, membersSound]
  | cons member members ih =>
    change membersSound tooGreat ((escape member.1.toList, member.2) :: bodies members) = true ↔ _
    simp [membersSound, unescape?_escape, ih]

theorem Written.literalsSound_eq {j : Json} (h : j.Written) :
    j.literalsSound Numeral.isTooGreat = true := by
  induction h with
  | null => rfl
  | nat h => simp [ofNat, literalsSound, Numeral.isTooGreat, Numeral.toInt?_ofNat h]
  | string text => simp [ofString, literalsSound, unescape?_escape]
  | array _ ih => exact itemsSound_iff.mpr ih
  | record _ ih => exact membersSound_bodies_iff.mpr ih

theorem depthItems_le_iff {items : List Json} {d : Nat} :
    depthItems items ≤ d ↔ ∀ item ∈ items, item.depth ≤ d := by
  induction items with
  | nil => simp [depthItems]
  | cons item items ih => rw [depthItems, Nat.max_le, ih, List.forall_mem_cons]

theorem depthMembers_bodies_le_iff {members : List (String × Json)} {d : Nat} :
    depthMembers (bodies members) ≤ d ↔ ∀ member ∈ members, member.2.depth ≤ d := by
  induction members with
  | nil => simp [bodies, depthMembers]
  | cons member members ih =>
    change depthMembers ((escape member.1.toList, member.2) :: bodies members) ≤ d ↔ _
    rw [depthMembers, Nat.max_le, ih, List.forall_mem_cons]

/-- A written document is the document that its text is, and every literal in it means something. -/
theorem Written.buffered?_toText {j : Json} (h : j.Written) (hdepth : j.depth ≤ 127) :
    buffered? j.toText = some j := by
  simp [buffered?, h.parse?_toText, h.literalsSound_eq, hdepth]

end RaceSteward.Json
