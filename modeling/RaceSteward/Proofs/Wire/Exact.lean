import RaceSteward.Proofs.Wire.Cut

/-!
# Layouts that fail only where bytes run out

`Layout.Exact` adds to `Layout.Faithful` that a layout refuses bytes with an error exactly when they
are the beginning of what it writes for some value that fits, cut as the error says (`Cut`). So every
error names the field that is cut, and whatever is refused can be completed.

The law holds of every one-item layout (`exact_word`, `exact_text`, ...) and is kept by every way of
putting layouts together (`Exact.and`, `Exact.as`, `Exact.list`).
-/

namespace RaceSteward

variable {bytes : Bytes} {e : DecodeError}

namespace Layout

variable {α β : Type}

/-- A faithful layout that reads only what fits, and fails only where bytes run out. -/
structure Exact (l : Layout α) (fits : α → Prop) (arrives : α → α) : Prop
    extends Faithful l fits arrives where
  fits_of_read : ∀ c a d, l.read c = (.ok a, d) → fits a
  /-- The bytes that are refused are those that begin a value and end within a field of it. -/
  read_eq_error_iff : ∀ c e, (l.read c).1 = .error e ↔ ∃ a, fits a ∧ Cut (l.fields a) c.rest e

/-! ## One item -/

theorem exact_byte (name : String) : (byte name).Exact (fun _ => True) id where
  toFaithful := faithful_byte name
  fits_of_read _ _ _ _ := trivial
  read_eq_error_iff c e := by
    refine Iff.trans ?_ (exists_cut_fixed_iff Item.byte 1 nofun (fun _ => rfl) ?_).symm
    · obtain ⟨n, rest⟩ := c
      cases rest with
      | nil => simp [byte, Read.byte, eq_comm]
      | cons b rest => simp [byte, Read.byte]
    · intro bytes h
      exact ⟨0, by rw [List.length_eq_zero_iff.mp (Nat.lt_one_iff.mp h)]; rfl⟩

theorem exact_word (name : String) : (word name).Exact (fun _ => True) id where
  toFaithful := faithful_word name
  fits_of_read _ _ _ _ := trivial
  read_eq_error_iff _ _ :=
    Read.word_eq_error_iff.trans
      (exists_cut_fixed_iff Item.word 4 nofun (fun _ => rfl)
        fun _ => Word.exists_take_toBytes).symm

theorem exact_int (name : String) : (int name).Exact (fun _ => True) id where
  toFaithful := faithful_int name
  fits_of_read _ _ _ _ := trivial
  read_eq_error_iff c e := by
    refine (Read.map_eq_error_iff.trans Read.word_eq_error_iff).trans
      (exists_cut_fixed_iff Item.int 4 nofun (fun _ => rfl) fun bytes h => ?_).symm
    obtain ⟨w, hw⟩ := Word.exists_take_toBytes h
    exact ⟨w.toInt32, hw⟩

theorem exact_single (name : String) : (single name).Exact (fun _ => True) id where
  toFaithful := faithful_single name
  fits_of_read _ _ _ _ := trivial
  read_eq_error_iff c e := by
    refine (Read.map_eq_error_iff.trans Read.word_eq_error_iff).trans
      (exists_cut_fixed_iff Item.single 4 nofun (fun _ => rfl) fun bytes h => ?_).symm
    obtain ⟨w, hw⟩ := Word.exists_take_toBytes h
    exact ⟨⟨w⟩, hw⟩

theorem exact_text (name : String) :
    (text name).Exact (fun s => s.length < 4294967296) Text.narrow where
  toFaithful := faithful_text name
  fits_of_read c s d h := by
    obtain ⟨w, e, -, hbody⟩ := Read.bind_eq_ok_iff.mp h
    obtain ⟨bs, hlength, rfl, -, -⟩ := Read.body_eq_ok hbody
    rw [← Text.length_encode, Text.encode_decode, hlength]
    exact w.toNat_lt
  read_eq_error_iff _ _ := Read.text_eq_error_iff.trans exists_cut_text_iff.symm

/-! ## Putting layouts together -/

theorem exact_nothing : nothing.Exact (fun _ => True) id where
  toFaithful := faithful_nothing
  fits_of_read _ _ _ _ := trivial
  read_eq_error_iff _ _ :=
    iff_of_false Read.not_pure_eq_error fun ⟨_, _, hcut⟩ => not_cut_nil hcut

namespace Exact

variable {l : Layout α} {r : Layout β} {fits : α → Prop} {fits' : β → Prop} {arrives : α → α}
  {arrives' : β → β}

theorem congr (hl : l.Exact fits arrives) {same : α → Prop} (h : ∀ a, same a ↔ fits a) :
    l.Exact same arrives where
  toFaithful := hl.toFaithful.restrict fun a => (h a).mp
  fits_of_read c a d hread := (h a).mpr (hl.fits_of_read c a d hread)
  read_eq_error_iff c e := by
    simp only [hl.read_eq_error_iff, h]

/-- Some value fits: the one that is read from nothing, or the one of which nothing is a cut. -/
theorem exists_fits (hl : l.Exact fits arrives) : ∃ a, fits a := by
  cases hread : (l.read (.start [])).1 with
  | ok a => exact ⟨a, hl.fits_of_read (.start []) a (l.read (.start [])).2 (Prod.ext hread rfl)⟩
  | error e =>
    obtain ⟨a, ha, -⟩ := (hl.read_eq_error_iff _ e).mp hread
    exact ⟨a, ha⟩

theorem bind_eq_error_iff {γ : Type} (hl : l.Exact fits arrives) {k : α → Read γ} {c : Cursor}
    {e : DecodeError} {next : α → β → Prop} {fields : β → List Field}
    (hsome : ∀ a, fits a → ∃ b, next a b)
    (hnext : ∀ a d, fits a →
      ((k (arrives a) d).1 = .error e ↔ ∃ b, next a b ∧ Cut (fields b) d.rest e)) :
    ((l.read >>= k) c).1 = .error e ↔
      ∃ a b, fits a ∧ next a b ∧ Cut (l.fields a ++ fields b) c.rest e := by
  rw [Read.bind_eq_error_iff, hl.read_eq_error_iff]
  constructor
  · rintro (⟨a, ha, hcut⟩ | ⟨a, d, hread, hk⟩)
    · obtain ⟨b, hb⟩ := hsome a ha
      exact ⟨a, b, ha, hb, cut_append_iff.mpr (.inl hcut)⟩
    · have ha := hl.fits_of_read c a d hread
      obtain ⟨harrives, hrest, -⟩ := hl.write_read c a d hread
      rw [← harrives, hnext a d ha] at hk
      obtain ⟨b, hb, hcut⟩ := hk
      exact ⟨a, b, ha, hb, cut_append_iff.mpr (.inr ⟨d.rest, hrest, hcut⟩)⟩
  · obtain ⟨n, bytes⟩ := c
    rintro ⟨a, b, ha, hb, hcut⟩
    rcases cut_append_iff.mp hcut with hfirst | ⟨rest, rfl, hlater⟩
    · exact .inl ⟨a, ha, hfirst⟩
    · exact .inr ⟨_, _, hl.read_write a ha n rest, (hnext a _ ha).mpr ⟨b, hb, hlater⟩⟩

theorem and (hl : l.Exact fits arrives) (hr : r.Exact fits' arrives') :
    (l.and r).Exact (fun p => fits p.1 ∧ fits' p.2) (Prod.map arrives arrives') where
  toFaithful := hl.toFaithful.and hr.toFaithful
  fits_of_read c p d h := by
    obtain ⟨a, f, ha, h⟩ := Read.bind_eq_ok_iff.mp h
    obtain ⟨b, g, hb, h⟩ := Read.bind_eq_ok_iff.mp h
    obtain ⟨rfl, rfl⟩ := Read.pure_eq_ok_iff.mp h
    exact ⟨hl.fits_of_read _ _ _ ha, hr.fits_of_read _ _ _ hb⟩
  read_eq_error_iff c e := by
    have hread : ((l.and r).read c).1 = .error e ↔
        ∃ a b, fits a ∧ fits' b ∧ Cut (l.fields a ++ r.fields b) c.rest e := by
      refine hl.bind_eq_error_iff (fun _ _ => hr.exists_fits) fun a d _ => ?_
      rw [Read.bind_eq_error_iff, hr.read_eq_error_iff]
      simp
    rw [hread, Prod.exists]
    simp only [and_assoc]
    rfl

theorem as (hl : l.Exact fits arrives) {make : α → β} {parts : β → α}
    (hparts : ∀ a, parts (make a) = a) :
    (l.as make parts).Exact (fun b => fits (parts b)) (fun b => make (arrives (parts b))) where
  toFaithful := hl.toFaithful.as hparts
  fits_of_read c b d h := by
    obtain ⟨a, ha, rfl⟩ := Read.map_eq_ok_iff.mp h
    rw [hparts]
    exact hl.fits_of_read c a d ha
  read_eq_error_iff c e := by
    refine (Read.map_eq_error_iff.trans (hl.read_eq_error_iff c e)).trans ?_
    constructor
    · rintro ⟨a, ha, hcut⟩
      refine ⟨make a, ?_, ?_⟩
      · rw [hparts]
        exact ha
      · show Cut (l.fields (parts (make a))) c.rest e
        rw [hparts]
        exact hcut
    · rintro ⟨b, hb, hcut⟩
      exact ⟨parts b, hb, hcut⟩

theorem fits_of_times {size : Nat} (hl : l.Exact fits arrives) :
    ∀ n c as d, Read.times size l.read n c = (.ok as, d) → ∀ a ∈ as, fits a := by
  intro n
  induction n with
  | zero =>
    intro c as d h
    rw [Read.times_zero] at h
    obtain ⟨rfl, -⟩ := Read.pure_eq_ok_iff.mp h
    simp
  | succ n ih =>
    intro c as d h
    rw [Read.times_succ] at h
    obtain ⟨a, f, ha, h⟩ := Read.bind_eq_ok_iff.mp h
    obtain ⟨more, g, hmore, h⟩ := Read.bind_eq_ok_iff.mp h
    obtain ⟨rfl, -⟩ := Read.pure_eq_ok_iff.mp h
    exact List.forall_mem_cons.mpr ⟨hl.fits_of_read _ _ _ ha, ih _ _ _ hmore⟩

theorem exists_list (hl : l.Exact fits arrives) (n : Nat) :
    ∃ as : List α, as.length = n ∧ ∀ a ∈ as, fits a := by
  obtain ⟨a, ha⟩ := hl.exists_fits
  refine ⟨List.replicate n a, List.length_replicate, fun b hb => ?_⟩
  rw [List.eq_of_mem_replicate hb]
  exact ha

theorem times_eq_error_iff (size : Nat) (hl : l.Exact fits arrives) {e : DecodeError} (n : Nat)
    (c : Cursor) :
    (Read.times size l.read n c).1 = .error e ↔
      ∃ as : List α, (as.length = n ∧ ∀ a ∈ as, fits a) ∧ Cut (as.flatMap l.fields) c.rest e := by
  induction n generalizing c with
  | zero =>
    refine iff_of_false Read.not_pure_eq_error ?_
    rintro ⟨as, ⟨hlength, -⟩, hcut⟩
    rw [List.length_eq_zero_iff.mp hlength] at hcut
    exact not_cut_nil hcut
  | succ n ih =>
    have hread : (Read.times size l.read (n + 1) c).1 = .error e ↔
        ∃ (a : α) (as : List α), fits a ∧ (as.length = n ∧ ∀ a ∈ as, fits a) ∧
          Cut (l.fields a ++ as.flatMap l.fields) c.rest e := by
      rw [Read.times_succ]
      refine hl.bind_eq_error_iff (fun _ _ => hl.exists_list n) fun a d _ => ?_
      rw [Read.bind_eq_error_iff, ih]
      simp
    rw [hread]
    -- the first value and the others are the values
    constructor
    · rintro ⟨a, as, ha, ⟨hlength, has⟩, hcut⟩
      exact ⟨a :: as, ⟨by simp [hlength], List.forall_mem_cons.mpr ⟨ha, has⟩⟩, hcut⟩
    · rintro ⟨_ | ⟨a, as⟩, ⟨hlength, has⟩, hcut⟩
      · simp at hlength
      · obtain ⟨ha, has⟩ := List.forall_mem_cons.mp has
        exact ⟨a, as, ha, ⟨Nat.succ.inj hlength, has⟩, hcut⟩

theorem list (name : String) (size : Nat) (hl : l.Exact fits arrives) :
    (Layout.list name size l).Exact (fun as => as.length < 4294967296 ∧ ∀ a ∈ as, fits a)
      (List.map arrives) where
  toFaithful := hl.toFaithful.list name size
  fits_of_read c as d h := by
    obtain ⟨w, f, -, h⟩ := Read.bind_eq_ok_iff.mp h
    refine ⟨?_, hl.fits_of_times _ _ _ _ h⟩
    rw [(hl.write_times _ _ _ _ h).1]
    exact w.toNat_lt
  read_eq_error_iff c e := by
    have hread : ((Layout.list name size l).read c).1 = .error e ↔
        ∃ (w : UInt32) (as : List α), True ∧ (as.length = w.toNat ∧ ∀ a ∈ as, fits a) ∧
          Cut ((word name).fields w ++ as.flatMap l.fields) c.rest e :=
      (exact_word name).bind_eq_error_iff (fun w _ => hl.exists_list w.toNat)
        fun w d _ => hl.times_eq_error_iff size w.toNat d
    rw [hread]
    constructor
    · rintro ⟨w, as, -, ⟨hlength, has⟩, hcut⟩
      refine ⟨as, ⟨hlength ▸ w.toNat_lt, has⟩, ?_⟩
      show Cut (⟨name, .word (UInt32.ofNat as.length)⟩ :: as.flatMap l.fields) c.rest e
      rw [hlength, UInt32.ofNat_toNat]
      exact hcut
    · rintro ⟨as, ⟨hlength, has⟩, hcut⟩
      have hcount : (UInt32.ofNat as.length).toNat = as.length := by
        rw [UInt32.toNat_ofNat']
        omega
      exact ⟨UInt32.ofNat as.length, as, trivial, ⟨hcount.symm, has⟩, hcut⟩

end Exact

end Layout

end RaceSteward
