import RaceSteward.Race.Standing
import RaceSteward.Proofs.Message.RoundTrip

/-!
# An announcement says one thing

The line that announces a result is the nickname and what became of the player. A nickname may look
like an announcement itself; still the line can be read in one way only, because neither a place nor
a reason has a blank in it, so the last word of the line is the place or the reason, and everything
before it is known up to the nickname (`Rank.render_eq_iff`). Nicknames of single-byte characters keep
this on the wire (`Rank.announces_one_result`).
-/

namespace RaceSteward.Race

/-! ## The last word of a line -/

theorem append_cons_inj_right {α : Type} {x : α} {a b w v : List α} (hw : x ∉ w) (hv : x ∉ v)
    (h : a ++ x :: w = b ++ x :: v) : a = b ∧ w = v := by
  rcases List.append_eq_append_iff.mp h with ⟨more, rfl, hright⟩ | ⟨more, rfl, hright⟩
  · cases more with
    | nil => exact ⟨(List.append_nil a).symm, (List.cons.inj hright).2⟩
    | cons y more =>
      have hmem : x ∈ more ++ x :: v := List.mem_append_right _ List.mem_cons_self
      exact absurd ((List.cons.inj hright).2 ▸ hmem) hw
  · cases more with
    | nil => exact ⟨List.append_nil b, (List.cons.inj hright).2.symm⟩
    | cons y more =>
      have hmem : x ∈ more ++ x :: w := List.mem_append_right _ List.mem_cons_self
      exact absurd ((List.cons.inj hright).2 ▸ hmem) hv

theorem digits_inj {m n : Nat} : Nat.toDigits 10 m = Nat.toDigits 10 n ↔ m = n := by
  refine ⟨fun h => ?_, congrArg _⟩
  rw [← Nat.ofDigitChars_ten_toDigits (n := m), h, Nat.ofDigitChars_ten_toDigits]

namespace DnfReason

theorem name_inj {r s : DnfReason} : r.name.toList = s.name.toList ↔ r = s := by
  cases r <;> cases s <;> decide

theorem blank_notMem_name (r : DnfReason) : ' ' ∉ r.name.toList := by
  cases r <;> decide

theorem name_ne_digits (r : DnfReason) (n : Nat) : r.name.toList ≠ Nat.toDigits 10 n := by
  intro h
  have hletter : ∃ c ∈ r.name.toList, c.isDigit = false := by
    cases r with
    | none => exact ⟨'N', by decide, rfl⟩
    | cheat => exact ⟨'C', by decide, rfl⟩
    | logout => exact ⟨'L', by decide, rfl⟩
    | timeout => exact ⟨'T', by decide, rfl⟩
  obtain ⟨c, hc, hletter⟩ := hletter
  rw [h] at hc
  rw [Nat.isDigit_of_mem_toDigits (by decide) (by decide) hc] at hletter
  cases hletter

end DnfReason

namespace Rank

/-- What the announcement says behind the nickname. -/
def suffix (r : Rank) : String :=
  if r.isFinisher then ": " ++ r.place.toNat.repr else ": DNF. Reason: " ++ r.reason.name

/-- What stands between the nickname and the last blank. -/
def lead (r : Rank) : List Char :=
  if r.isFinisher then [':'] else ": DNF. Reason:".toList

/-- The last word: the place, or the reason. -/
def lastWord (r : Rank) : List Char :=
  if r.isFinisher then Nat.toDigits 10 r.place.toNat else r.reason.name.toList

/-- The announcements of the two results say the same: everything that was announced agrees, which
is all but the ids, and the reason of one who finished. -/
structure Alike (a b : Rank) : Prop where
  nickname : a.nickname = b.nickname
  finisher : a.isFinisher = b.isFinisher
  place : a.place = b.place
  reason : a.isFinisher = false → a.reason = b.reason

variable {a b r : Rank}

theorem isFinisher_eq_false_iff : r.isFinisher = false ↔ r.place = 0 := by
  rw [isFinisher, decide_eq_false_iff_not, Decidable.not_not]

theorem render_eq (r : Rank) : r.render = r.nickname ++ r.suffix := by
  rw [render, suffix]
  split <;> exact String.append_assoc

theorem toList_suffix (r : Rank) : r.suffix.toList = r.lead ++ ' ' :: r.lastWord := by
  rw [suffix, lead, lastWord]
  split
  · rw [String.toList_append, Nat.toList_repr]
    rfl
  · rw [String.toList_append]
    rfl

theorem toList_render (r : Rank) :
    r.render.toList = (r.nickname.toList ++ r.lead) ++ ' ' :: r.lastWord := by
  rw [render_eq, String.toList_append, toList_suffix, List.append_assoc]

theorem blank_notMem_lastWord (r : Rank) : ' ' ∉ r.lastWord := by
  rw [lastWord]
  split
  · intro h
    have hdigit := Nat.isDigit_of_mem_toDigits (by decide) (by decide) h
    cases hdigit
  · exact r.reason.blank_notMem_name

/-- The last word tells a place from a reason, one place from another and one reason from another. -/
theorem lastWord_inj : a.lastWord = b.lastWord ↔
    a.isFinisher = b.isFinisher ∧ a.place = b.place ∧
      (a.isFinisher = false → a.reason = b.reason) := by
  cases ha : a.isFinisher with
  | false =>
    cases hb : b.isFinisher with
    | false =>
      have hplace : a.place = b.place := by
        rw [isFinisher_eq_false_iff.mp ha, isFinisher_eq_false_iff.mp hb]
      simp [lastWord, ha, hb, DnfReason.name_inj, hplace]
    | true => simp [lastWord, ha, hb, DnfReason.name_ne_digits]
  | true =>
    cases hb : b.isFinisher with
    | false => simp [lastWord, ha, hb, (DnfReason.name_ne_digits _ _).symm]
    | true => simp [lastWord, ha, hb, digits_inj, UInt32.toNat_inj]

theorem lead_eq (h : a.isFinisher = b.isFinisher) : a.lead = b.lead := by
  rw [lead, lead, h]

theorem render_eq_iff : a.render = b.render ↔ a.Alike b := by
  constructor
  · intro h
    have hlist := congrArg String.toList h
    rw [toList_render, toList_render] at hlist
    obtain ⟨hfront, hword⟩ :=
      append_cons_inj_right a.blank_notMem_lastWord b.blank_notMem_lastWord hlist
    obtain ⟨hfinisher, hplace, hreason⟩ := lastWord_inj.mp hword
    rw [lead_eq hfinisher] at hfront
    exact ⟨String.toList_inj.mp (List.append_cancel_right hfront), hfinisher, hplace, hreason⟩
  · rintro ⟨hnickname, hfinisher, hplace, hreason⟩
    refine String.toList_inj.mp ?_
    rw [toList_render, toList_render, hnickname, lead_eq hfinisher,
      lastWord_inj.mpr ⟨hfinisher, hplace, hreason⟩]

/-! ## On the wire -/

theorem isAscii_suffix (r : Rank) : Text.IsAscii r.suffix := by
  rw [suffix]
  split
  · refine Text.isAscii_append.mpr ⟨by decide, fun c hc => ?_⟩
    rw [Nat.toList_repr] at hc
    have hdigit := Nat.isDigit_of_mem_toDigits (by decide) (by decide) hc
    rw [Char.isDigit, Bool.and_eq_true, decide_eq_true_eq, decide_eq_true_eq] at hdigit
    exact Nat.lt_of_le_of_lt hdigit.2 (by decide)
  · refine Text.isAscii_append.mpr ⟨by decide, ?_⟩
    cases r.reason <;> decide

theorem length_suffix_le (r : Rank) : r.suffix.length ≤ 22 := by
  rw [suffix]
  split
  · have hplace := r.place.toNat_lt
    have hdigits : (Nat.toDigits 10 r.place.toNat).length ≤ 10 :=
      (Nat.length_toDigits_le_iff (by decide) (by decide)).mpr (by omega)
    rw [← String.length_toList, String.toList_append, List.length_append, Nat.toList_repr]
    show 2 + _ ≤ 22
    omega
  · cases r.reason <;> decide

theorem isSingleByte_render : Text.IsSingleByte r.render ↔ Text.IsSingleByte r.nickname := by
  rw [render_eq, Text.isSingleByte_append]
  exact and_iff_left r.isAscii_suffix.isSingleByte

theorem encode_announcement (r : Rank) :
    let content := Text.encode r.nickname ++ Text.encode r.suffix
    (Message.broadcast r.render).encode = Word.toBytes 2 ++
      (Word.toBytes (UInt32.ofNat content.length) ++ content) ++ Word.toBytes 0 := by
  intro content
  have hcontent : content = Text.encode r.render := by
    rw [render_eq, Text.encode_append]
  rw [hcontent, Text.length_encode]
  exact Message.encode_chat ..

theorem decode_announcement {r : Rank} (hsingle : Text.IsSingleByte r.nickname)
    (hlength : r.nickname.length < 4294967274) :
    Message.decode (Message.broadcast r.render).encode = .ok (.broadcast r.render) := by
  have hfits : (Message.broadcast r.render).Fits := by
    refine (Message.fits_iff_of_text rfl rfl).mpr ?_
    have hsuffix := r.length_suffix_le
    rw [render_eq, String.length_append]
    omega
  have hrender : (Message.broadcast r.render).IsSingleByte :=
    fun s hs => List.mem_singleton.mp hs ▸ isSingleByte_render.mpr hsingle
  have hdecode := (Message.decode_encode_append _ hfits []).2.1 hrender
  rwa [List.append_nil] at hdecode

/-- Whatever the nicknames, two announcements are one line exactly if they announce the same: the same
nickname, finished or not, and the same place, or the same reason. If a byte per character carries
the nicknames, this goes for the bytes of the chat lines that are sent, too. -/
theorem announces_one_result (a b : Rank) :
    (a.render = b.render ↔ a.Alike b) ∧
      (Text.IsSingleByte a.nickname → Text.IsSingleByte b.nickname →
        ((Message.broadcast a.render).encode = (Message.broadcast b.render).encode ↔
          a.Alike b)) := by
  refine ⟨render_eq_iff, fun ha hb => ?_⟩
  rw [Message.broadcast, Message.broadcast, Message.encode_chat_inj,
    Text.encode_inj (isSingleByte_render.mpr ha) (isSingleByte_render.mpr hb), render_eq_iff]

/-- A finisher whose nickname looks like the announcement of somebody who cheated, and that somebody:
the lines differ, and so do their bytes. -/
theorem announces_one_result_lookalike :
    let posing : Rank := ⟨1, "ann: DNF. Reason: Cheat", 3, .none⟩
    let cheated : Rank := ⟨2, "ann", 0, .cheat⟩
    posing.render = "ann: DNF. Reason: Cheat: 3" ∧ cheated.render = "ann: DNF. Reason: Cheat" ∧
      posing.render ≠ cheated.render ∧
      (Message.broadcast posing.render).encode ≠ (Message.broadcast cheated.render).encode := by
  intro posing cheated
  obtain ⟨hline, hwire⟩ := announces_one_result posing cheated
  have hunlike : ¬ posing.Alike cheated := fun halike => nomatch halike.finisher
  refine ⟨by decide, rfl, fun h => hunlike (hline.mp h), fun h => hunlike ((hwire ?_ ?_).mp h)⟩
  · decide
  · decide

end Rank

end RaceSteward.Race
