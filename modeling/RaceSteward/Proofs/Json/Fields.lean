import RaceSteward.Proofs.Json.Document

/-!
# Values and fields that are written are read back

What is read out of a document that was put together from values: the values themselves, the fields
of a record (`Json.fields?_record`), and the tag of one with what is left of it
(`Json.tagged?_record`).
-/

namespace RaceSteward.Json

/-! ## Values -/

@[simp] theorem asText?_ofString (text : String) : (ofString text).asText? = some text := by
  rw [ofString, asText?, unescape?_escape, Option.map_some, String.ofList_toList]

theorem asNat?_ofNat {n greatest : Nat} (h : n ≤ greatest)
    (hgreatest : greatest ≤ Numeral.maxDigits) :
    (ofNat n).asNat? greatest = some n := by
  have hint := Numeral.toInt?_ofNat (Nat.le_trans h hgreatest)
  simp [ofNat, asNat?, asInt?, hint, h]

@[simp] theorem asWord?_ofNat (word : UInt32) : (ofNat word.toNat).asWord? = some word := by
  have hread := asNat?_ofNat (Nat.le_of_lt_succ word.toNat_lt) (by decide)
  rw [asWord?, hread, Option.map_some, UInt32.ofNat_toNat]

@[simp] theorem asByte?_ofNat (byte : UInt8) : (ofNat byte.toNat).asByte? = some byte := by
  have hread := asNat?_ofNat (Nat.le_of_lt_succ byte.toNat_lt) (by decide)
  rw [asByte?, hread, Option.map_some, UInt8.ofNat_toNat]

theorem Written.word (word : UInt32) : (ofNat word.toNat).Written :=
  .nat (Nat.le_trans (Nat.le_of_lt word.toNat_lt) (by decide))

theorem Written.byte (byte : UInt8) : (ofNat byte.toNat).Written :=
  .nat (Nat.le_trans (Nat.le_of_lt byte.toNat_lt) (by decide))

/-! ## Records -/

theorem mapM_map_eq_some {α β γ : Type} {f : α → β} {g : β → Option γ} {k : α → γ} {l : List α}
    (h : ∀ a ∈ l, g (f a) = some (k a)) : (l.map f).mapM g = some (l.map k) := by
  induction l with
  | nil => rfl
  | cons a l ih =>
    obtain ⟨ha, hl⟩ := List.forall_mem_cons.mp h
    rw [List.map_cons, List.mapM_cons, ha, ih hl]
    rfl

theorem keyed?_bodies (members : List (String × Json)) :
    keyed? (bodies members) = some members := by
  refine (mapM_map_eq_some (k := id) fun member _ => ?_).trans (congrArg some (List.map_id members))
  simp [unescape?_escape]

theorem only?_of_mem {members : List (String × Json)} (h : (members.map (·.1)).Nodup)
    {member : String × Json} (hmem : member ∈ members) :
    only? members member.1 = some member.2 := by
  have hfilter : members.filter (·.1 = member.1) = [member] := by
    induction members with
    | nil => cases hmem
    | cons first members ih =>
      obtain ⟨hfirst, hnodup⟩ := List.nodup_cons.mp h
      rcases List.mem_cons.mp hmem with rfl | hmem
      · rw [List.filter_cons_of_pos (by simp), List.filter_eq_nil_iff.mpr]
        intro other hother heq
        exact hfirst (List.mem_map.mpr ⟨other, hother, of_decide_eq_true heq⟩)
      · have hne : first.1 ≠ member.1 := fun heq =>
          hfirst (List.mem_map.mpr ⟨member, hmem, heq.symm⟩)
        rw [List.filter_cons_of_neg (by simpa using hne), ih hnodup hmem]
  rw [only?, hfilter]

theorem fields?_record (members : List (String × Json)) (h : (members.map (·.1)).Nodup) :
    (record members).fields? .ignored (members.map (·.1)) = some (members.map (·.2)) := by
  have honly : (members.map (·.1)).mapM (only? members) = some (members.map (·.2)) :=
    mapM_map_eq_some fun _ => only?_of_mem h
  change (keyed? (bodies members)).bind _ = _
  rw [keyed?_bodies, Option.bind_some, if_neg (fun hrefused => nomatch hrefused.1)]
  exact honly

theorem tagged?_record {key : String} (tag : String) {members : List (String × Json)}
    (h : ∀ member ∈ members, member.1 ≠ key) :
    (record ((key, ofString tag) :: members)).tagged? key = some (tag, record members) := by
  have honly : only? ((key, ofString tag) :: members) key = some (ofString tag) := by
    have hnone : members.filter (·.1 = key) = [] :=
      List.filter_eq_nil_iff.mpr fun member hmem => by simpa using h member hmem
    rw [only?, List.filter_cons_of_pos (by simp), hnone]
  have hrest : (bodies ((key, ofString tag) :: members)).filter
      (fun member => unescape? member.1 ≠ some key.toList) = bodies members := by
    change List.filter _ ((escape key.toList, ofString tag) :: bodies members) = _
    rw [List.filter_cons_of_neg (by simp [unescape?_escape]), List.filter_eq_self]
    intro body hbody
    obtain ⟨member, hmem, rfl⟩ := List.mem_map.mp hbody
    have hne := h member hmem
    simpa [unescape?_escape, String.toList_inj] using hne
  change (keyed? (bodies ((key, ofString tag) :: members))).bind _ = _
  rw [keyed?_bodies, Option.bind_some, honly]
  simp only [Option.bind_eq_bind, Option.bind_some, asText?_ofString]
  exact congrArg (fun rest => some (tag, object rest)) hrest

end RaceSteward.Json
