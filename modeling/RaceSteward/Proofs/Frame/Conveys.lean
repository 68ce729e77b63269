import RaceSteward.Message.Codec
import RaceSteward.Proofs.Frame.Front

/-!
# The messages that a stream conveys

A stream conveys messages if it begins with whole frames below the limit whose payloads decode to
them. The longest such run is what a reader makes of a stream, however the stream is cut.

* `Frame.Conveys.exists_append`: of two runs of one stream, the longer one continues the other.
* `Frame.longest_of_stuck`: a run is the longest once no further message stands at its end.
* `Frame.exists_longest`, `Frame.Longest.unique`: every stream has exactly one longest run.
-/

namespace RaceSteward.Frame

variable {limit : UInt32} {stream rest : Bytes} {messages : List Message}

/-- The stream begins with the frames of `messages`; `rest` comes after them. -/
def Conveys (limit : UInt32) (stream : Bytes) (messages : List Message) (rest : Bytes) : Prop :=
  ∃ payloads : List Bytes, stream = payloads.flatMap encode ++ rest ∧
    (∀ payload ∈ payloads, payload.length < limit.toNat) ∧
    payloads.map Message.decode = messages.map .ok

/-- The longest run from the start of the stream: every other one is a beginning of it. -/
structure Longest (limit : UInt32) (stream : Bytes) (messages : List Message) (rest : Bytes) :
    Prop where
  conveys : Conveys limit stream messages rest
  longest : ∀ others after, Conveys limit stream others after → others <+: messages

/-! ## Making a run longer -/

theorem conveys_nil (limit : UInt32) (stream : Bytes) : Conveys limit stream [] stream :=
  ⟨[], rfl, fun _ h => (List.not_mem_nil h).elim, rfl⟩

theorem Conveys.cons {payload : Bytes} {m : Message} (h : Conveys limit stream messages rest)
    (hlength : payload.length < limit.toNat) (hdecode : Message.decode payload = .ok m) :
    Conveys limit (encode payload ++ stream) (m :: messages) rest := by
  obtain ⟨payloads, rfl, hlengths, hmessages⟩ := h
  refine ⟨payload :: payloads, ?_, List.forall_mem_cons.mpr ⟨hlength, hlengths⟩, ?_⟩
  · rw [List.flatMap_cons, List.append_assoc]
  · rw [List.map_cons, List.map_cons, hmessages, hdecode]

theorem Conveys.concat {payload : Bytes} {m : Message}
    (h : Conveys limit stream messages (encode payload ++ rest))
    (hlength : payload.length < limit.toNat) (hdecode : Message.decode payload = .ok m) :
    Conveys limit stream (messages ++ [m]) rest := by
  obtain ⟨payloads, hstream, hlengths, hmessages⟩ := h
  refine ⟨payloads ++ [payload], ?_, ?_, ?_⟩
  · rw [List.flatMap_append, List.append_assoc, hstream]
    simp only [List.flatMap_cons, List.flatMap_nil, List.append_nil]
  · intro p hp
    rcases List.mem_append.mp hp with hp | hp
    · exact hlengths p hp
    · rw [List.mem_singleton] at hp
      rw [hp]
      exact hlength
  · rw [List.map_append, List.map_append, hmessages, List.map_singleton, List.map_singleton, hdecode]

theorem Conveys.append (h : Conveys limit stream messages rest) (more : Bytes) :
    Conveys limit (stream ++ more) messages (rest ++ more) := by
  obtain ⟨payloads, rfl, hlengths, hmessages⟩ := h
  exact ⟨payloads, List.append_assoc .., hlengths, hmessages⟩

/-! ## Comparing two runs -/

theorem encode_append_inj {p q after after' : Bytes} (hp : p.length < limit.toNat)
    (hq : q.length < limit.toNat) (h : encode p ++ after = encode q ++ after') :
    p = q ∧ after = after' := by
  have hfront := next_encode hp after
  rw [h, next_encode hq after'] at hfront
  cases hfront
  exact ⟨rfl, rfl⟩

theorem payloads_append {payloads others : List Bytes} {rest after : Bytes}
    (hpayloads : ∀ p ∈ payloads, p.length < limit.toNat)
    (hothers : ∀ p ∈ others, p.length < limit.toNat) (hle : payloads.length ≤ others.length)
    (h : payloads.flatMap encode ++ rest = others.flatMap encode ++ after) :
    ∃ more, others = payloads ++ more ∧ rest = more.flatMap encode ++ after := by
  induction payloads generalizing others with
  | nil => exact ⟨others, rfl, h⟩
  | cons p payloads ih =>
    cases others with
    | nil => simp at hle
    | cons q others =>
      rw [List.forall_mem_cons] at hpayloads hothers
      rw [List.flatMap_cons, List.flatMap_cons, List.append_assoc, List.append_assoc] at h
      obtain ⟨rfl, hrest⟩ := encode_append_inj hpayloads.1 hothers.1 h
      obtain ⟨more, rfl, hafter⟩ := ih hpayloads.2 hothers.2 (Nat.le_of_succ_le_succ hle) hrest
      exact ⟨more, rfl, hafter⟩

/-- Of two runs of one stream, the longer one continues the other. -/
theorem Conveys.exists_append {others : List Message} {after : Bytes}
    (h : Conveys limit stream messages rest) (hothers : Conveys limit stream others after)
    (hle : messages.length ≤ others.length) :
    ∃ more, others = messages ++ more ∧ Conveys limit rest more after := by
  obtain ⟨payloads, hstream, hlengths, hmessages⟩ := h
  obtain ⟨payloads', hstream', hlengths', hmessages'⟩ := hothers
  have hcount : payloads.length ≤ payloads'.length := by
    have hn := congrArg List.length hmessages
    have hn' := congrArg List.length hmessages'
    simp only [List.length_map] at hn hn'
    omega
  obtain ⟨extra, rfl, hrest⟩ :=
    payloads_append hlengths hlengths' hcount (hstream.symm.trans hstream')
  rw [List.map_append, hmessages] at hmessages'
  obtain ⟨first, more, rfl, hfirst, hmore⟩ := List.map_eq_append_iff.mp hmessages'.symm
  have heq : first = messages := by
    exact List.map_inj_right (fun _ _ heq => Except.ok.inj heq) |>.mp hfirst
  subst heq
  exact ⟨more, rfl, extra, hrest, fun p hp => hlengths' p (List.mem_append_right _ hp), hmore.symm⟩

/-- No message stands at the front of the stream. -/
def Stuck (limit : UInt32) (stream : Bytes) : Prop :=
  ∀ payload rest, next limit stream = .whole payload rest →
    ∀ m, Message.decode payload ≠ .ok m

theorem Stuck.eq_nil (h : Stuck limit stream) (hconveys : Conveys limit stream messages rest) :
    messages = [] := by
  obtain ⟨payloads, rfl, hlengths, hmessages⟩ := hconveys
  cases payloads with
  | nil => exact List.map_eq_nil_iff.mp hmessages.symm
  | cons p payloads =>
    cases messages with
    | nil => cases hmessages
    | cons m messages =>
      rw [List.map_cons, List.map_cons, List.cons.injEq] at hmessages
      rw [List.flatMap_cons, List.append_assoc] at h
      have hfront := next_encode (hlengths p List.mem_cons_self) (payloads.flatMap encode ++ rest)
      exact absurd hmessages.1 (h p _ hfront m)

theorem stuck_of_incomplete (h : Incomplete limit stream) : Stuck limit stream := by
  intro payload rest hfront
  rw [next_eq_incomplete_iff.mpr h] at hfront
  cases hfront

theorem stuck_of_tooLarge {length : UInt32} (hlimit : limit ≤ length) (unread : Bytes) :
    Stuck limit (Word.toBytes length ++ unread) := by
  intro payload rest hfront
  rw [next_eq_tooLarge_iff.mpr ⟨rfl, hlimit⟩] at hfront
  cases hfront

theorem stuck_of_malformed {payload : Bytes} {e : DecodeError}
    (hlength : payload.length < limit.toNat) (hdecode : Message.decode payload = .error e)
    (rest : Bytes) : Stuck limit (encode payload ++ rest) := by
  intro p after hfront m hm
  rw [next_encode hlength rest] at hfront
  cases hfront
  rw [hdecode] at hm
  cases hm

theorem longest_of_stuck (h : Conveys limit stream messages rest) (hstuck : Stuck limit rest) :
    Longest limit stream messages rest := by
  refine ⟨h, fun others after hothers => ?_⟩
  rcases Nat.le_total others.length messages.length with hle | hle
  · obtain ⟨more, rfl, -⟩ := hothers.exists_append h hle
    exact List.prefix_append others more
  · obtain ⟨more, rfl, hmore⟩ := h.exists_append hothers hle
    have hnil := hstuck.eq_nil hmore
    subst hnil
    exact ⟨[], by simp only [List.append_nil]⟩

theorem exists_longest (limit : UInt32) (stream : Bytes) :
    ∃ messages rest, Longest limit stream messages rest := by
  suffices h : ∃ messages rest, Conveys limit stream messages rest ∧ Stuck limit rest by
    obtain ⟨messages, rest, hconveys, hstuck⟩ := h
    exact ⟨messages, rest, longest_of_stuck hconveys hstuck⟩
  induction hlength : stream.length using Nat.strongRecOn generalizing stream with
  | ind n ih =>
    subst hlength
    cases hfront : next limit stream with
    | whole payload rest =>
      have hshorter := length_lt_of_next_whole hfront
      obtain ⟨rfl, hpayload⟩ := next_eq_whole_iff.mp hfront
      cases hdecode : Message.decode payload with
      | ok m =>
        obtain ⟨messages, after, hconveys, hstuck⟩ := ih rest.length hshorter rest rfl
        exact ⟨m :: messages, after, hconveys.cons hpayload hdecode, hstuck⟩
      | error e => exact ⟨[], _, conveys_nil _ _, stuck_of_malformed hpayload hdecode rest⟩
    | tooLarge length unread =>
      obtain ⟨rfl, hlimit⟩ := next_eq_tooLarge_iff.mp hfront
      exact ⟨[], _, conveys_nil _ _, stuck_of_tooLarge hlimit unread⟩
    | incomplete =>
      exact ⟨[], _, conveys_nil _ _, stuck_of_incomplete (next_eq_incomplete_iff.mp hfront)⟩

theorem Longest.unique {others : List Message} {after : Bytes}
    (h : Longest limit stream messages rest) (hothers : Longest limit stream others after) :
    messages = others ∧ rest = after := by
  have hle : messages.length ≤ others.length :=
    (hothers.longest messages rest h.conveys).length_le
  obtain ⟨more, rfl, hmore⟩ := h.conveys.exists_append hothers.conveys hle
  have hnil : more = [] := by
    have hlength := (h.longest _ after hothers.conveys).length_le
    rw [List.length_append] at hlength
    exact List.eq_nil_of_length_eq_zero (by omega)
  subst hnil
  obtain ⟨payloads, hrest, -, hmessages⟩ := hmore
  rw [List.map_nil, List.map_eq_nil_iff] at hmessages
  subst hmessages
  exact ⟨(List.append_nil _).symm, hrest⟩

end RaceSteward.Frame
