import RaceSteward.Proofs.Race.Announcement
import RaceSteward.Proofs.Race.Provenance
import RaceSteward.Proofs.RaceControl.Places

/-!
# Names go out as they came in

A nickname is read off a client list, entered, decided and rendered, and written again. None of this
costs it a character: whatever bytes a stream has, the chat lines of results arrive as they were
meant, and begin with the very bytes that the list has for the nickname
(`RaceControl.results_verbatim`).
-/

namespace RaceSteward

namespace Message

theorem OverWire.isSingleByte {limit : UInt32} {m : Message} (h : m.OverWire limit) :
    m.IsSingleByte := by
  obtain ⟨stream, payload, rest, -, hdecode⟩ := h
  exact isSingleByte_of_decode hdecode

theorem OverWire.length_text_lt {limit : UInt32} {m : Message} (h : m.OverWire limit) {s : String}
    (hs : s ∈ m.texts) : s.length < limit.toNat := by
  obtain ⟨stream, payload, rest, hnext, hdecode⟩ := h
  calc s.length
    _ ≤ m.encode.length := length_le_of_mem_texts hs
    _ ≤ payload.length := (encode_prefix_of_decode hdecode).length_le
    _ < limit.toNat := (Frame.next_eq_whole_iff.mp hnext).2

/-- The payload of a client list in which `wire` are the bytes of the nickname of the first player
with this id: behind the opcode, the count and the players before, the id and the length stand in
front of it. -/
def Spells (payload : Bytes) (players : List Player) (id : UInt32) (wire : Bytes) : Prop :=
  ∃ earlier later cheated behind,
    players = earlier ++ ⟨id, Text.decode wire, cheated⟩ :: later ∧ (∀ q ∈ earlier, q.id ≠ id) ∧
      payload = Word.toBytes 5 ++ Word.toBytes (UInt32.ofNat players.length) ++
        earlier.flatMap Player.layout.write ++
        (Word.toBytes id ++ Word.toBytes (UInt32.ofNat wire.length) ++ wire) ++ cheated :: behind

theorem spells_of_decode {payload : Bytes} {players : List Player}
    (h : decode payload = .ok (.clientList ⟨players⟩)) {p : Player}
    (hp : p ∈ Race.Roster.distinct players) :
    Spells payload players p.id (Text.encode p.nickname) := by
  have hsingle : Text.IsSingleByte p.nickname :=
    isSingleByte_of_decode h _ (List.mem_map_of_mem (Race.Roster.mem_of_mem_distinct hp))
  obtain ⟨tail, rfl⟩ := encode_prefix_of_decode h
  obtain ⟨earlier, later, rfl, hearlier⟩ := Race.Roster.exists_split_of_mem_distinct hp
  have hname : Text.decode (Text.encode p.nickname) = p.nickname := by
    rw [Text.decode_encode, Text.narrow_eq_self hsingle]
  refine ⟨earlier, later, p.cheated, later.flatMap Player.layout.write ++ tail, ?_, hearlier, ?_⟩
  · rw [hname]
  · rw [encode_clientList, List.flatMap_append, List.flatMap_cons, write_player, Text.length_encode]
    simp only [List.append_assoc, List.cons_append, List.nil_append]

end Message

namespace RaceControl

open Race (Roster Rank Standings Tracker)

/-! ## Reading a stream -/

/-- Each frame below the limit that comes to the front of the stream is decoded and routed, or passed
over if it is no message, and orders come in between at will. `rest` is what has not been read. -/
inductive Reads (limit : UInt32) : Bytes → List Step → Bytes → Prop where
  | done (stream : Bytes) : Reads limit stream [] stream
  | message {stream payload later rest : Bytes} {m : Message} {steps : List Step}
      (hfront : Frame.next limit stream = .whole payload later)
      (hdecode : Message.decode payload = .ok m) (hlater : Reads limit later steps rest) :
      Reads limit stream (.route m :: steps) rest
  | malformed {stream payload later rest : Bytes} {e : DecodeError} {steps : List Step}
      (hfront : Frame.next limit stream = .whole payload later)
      (hdecode : Message.decode payload = .error e) (hlater : Reads limit later steps rest) :
      Reads limit stream steps rest
  | order {stream rest : Bytes} {s : Step} {steps : List Step} (hs : ∀ m, s ≠ .route m)
      (hlater : Reads limit stream steps rest) : Reads limit stream (s :: steps) rest

/-- The list that started the last race has come in this payload. -/
def OpenedBy (limit : UInt32) (stream : Bytes) (steps : List Step) (payload : Bytes)
    (players : List Player) : Prop :=
  ∃ before between unread later,
    steps = before ++ .route (.clientList ⟨players⟩) :: between ∧ Reads limit stream before unread ∧
      Frame.next limit unread = .whole payload later ∧
      Message.decode payload = .ok (.clientList ⟨players⟩) ∧ (new.run before).2.armed = true ∧
      ((new.run before).2.step (.route (.clientList ⟨players⟩))).2.taken between = []

variable {limit : UInt32} {stream rest : Bytes} {steps : List Step} {players : List Player}

theorem Reads.exists_front {before between : List Step} {m : Message}
    (h : Reads limit stream (before ++ .route m :: between) rest) :
    ∃ unread payload later, Reads limit stream before unread ∧
      Frame.next limit unread = .whole payload later ∧ Message.decode payload = .ok m := by
  generalize hsteps : before ++ .route m :: between = steps at h
  induction h generalizing before with
  | done stream => cases before <;> cases hsteps
  | message hfront hdecode _ ih =>
    cases before with
    | nil =>
      cases hsteps
      exact ⟨_, _, _, .done _, hfront, hdecode⟩
    | cons s before =>
      cases hsteps
      obtain ⟨unread, payload, later, hreads, hthere⟩ := ih rfl
      exact ⟨unread, payload, later, .message hfront hdecode hreads, hthere⟩
  | malformed hfront hdecode _ ih =>
    obtain ⟨unread, payload, later, hreads, hthere⟩ := ih hsteps
    exact ⟨unread, payload, later, .malformed hfront hdecode hreads, hthere⟩
  | order hs _ ih =>
    cases before with
    | nil =>
      cases hsteps
      exact absurd rfl (hs m)
    | cons s before =>
      cases hsteps
      obtain ⟨unread, payload, later, hreads, hthere⟩ := ih rfl
      exact ⟨unread, payload, later, .order hs hreads, hthere⟩

theorem exists_of_getLast?_taken {rc : RaceControl} (h : (rc.taken steps).getLast? = some players) :
    ∃ before between, steps = before ++ .route (.clientList ⟨players⟩) :: between ∧
      (rc.run before).2.armed = true ∧
      ((rc.run before).2.step (.route (.clientList ⟨players⟩))).2.taken between = [] := by
  induction steps generalizing rc with
  | nil => cases h
  | cons s steps ih =>
    rw [taken, List.getLast?_append] at h
    rcases hlater : ((rc.step s).2.taken steps).getLast? with _ | last
    · rw [hlater, Option.none_or] at h
      cases htaken : rc.taken? s with
      | none =>
        rw [htaken] at h
        cases h
      | some list =>
        rw [htaken] at h
        cases h
        obtain ⟨rfl, harmed⟩ := taken?_eq_some_iff.mp htaken
        exact ⟨[], steps, rfl, harmed, List.getLast?_eq_none_iff.mp hlater⟩
    · rw [hlater, Option.some_or] at h
      cases h
      obtain ⟨before, between, rfl, harmed, hnone⟩ := ih hlater
      exact ⟨s :: before, between, rfl, harmed, hnone⟩

theorem Reads.exists_openedBy {after : List Step} (h : Reads limit stream (steps ++ after) rest)
    (hlast : (new.taken steps).getLast? = some players) :
    ∃ payload, OpenedBy limit stream steps payload players := by
  obtain ⟨before, between, rfl, harmed, hnone⟩ := exists_of_getLast?_taken hlast
  rw [List.append_assoc] at h
  obtain ⟨unread, payload, later, hreads, hfront, hdecode⟩ := h.exists_front
  exact ⟨payload, before, between, unread, later, rfl, hreads, hfront, hdecode, harmed, hnone⟩

/-! ## The names that race control knows -/

theorem drawn_run (steps : List Step) :
    (new.run steps).2.tracker.Drawn ((new.taken steps).getLastD []) := by
  rw [(new.tracker_run steps).1, ← lists_ops]
  exact Tracker.drawn_new.run Tracker.sound_new (new.ops steps)

theorem isOf_published (steps : List Step) (s : Step) :
    ∀ standings ∈ ((new.run steps).2.step s).1.published, ∀ r ∈ standings.ranks,
      r.IsOf ((new.taken steps).getLastD []) := by
  cases hop : (new.run steps).2.op? s with
  | none =>
    rw [published_of_no_op hop]
    nofun
  | some op =>
    rw [(step_of_op hop).2.1, (sent_publish _).1]
    exact (drawn_run steps).yields op

theorem Reads.exists_of_mem_distinct {after : List Step}
    (h : Reads limit stream (steps ++ after) rest) {p : Player}
    (hp : p ∈ Roster.distinct ((new.taken steps).getLastD [])) :
    Text.IsSingleByte p.nickname ∧ p.nickname.length < limit.toNat ∧
      ∃ payload players, OpenedBy limit stream steps payload players ∧
        Message.Spells payload players p.id (Text.encode p.nickname) := by
  rw [List.getLastD_eq_getLast?] at hp
  cases hlast : (new.taken steps).getLast? with
  | none =>
    rw [hlast] at hp
    cases hp
  | some players =>
    rw [hlast, Option.getD_some] at hp
    obtain ⟨payload, hopened⟩ := h.exists_openedBy hlast
    have ⟨_, _, unread, later, _, _, hfront, hdecode, _⟩ := hopened
    have hwire : (Message.clientList ⟨players⟩).OverWire limit :=
      ⟨unread, payload, later, hfront, hdecode⟩
    have htext : p.nickname ∈ (Message.clientList ⟨players⟩).texts :=
      List.mem_map_of_mem (Roster.mem_of_mem_distinct hp)
    exact ⟨hwire.isSingleByte _ htext, hwire.length_text_lt htext, payload, _, hopened,
      Message.spells_of_decode hdecode hp⟩

/-- Whatever a stream brings in frames below a limit of at most 2 GiB, with whatever orders in
between, the bytes of a nickname go out in an announcement as they came in the list that started the
race. -/
theorem results_verbatim (hlimit : limit.toNat ≤ 2147483648)
    (h : Reads limit stream steps rest) :
    let tracker := (new.run steps).2.tracker
    (∀ p ∈ tracker.roster.players, Text.IsSingleByte p.nickname) ∧
      (∀ r ∈ tracker.decided, Text.IsSingleByte r.nickname) ∧
      ∀ (i : Nat) s, steps[i]? = some s → ∃ bulletin, (new.run steps).1[i]? = some bulletin ∧
        ∀ m ∈ bulletin.sent, Message.decode m.encode = .ok m ∧
          (m = .whoIsOnline ∨ ∃ standings r payload players wire,
            bulletin.published = some standings ∧ r ∈ standings.ranks ∧ m = .broadcast r.render ∧
            OpenedBy limit stream (steps.take i) payload players ∧
            Message.Spells payload players r.id wire ∧ Text.IsAscii r.suffix ∧
            let content := wire ++ Text.encode r.suffix
            m.encode = Word.toBytes 2 ++
              (Word.toBytes (UInt32.ofNat content.length) ++ content) ++ Word.toBytes 0) := by
  intro tracker
  have hdrawn := drawn_run steps
  have hall : Reads limit stream (steps ++ []) rest := (List.append_nil steps).symm ▸ h
  refine ⟨fun p hp => ?_, fun r hr => ?_, fun i s hi => ⟨_, getElem?_run new hi, ?_⟩⟩
  · exact (hall.exists_of_mem_distinct (hdrawn.roster p hp)).1
  · obtain ⟨p, hp, -, hname⟩ := hdrawn.decided r hr
    rw [hname]
    exact (hall.exists_of_mem_distinct hp).1
  · intro m hm
    obtain ⟨harms, hnot⟩ := sent_step (new.run (steps.take i)).2 s
    by_cases hs : (new.run (steps.take i)).2.Arms s
    · rw [(harms hs).1, List.mem_singleton] at hm
      subst hm
      exact ⟨rfl, .inl rfl⟩
    · rw [hnot hs, List.mem_flatMap] at hm
      obtain ⟨standings, hstandings, hm⟩ := hm
      obtain ⟨r, hr, rfl⟩ := List.mem_map.mp hm
      rw [Option.mem_toList] at hstandings
      -- whoever is announced is of the list that started the race, which stood in the stream
      obtain ⟨p, hp, hid, hname⟩ := isOf_published (steps.take i) s standings hstandings r hr
      have hsplit : Reads limit stream (steps.take i ++ steps.drop i) rest :=
        (List.take_append_drop i steps).symm ▸ h
      obtain ⟨hsingle, hlength, payload, players, hopened, hspells⟩ :=
        hsplit.exists_of_mem_distinct hp
      rw [← hname] at hsingle hlength hspells
      rw [← hid] at hspells
      exact ⟨Race.Rank.decode_announcement hsingle (by omega), .inr ⟨standings, r, payload, players,
        _, hstandings, hr, rfl, hopened, hspells, r.isAscii_suffix, r.encode_announcement⟩⟩

/-- A list that gives an id twice, the first time as `Zoë` in three bytes; then the race is stopped. -/
def latin : Bytes :=
  Frame.encode [5, 0, 0, 0, 2, 0, 0, 0, 7, 0, 0, 0, 3, 0, 0, 0, 90, 111, 235, 0, 7, 0, 0, 0,
    1, 0, 0, 0, 120, 1]

theorem results_verbatim_latin :
    let steps : List Step := [.apply (.armStart 0),
      .route (.clientList ⟨[⟨7, "Zoë", 0⟩, ⟨7, "x", 1⟩]⟩), .apply (.forceStop 1)]
    (2048 : UInt32).toNat ≤ 2147483648 ∧ Reads 2048 latin steps [] ∧
      ∃ bulletin, (new.run steps).1[2]? = some bulletin ∧
        bulletin.sent = [.broadcast "Zoë: DNF. Reason: Timeout"] ∧
        (Message.broadcast "Zoë: DNF. Reason: Timeout").encode.take 11 =
          [2, 0, 0, 0, 25, 0, 0, 0, 90, 111, 235] ∧
        Message.decode (Message.broadcast "Zoë: DNF. Reason: Timeout").encode =
          .ok (.broadcast "Zoë: DNF. Reason: Timeout") := by
  intro steps
  have hlimit : (2048 : UInt32).toNat ≤ 2147483648 := by decide
  have hreads : Reads 2048 latin steps [] :=
    .order nofun (.message rfl rfl (.order nofun (.done [])))
  obtain ⟨-, -, hsteps⟩ := results_verbatim hlimit hreads
  obtain ⟨bulletin, hbulletin, hsent⟩ := hsteps 2 _ rfl
  cases hbulletin
  exact ⟨hlimit, hreads, _, rfl, rfl, rfl, (hsent _ (List.mem_singleton.mpr rfl)).1⟩

end RaceControl

end RaceSteward
