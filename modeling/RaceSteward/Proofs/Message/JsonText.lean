import RaceSteward.Message.Json
import RaceSteward.Proofs.Json.Fields

/-!
# Messages survive as JSON text

The text of a message without floating-point fields is read back as the message, character for
character (`Message.ofJsonText?_toJsonText`): unlike the wire, JSON has room for every character.
-/

namespace RaceSteward

open Json

/-! ## Parts of payloads -/

theorem Player.fields?_toJson (p : Player) :
    p.toJson.fields? .ignored ["id", "nickname", "cheated"] =
      some [.ofNat p.id.toNat, .ofString p.nickname, .ofNat p.cheated.toNat] := by
  refine fields?_record [("id", _), ("nickname", _), ("cheated", _)] ?_
  simp

@[simp] theorem Player.ofJson?_toJson (p : Player) : ofJson? p.toJson = some p := by
  simp [ofJson?, fields?_toJson]

@[simp] theorem OrderChat.ofJson?_record (content : String) :
    ofJson? (record [("content", ofString content)]) = some ⟨content⟩ := by
  have hfields := fields?_record [("content", ofString content)] (by simp)
  simp only [List.map_cons, List.map_nil] at hfields
  simp [ofJson?, hfields]

@[simp] theorem OrderGlobalCheat.ofJson?_record (cheated : UInt8) :
    ofJson? (record [("cheated", ofNat cheated.toNat)]) = some ⟨cheated⟩ := by
  have hfields := fields?_record [("cheated", ofNat cheated.toNat)] (by simp)
  simp only [List.map_cons, List.map_nil] at hfields
  simp [ofJson?, hfields]

/-! ## Payloads -/

namespace Opcode

theorem nodup_members (op : Opcode) (p : op.Payload) : ((op.members p).map (·.1)).Nodup := by
  cases op <;> simp [members]

theorem ne_type_of_mem_members {op : Opcode} {p : op.Payload} {member : String × Json}
    (h : member ∈ op.members p) : member.1 ≠ "type" := by
  have hnot : "type" ∉ (op.members p).map (·.1) := by
    cases op <;> simp [members]
  exact fun heq => hnot (List.mem_map.mpr ⟨member, h, heq⟩)

theorem fields?_members (op : Opcode) (p : op.Payload) :
    (record (op.members p)).fields? .ignored ((op.members p).map (·.1)) =
      some ((op.members p).map (·.2)) :=
  fields?_record _ (nodup_members op p)

theorem payloadOfJson?_members {op : Opcode} (hball : op ≠ .ballState) (hfinish : op ≠ .levelFinish)
    (p : op.Payload) : op.payloadOfJson? (record (op.members p)) = some p := by
  have hfields := fields?_members op p
  cases op with
  | orderChat => exact OrderChat.ofJson?_record p.content
  | orderGlobalCheat => exact OrderGlobalCheat.ofJson?_record p.cheated
  | orderClientList => rfl
  | clientList =>
    have hplayers : (p.players.map Player.toJson).mapM Player.ofJson? = some p.players :=
      (mapM_map_eq_some (k := id) fun player _ => player.ofJson?_toJson).trans
        (congrArg some (List.map_id p.players))
    simp only [members, List.map_cons, List.map_nil] at hfields
    simp [payloadOfJson?, members, hfields, hplayers, OrderClientList.ofJson?, asArray?]
  | chat | globalCheat | clientConnected | clientDisconnected | cheatState =>
    simp only [members, List.map_cons, List.map_nil] at hfields
    simp [payloadOfJson?, members, hfields]
  | ballState => exact absurd rfl hball
  | levelFinish => exact absurd rfl hfinish

end Opcode

/-! ## What is written -/

theorem Player.written_toJson (p : Player) : p.toJson.Written := by
  refine .record ?_
  simp [Written.word, Written.byte, Written.string]

theorem Player.depth_toJson (p : Player) : p.toJson.depth = 1 := by
  simp [toJson, record, depth, depthMembers, ofNat, ofString]

namespace Opcode

variable {op : Opcode} (hball : op ≠ .ballState) (hfinish : op ≠ .levelFinish) (p : op.Payload)
include hball hfinish

theorem written_members : ∀ member ∈ op.members p, member.2.Written := by
  cases op with
  | orderClientList => exact nofun
  | clientList =>
    have hplayers : ∀ j ∈ p.players.map Player.toJson, j.Written :=
      List.forall_mem_map.mpr fun player _ => player.written_toJson
    simp [members, Written.null, Written.array hplayers]
  | chat | globalCheat =>
    simp [members, Written.record, Written.word, Written.byte, Written.string]
  | orderChat | orderGlobalCheat | clientConnected | clientDisconnected | cheatState =>
    simp [members, Written.word, Written.byte, Written.string, Player.written_toJson]
  | ballState => exact absurd rfl hball
  | levelFinish => exact absurd rfl hfinish

theorem depth_members_le : ∀ member ∈ op.members p, member.2.depth ≤ 2 := by
  cases op with
  | orderClientList => exact nofun
  | clientList =>
    have hitems : depthItems (p.players.map Player.toJson) ≤ 1 :=
      depthItems_le_iff.mpr (List.forall_mem_map.mpr fun player _ =>
        Nat.le_of_eq player.depth_toJson)
    have hplayers := Nat.add_le_add_left hitems 1
    simpa [members, depth] using hplayers
  | orderChat | chat | orderGlobalCheat | globalCheat | clientConnected | clientDisconnected
  | cheatState =>
    simp [members, record, depth, depthMembers, Json.ofNat, Json.ofString, Player.depth_toJson]
  | ballState => exact absurd rfl hball
  | levelFinish => exact absurd rfl hfinish

end Opcode

/-! ## Messages -/

namespace Message

variable {m : Message}

theorem written_toJson (hball : m.opcode ≠ .ballState) (hfinish : m.opcode ≠ .levelFinish) :
    m.toJson.Written :=
  .record (List.forall_mem_cons.mpr ⟨.string _, Opcode.written_members hball hfinish m.payload⟩)

theorem depth_toJson_le (hball : m.opcode ≠ .ballState) (hfinish : m.opcode ≠ .levelFinish) :
    m.toJson.depth ≤ 3 := by
  have hmembers : ∀ member ∈ ("type", ofString m.opcode.name) :: m.opcode.members m.payload,
      member.2.depth ≤ 2 :=
    List.forall_mem_cons.mpr ⟨Nat.zero_le _, Opcode.depth_members_le hball hfinish m.payload⟩
  exact Nat.add_le_add_left (depthMembers_bodies_le_iff.mpr hmembers) 1

theorem tagged?_toJson (m : Message) :
    m.toJson.tagged? "type" = some (m.opcode.name, record (m.opcode.members m.payload)) :=
  tagged?_record _ fun _ => Opcode.ne_type_of_mem_members

theorem ofJson?_toJson (hball : m.opcode ≠ .ballState) (hfinish : m.opcode ≠ .levelFinish) :
    ofJson? m.toJson = some m := by
  simp [ofJson?, tagged?_toJson, Opcode.payloadOfJson?_members hball hfinish]

/-- The text of a message without floating-point fields is an object tagged with the name of its
kind, and stands for this message and for no other. -/
theorem ofJsonText?_toJsonText (m : Message) (hball : m.opcode ≠ .ballState)
    (hfinish : m.opcode ≠ .levelFinish) :
    ofJsonText? m.toJsonText = some m ∧
      (parse? m.toJsonText).bind (tagged? "type") =
        some (m.opcode.name, record (m.opcode.members m.payload)) := by
  have hwritten := written_toJson hball hfinish
  have hdepth := depth_toJson_le hball hfinish
  constructor
  · rw [ofJsonText?, toJsonText, hwritten.buffered?_toText (by omega)]
    exact ofJson?_toJson hball hfinish
  · rw [toJsonText, hwritten.parse?_toText, Option.bind_some, tagged?_toJson]

/-- A nickname of quotes, backslashes and control characters, and one that looks like JSON and holds
characters that have no byte. -/
theorem ofJsonText?_toJsonText_nicknames :
    let m := clientList ⟨[⟨7, "\"\\\x00\n/\x7f", 255⟩, ⟨4294967295, "\x7b\"id\":1\x7d 漢😀", 0⟩]⟩
    m.toJsonText = "\x7b\"type\":\"ClientList\",\"base\":null,\"players\":[" ++
      "\x7b\"id\":7,\"nickname\":\"\\\"\\\\\\u0000\\n/\x7f\",\"cheated\":255\x7d," ++
      "\x7b\"id\":4294967295,\"nickname\":\"\x7b\\\"id\\\":1\x7d 漢😀\",\"cheated\":0\x7d]\x7d" ∧
    ofJsonText? m.toJsonText = some m := by
  intro m
  exact ⟨by decide +kernel, (ofJsonText?_toJsonText m (by decide) (by decide)).1⟩

/-- An order without fields is an object with only its tag, and the order that a chat line extends is
a member of its own. -/
example : whoIsOnline.toJsonText = "\x7b\"type\":\"OrderClientList\"\x7d" ∧
    (broadcast "go").toJsonText =
      "\x7b\"type\":\"Chat\",\"base\":\x7b\"content\":\"go\"\x7d,\"player_id\":0\x7d" := by
  decide

end Message

end RaceSteward
