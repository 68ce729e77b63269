import RaceSteward.Message
import RaceSteward.Json.Reading

/-!
# Messages as JSON

A message is an object whose member `type` names its kind. A kind that extends an order keeps the
fields of the order in a member `base`; an order without fields is `null` there.

* `Message.toJson`, `Message.ofJson?`: the two directions.
-/

namespace RaceSteward

namespace Player

def toJson (p : Player) : Json :=
  .record [("id", .ofNat p.id.toNat), ("nickname", .ofString p.nickname),
    ("cheated", .ofNat p.cheated.toNat)]

def ofJson? (j : Json) : Option Player := do
  match ← j.fields? .ignored ["id", "nickname", "cheated"] with
  | [id, nickname, cheated] =>
    some ⟨← id.asWord?, ← nickname.asText?, ← cheated.asByte?⟩
  | _ => none

end Player

namespace Vector3

def toJson (v : Vector3) : Json :=
  .record [("x", .ofSingle v.x), ("y", .ofSingle v.y), ("z", .ofSingle v.z)]

def ofJson? (j : Json) : Option Vector3 := do
  match ← j.fields? .ignored ["x", "y", "z"] with
  | [x, y, z] => some ⟨← x.asSingle?, ← y.asSingle?, ← z.asSingle?⟩
  | _ => none

end Vector3

namespace Quaternion

def toJson (q : Quaternion) : Json :=
  .record [("x", .ofSingle q.x), ("y", .ofSingle q.y), ("z", .ofSingle q.z), ("w", .ofSingle q.w)]

def ofJson? (j : Json) : Option Quaternion := do
  match ← j.fields? .ignored ["x", "y", "z", "w"] with
  | [x, y, z, w] => some ⟨← x.asSingle?, ← y.asSingle?, ← z.asSingle?, ← w.asSingle?⟩
  | _ => none

end Quaternion

/-! ## Payloads -/

/-- The members of a payload, without the tag. -/
def Opcode.members : (op : Opcode) → op.Payload → List (String × Json)
  | .orderChat, m => [("content", .ofString m.content)]
  | .chat, m =>
    [("base", .record [("content", .ofString m.content)]), ("player_id", .ofNat m.playerId.toNat)]
  | .orderGlobalCheat, m => [("cheated", .ofNat m.cheated.toNat)]
  | .globalCheat, m =>
    [("base", .record [("cheated", .ofNat m.cheated.toNat)]), ("player_id", .ofNat m.playerId.toNat)]
  | .orderClientList, _ => []
  | .clientList, m => [("base", .null), ("players", .array (m.players.map Player.toJson))]
  | .ballState, m =>
    [("player_id", .ofNat m.playerId.toNat), ("ball_type", .ofNat m.ballType.toNat),
      ("position", m.position.toJson), ("rotation", m.rotation.toJson)]
  | .clientConnected, m => [("player", m.player.toJson)]
  | .clientDisconnected, m => [("player_id", .ofNat m.playerId.toNat)]
  | .cheatState, m =>
    [("player_id", .ofNat m.playerId.toNat), ("cheated", .ofNat m.cheated.toNat)]
  | .levelFinish, m =>
    [("player_id", .ofNat m.playerId.toNat), ("points", .ofInt m.points.toInt),
      ("lifes", .ofInt m.lifes.toInt), ("life_bonus", .ofInt m.lifeBonus.toInt),
      ("level_bonus", .ofInt m.levelBonus.toInt), ("time_elapsed", .ofSingle m.timeElapsed),
      ("start_points", .ofInt m.startPoints.toInt), ("current_level", .ofInt m.currentLevel.toInt),
      ("cheated", .ofNat m.cheated.toNat)]

namespace OrderChat

def ofJson? (j : Json) : Option OrderChat := do
  match ← j.fields? .ignored ["content"] with
  | [content] => some ⟨← content.asText?⟩
  | _ => none

end OrderChat

namespace OrderGlobalCheat

def ofJson? (j : Json) : Option OrderGlobalCheat := do
  match ← j.fields? .ignored ["cheated"] with
  | [cheated] => some ⟨← cheated.asByte?⟩
  | _ => none

end OrderGlobalCheat

namespace OrderClientList

/-- An order without fields is `null`, or an object or array with nothing in it. -/
def ofJson? : Json → Option OrderClientList
  | .null => some {}
  | .object [] => some {}
  | .array [] => some {}
  | _ => none

end OrderClientList

/-- The payload in a document, the tag apart. -/
def Opcode.payloadOfJson? (j : Json) : (op : Opcode) → Option op.Payload
  | .orderChat => OrderChat.ofJson? j
  | .chat => do
    match ← j.fields? .ignored ["base", "player_id"] with
    | [base, playerId] => some ⟨(← OrderChat.ofJson? base).content, ← playerId.asWord?⟩
    | _ => none
  | .orderGlobalCheat => OrderGlobalCheat.ofJson? j
  | .globalCheat => do
    match ← j.fields? .ignored ["base", "player_id"] with
    | [base, playerId] => some ⟨(← OrderGlobalCheat.ofJson? base).cheated, ← playerId.asWord?⟩
    | _ => none
  | .orderClientList => OrderClientList.ofJson? j
  | .clientList => do
    match ← j.fields? .ignored ["base", "players"] with
    | [base, players] =>
      let _ ← OrderClientList.ofJson? base
      some ⟨← (← players.asArray?).mapM Player.ofJson?⟩
    | _ => none
  | .ballState => do
    match ← j.fields? .ignored ["player_id", "ball_type", "position", "rotation"] with
    | [playerId, ballType, position, rotation] =>
      some ⟨← playerId.asWord?, ← ballType.asWord?, ← Vector3.ofJson? position,
        ← Quaternion.ofJson? rotation⟩
    | _ => none
  | .clientConnected => do
    match ← j.fields? .ignored ["player"] with
    | [player] => some ⟨← Player.ofJson? player⟩
    | _ => none
  | .clientDisconnected => do
    match ← j.fields? .ignored ["player_id"] with
    | [playerId] => some ⟨← playerId.asWord?⟩
    | _ => none
  | .cheatState => do
    match ← j.fields? .ignored ["player_id", "cheated"] with
    | [playerId, cheated] => some ⟨← playerId.asWord?, ← cheated.asByte?⟩
    | _ => none
  | .levelFinish => do
    match ← j.fields? .ignored ["player_id", "points", "lifes", "life_bonus", "level_bonus",
        "time_elapsed", "start_points", "current_level", "cheated"] with
    | [playerId, points, lifes, lifeBonus, levelBonus, timeElapsed, startPoints, currentLevel,
        cheated] =>
      some ⟨← playerId.asWord?, ← points.asInt32?, ← lifes.asInt32?, ← lifeBonus.asInt32?,
        ← levelBonus.asInt32?, ← timeElapsed.asSingle?, ← startPoints.asInt32?,
        ← currentLevel.asInt32?, ← cheated.asByte?⟩
    | _ => none

/-! ## Messages -/

namespace Message

def toJson (m : Message) : Json :=
  .record (("type", .ofString m.opcode.name) :: m.opcode.members m.payload)

def ofJson? (j : Json) : Option Message := do
  let (tag, rest) ← j.tagged? "type"
  let op ← Opcode.ofName? tag
  let payload ← op.payloadOfJson? rest
  some (ofPayload op payload)

/-- The message as JSON text. -/
def toJsonText (m : Message) : String :=
  m.toJson.toText

/-- The message that a JSON text is. -/
def ofJsonText? (s : String) : Option Message := do
  ofJson? (← Json.buffered? s)

end Message

end RaceSteward
