import RaceSteward.Message
import RaceSteward.Wire.Layout

/-!
# The wire form of messages

A message is its opcode followed by the fields of its payload. `Message.encode` writes it,
`Message.decode` reads whichever message the opcode announces, and `Opcode.decode` reads a payload
of one kind and refuses every other opcode. Bytes after the last field are left alone.
-/

namespace RaceSteward

/-! ## Layouts of the payloads -/

namespace Player

def layout : Layout Player :=
  ((Layout.word "player.id").and <| (Layout.text "player.nickname").and <|
    Layout.byte "player.cheated").as
    (fun (id, nickname, cheated) => ⟨id, nickname, cheated⟩)
    (fun p => (p.id, p.nickname, p.cheated))

/-- The fewest bytes a player takes. -/
def minSize : Nat := 9

end Player

namespace Vector3

def layout (name : String) : Layout Vector3 :=
  ((Layout.single (name ++ ".x")).and <| (Layout.single (name ++ ".y")).and <|
    Layout.single (name ++ ".z")).as
    (fun (x, y, z) => ⟨x, y, z⟩)
    (fun v => (v.x, v.y, v.z))

end Vector3

namespace Quaternion

def layout (name : String) : Layout Quaternion :=
  ((Layout.single (name ++ ".x")).and <| (Layout.single (name ++ ".y")).and <|
    (Layout.single (name ++ ".z")).and <| Layout.single (name ++ ".w")).as
    (fun (x, y, z, w) => ⟨x, y, z, w⟩)
    (fun q => (q.x, q.y, q.z, q.w))

end Quaternion

namespace OrderChat

def layout : Layout OrderChat :=
  (Layout.text "content").as (fun content => ⟨content⟩) (·.content)

end OrderChat

namespace Chat

def layout : Layout Chat :=
  (OrderChat.layout.and <| Layout.word "player_id").as
    (fun (order, playerId) => ⟨order.content, playerId⟩)
    (fun m => (⟨m.content⟩, m.playerId))

end Chat

namespace OrderGlobalCheat

def layout : Layout OrderGlobalCheat :=
  (Layout.byte "cheated").as (fun cheated => ⟨cheated⟩) (·.cheated)

end OrderGlobalCheat

namespace GlobalCheat

def layout : Layout GlobalCheat :=
  (OrderGlobalCheat.layout.and <| Layout.word "player_id").as
    (fun (order, playerId) => ⟨order.cheated, playerId⟩)
    (fun m => (⟨m.cheated⟩, m.playerId))

end GlobalCheat

namespace OrderClientList

def layout : Layout OrderClientList :=
  Layout.nothing.as (fun _ => {}) (fun _ => ())

end OrderClientList

namespace ClientList

def layout : Layout ClientList :=
  (Layout.list "players.len" Player.minSize Player.layout).as
    (fun players => ⟨players⟩) (·.players)

/-- For how many players room is made when `count` are announced and `remaining` bytes are there. -/
def room (count : UInt32) (remaining : Nat) : Nat :=
  min count.toNat (remaining / Player.minSize)

/-- The players that are read after a count. -/
def entries (count : UInt32) (c : Cursor) : Read.Tries Player :=
  Read.tries Player.minSize Player.layout.read count.toNat c

end ClientList

namespace BallState

def layout : Layout BallState :=
  ((Layout.word "player_id").and <| (Layout.word "ball_type").and <|
    (Vector3.layout "position").and <| Quaternion.layout "rotation").as
    (fun (playerId, ballType, position, rotation) => ⟨playerId, ballType, position, rotation⟩)
    (fun m => (m.playerId, m.ballType, m.position, m.rotation))

end BallState

namespace ClientConnected

def layout : Layout ClientConnected :=
  Player.layout.as (fun player => ⟨player⟩) (·.player)

end ClientConnected

namespace ClientDisconnected

def layout : Layout ClientDisconnected :=
  (Layout.word "player_id").as (fun playerId => ⟨playerId⟩) (·.playerId)

end ClientDisconnected

namespace CheatState

def layout : Layout CheatState :=
  ((Layout.word "player_id").and <| Layout.byte "cheated").as
    (fun (playerId, cheated) => ⟨playerId, cheated⟩)
    (fun m => (m.playerId, m.cheated))

end CheatState

namespace LevelFinish

def layout : Layout LevelFinish :=
  ((Layout.word "player_id").and <| (Layout.int "points").and <| (Layout.int "lifes").and <|
    (Layout.int "life_bonus").and <| (Layout.int "level_bonus").and <|
    (Layout.single "time_elapsed").and <| (Layout.int "start_points").and <|
    (Layout.int "current_level").and <| Layout.byte "cheated").as
    (fun (playerId, points, lifes, lifeBonus, levelBonus, timeElapsed, startPoints, currentLevel,
        cheated) =>
      ⟨playerId, points, lifes, lifeBonus, levelBonus, timeElapsed, startPoints, currentLevel,
        cheated⟩)
    (fun m => (m.playerId, m.points, m.lifes, m.lifeBonus, m.levelBonus, m.timeElapsed,
      m.startPoints, m.currentLevel, m.cheated))

end LevelFinish

namespace Opcode

def layout : (op : Opcode) → Layout op.Payload
  | orderChat => OrderChat.layout
  | chat => Chat.layout
  | orderGlobalCheat => OrderGlobalCheat.layout
  | orderClientList => OrderClientList.layout
  | clientList => ClientList.layout
  | ballState => BallState.layout
  | clientConnected => ClientConnected.layout
  | clientDisconnected => ClientDisconnected.layout
  | cheatState => CheatState.layout
  | globalCheat => GlobalCheat.layout
  | levelFinish => LevelFinish.layout

/-- Reads the payload of one kind of message; the bytes have to begin with its opcode. -/
def decode (op : Opcode) (bytes : Bytes) : Except DecodeError op.Payload :=
  Read.run (do Read.opcode op; op.layout.read) bytes

end Opcode

/-! ## Messages -/

namespace Message

/-- Every field of a message on the wire, the opcode first. -/
def fields (m : Message) : List Field :=
  ⟨"opcode", .opcode m.opcode⟩ :: m.opcode.layout.fields m.payload

def encode (m : Message) : Bytes :=
  Field.concat m.fields

/-- Reads an opcode and the payload that it announces. -/
def read : Read Message := do
  let tag ← Read.word "opcode"
  match Opcode.ofTag? tag with
  | some op => ofPayload op <$> op.layout.read
  | none => Read.fail (.unknownOpcode tag)

def decode (bytes : Bytes) : Except DecodeError Message :=
  read.run bytes

/-- The message as it arrives: characters without a byte have become `?`. -/
def narrow : Message → Message
  | orderChat m => orderChat ⟨Text.narrow m.content⟩
  | chat m => chat ⟨Text.narrow m.content, m.playerId⟩
  | clientList m => clientList ⟨m.players.map fun p => { p with nickname := Text.narrow p.nickname }⟩
  | clientConnected m =>
    clientConnected ⟨{ m.player with nickname := Text.narrow m.player.nickname }⟩
  | m => m

end Message

end RaceSteward
