import RaceSteward.Opcode
import RaceSteward.Bytes

/-!
# Messages

What the client and the race server say to each other. A message is one of eleven kinds; the payload
of each kind is a record of its own.

* `Message.ofPayload_payload`: a message is its opcode and its payload.
-/

namespace RaceSteward

/-- A player as the server describes them. The id is the identity. -/
structure Player where
  id : UInt32
  nickname : String
  /-- Not zero when the player has cheat mode on. -/
  cheated : UInt8
  deriving DecidableEq, Repr

structure Vector3 where
  x : Single
  y : Single
  z : Single
  deriving DecidableEq, Repr

structure Quaternion where
  x : Single
  y : Single
  z : Single
  w : Single
  deriving DecidableEq, Repr

/-! ## Payloads -/

/-- To the server: say this. -/
structure OrderChat where
  content : String
  deriving DecidableEq, Repr

/-- A chat line and who said it. -/
structure Chat where
  content : String
  playerId : UInt32
  deriving DecidableEq, Repr

/-- To the server: cheat mode on (1) or off (0) for everyone. -/
structure OrderGlobalCheat where
  cheated : UInt8
  deriving DecidableEq, Repr

/-- A player switched cheat mode for everyone. -/
structure GlobalCheat where
  cheated : UInt8
  playerId : UInt32
  deriving DecidableEq, Repr

/-- To the server: who is online? -/
structure OrderClientList where
  deriving DecidableEq, Repr

/-- Everyone online. -/
structure ClientList where
  players : List Player
  deriving DecidableEq, Repr

/-- Where one player's ball is. -/
structure BallState where
  playerId : UInt32
  ballType : UInt32
  position : Vector3
  rotation : Quaternion
  deriving DecidableEq, Repr

structure ClientConnected where
  player : Player
  deriving DecidableEq, Repr

structure ClientDisconnected where
  playerId : UInt32
  deriving DecidableEq, Repr

/-- One player's cheat flag changed. -/
structure CheatState where
  playerId : UInt32
  cheated : UInt8
  deriving DecidableEq, Repr

/-- A player reached the end of the level. -/
structure LevelFinish where
  playerId : UInt32
  points : Int32
  lifes : Int32
  lifeBonus : Int32
  levelBonus : Int32
  /-- Seconds since the level began. -/
  timeElapsed : Single
  startPoints : Int32
  currentLevel : Int32
  cheated : UInt8
  deriving DecidableEq, Repr

/-- The payload of each kind of message. -/
abbrev Opcode.Payload : Opcode → Type
  | .orderChat => OrderChat
  | .chat => Chat
  | .orderGlobalCheat => OrderGlobalCheat
  | .orderClientList => OrderClientList
  | .clientList => ClientList
  | .ballState => BallState
  | .clientConnected => ClientConnected
  | .clientDisconnected => ClientDisconnected
  | .cheatState => CheatState
  | .globalCheat => GlobalCheat
  | .levelFinish => LevelFinish

/-! ## Messages -/

inductive Message where
  | orderChat (m : OrderChat)
  | chat (m : Chat)
  | orderGlobalCheat (m : OrderGlobalCheat)
  | orderClientList (m : OrderClientList)
  | clientList (m : ClientList)
  | ballState (m : BallState)
  | clientConnected (m : ClientConnected)
  | clientDisconnected (m : ClientDisconnected)
  | cheatState (m : CheatState)
  | globalCheat (m : GlobalCheat)
  | levelFinish (m : LevelFinish)
  deriving DecidableEq, Repr

namespace Message

def opcode : Message → Opcode
  | orderChat _ => .orderChat
  | chat _ => .chat
  | orderGlobalCheat _ => .orderGlobalCheat
  | orderClientList _ => .orderClientList
  | clientList _ => .clientList
  | ballState _ => .ballState
  | clientConnected _ => .clientConnected
  | clientDisconnected _ => .clientDisconnected
  | cheatState _ => .cheatState
  | globalCheat _ => .globalCheat
  | levelFinish _ => .levelFinish

def payload : (m : Message) → m.opcode.Payload
  | orderChat p => p
  | chat p => p
  | orderGlobalCheat p => p
  | orderClientList p => p
  | clientList p => p
  | ballState p => p
  | clientConnected p => p
  | clientDisconnected p => p
  | cheatState p => p
  | globalCheat p => p
  | levelFinish p => p

def ofPayload : (op : Opcode) → op.Payload → Message
  | .orderChat, p => orderChat p
  | .chat, p => chat p
  | .orderGlobalCheat, p => orderGlobalCheat p
  | .orderClientList, p => orderClientList p
  | .clientList, p => clientList p
  | .ballState, p => ballState p
  | .clientConnected, p => clientConnected p
  | .clientDisconnected, p => clientDisconnected p
  | .cheatState, p => cheatState p
  | .globalCheat, p => globalCheat p
  | .levelFinish, p => levelFinish p

@[simp] theorem opcode_ofPayload (op : Opcode) (p : op.Payload) : (ofPayload op p).opcode = op := by
  cases op <;> rfl

@[simp] theorem ofPayload_payload (m : Message) : ofPayload m.opcode m.payload = m := by
  cases m <;> rfl

/-- The id under which the server itself speaks. -/
def serverId : UInt32 := 0

/-- A chat line from the server. -/
def broadcast (content : String) : Message :=
  chat ⟨content, serverId⟩

/-- The question who is online. -/
def whoIsOnline : Message :=
  orderClientList {}

end Message

end RaceSteward
