/-!
# Opcodes

The eleven kinds of message and the word that announces each on the wire. Orders travel to the
server, the rest come from it. Zero is no opcode.

* `Opcode.ofTag?_eq_some_iff`: a word is an opcode exactly when it is the tag of one.
-/

namespace RaceSteward

inductive Opcode where
  | orderChat
  | chat
  | orderGlobalCheat
  | orderClientList
  | clientList
  | ballState
  | clientConnected
  | clientDisconnected
  | cheatState
  | globalCheat
  | levelFinish
  deriving DecidableEq, Repr

namespace Opcode

/-- Every opcode, by rising tag. -/
def all : List Opcode :=
  [orderChat, chat, orderGlobalCheat, orderClientList, clientList, ballState, clientConnected,
    clientDisconnected, cheatState, globalCheat, levelFinish]

/-- The word that stands for the opcode on the wire. -/
def tag : Opcode → UInt32
  | orderChat => 1
  | chat => 2
  | orderGlobalCheat => 3
  | orderClientList => 4
  | clientList => 5
  | ballState => 6
  | clientConnected => 7
  | clientDisconnected => 8
  | cheatState => 9
  | globalCheat => 10
  | levelFinish => 11

def name : Opcode → String
  | orderChat => "OrderChat"
  | chat => "Chat"
  | orderGlobalCheat => "OrderGlobalCheat"
  | orderClientList => "OrderClientList"
  | clientList => "ClientList"
  | ballState => "BallState"
  | clientConnected => "ClientConnected"
  | clientDisconnected => "ClientDisconnected"
  | cheatState => "CheatState"
  | globalCheat => "GlobalCheat"
  | levelFinish => "LevelFinish"

/-- Name and tag, as in `Chat(2)`. -/
def text (op : Opcode) : String :=
  s!"{op.name}({op.tag.toNat})"

def ofTag? (tag : UInt32) : Option Opcode :=
  all.find? (·.tag = tag)

def ofName? (name : String) : Option Opcode :=
  all.find? (·.name = name)

/-! ## Tags -/

@[simp] theorem ofTag?_tag (op : Opcode) : ofTag? op.tag = some op := by
  cases op <;> decide

theorem ofTag?_eq_some_iff {t : UInt32} {op : Opcode} : ofTag? t = some op ↔ op.tag = t := by
  constructor
  · intro h
    simpa using List.find?_some h
  · rintro rfl
    exact ofTag?_tag op

@[simp] theorem ofName?_name (op : Opcode) : ofName? op.name = some op := by
  cases op <;> decide

end Opcode

end RaceSteward
