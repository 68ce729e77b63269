/-!
# Commands

A line is cut at spaces into tokens. `!sw` at the front addresses the bot, `/mmo` the moderation of
the server; any other line is chat and is kept as it stands.
-/

namespace RaceSteward.Console

/-! ## Tokens -/

/-- The run of other characters at the front, and the tokens after the space that ends it. -/
def cut : List Char → List Char × List (List Char)
  | [] => ([], [])
  | c :: s =>
    let (run, tokens) := cut s
    if c = ' ' then ([], if run.isEmpty then tokens else run :: tokens) else (c :: run, tokens)

/-- The longest runs of characters other than the space, in order. -/
def tokens (line : String) : List String :=
  let (run, tokens) := cut line.toList
  (if run.isEmpty then tokens else run :: tokens).map String.ofList

/-! ## Commands -/

/-- Orders under `!sw`. -/
inductive RaceOrder where
  | missing
  /-- Count down, then record. -/
  | start
  /-- As `start`, with a warning ahead. -/
  | readyStart
  | finish
  | stop
  | help
  deriving DecidableEq, Repr

/-- Orders under `/mmo`. -/
inductive ModerationOrder where
  | missing
  /-- Cheat mode for everyone; none when neither `on` nor `off` is said. -/
  | cheat (on : Option Bool)
  | kick (name : Option String)
  | help
  deriving DecidableEq, Repr

inductive Command where
  | empty
  | race (order : RaceOrder)
  | moderation (order : ModerationOrder)
  | chat (line : String)
  deriving DecidableEq, Repr

def RaceOrder.parse : List String → RaceOrder
  | [] => missing
  | "st" :: _ => start
  | "lst" :: _ => readyStart
  | "fin" :: _ => finish
  | "stop" :: _ => stop
  | _ :: _ => help

def ModerationOrder.parse : List String → ModerationOrder
  | [] => missing
  | "cheat" :: "on" :: _ => cheat (some true)
  | "cheat" :: "off" :: _ => cheat (some false)
  | "cheat" :: _ => cheat none
  | "kick" :: rest => kick rest.head?
  | _ :: _ => help

def Command.parse (line : String) : Command :=
  match tokens line with
  | [] => empty
  | "!sw" :: rest => race (.parse rest)
  | "/mmo" :: rest => moderation (.parse rest)
  | _ :: _ => chat line

end RaceSteward.Console
