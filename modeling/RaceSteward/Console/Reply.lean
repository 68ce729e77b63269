/-!
# Replies

What the console shows after a command, and the texts it shows.
-/

namespace RaceSteward.Console

structure Reply where
  lines : List String
  /-- The command asks the bot to shut down. -/
  quit : Bool
  deriving DecidableEq, Repr

namespace Reply

def silent : Reply := ⟨[], false⟩

def say (lines : List String) : Reply := ⟨lines, false⟩

def quitting : Reply := ⟨[], true⟩

/-- Every line and its end. -/
def printed (r : Reply) : String :=
  r.lines.foldl (fun out line => out ++ line ++ "\n") ""

end Reply

def raceInvalid : String := "Invalid command. Type `!sw help` for help."

def moderationInvalid : String := "Invalid command. Type `/mmo help` for help."

def raceHelp : List String :=
  ["!sw st: Auto send 3,2,1,GO! And start recording.",
    "!sw lst: Auto send Ready,3,2,1,GO! And start recording.",
    "!sw fin: Stop record forcely.",
    "!sw stop: Disconnect and quit.",
    "!sw help: Show this help."]

def moderationHelp : List String :=
  ["/mmo cheat on|off: Toggle cheat mode for everyone.",
    "/mmo kick <name>: Kick a player.",
    "/mmo help: Show this help."]

def cheatUsage : String := "Usage: /mmo cheat on|off"

def kickUnsupported : String := "Kick is not supported."

/-- The lines of a countdown. -/
def countdownScript : List String := ["3", "2", "1", "GO!"]

/-- The lines of a countdown with a warning ahead. -/
def readyCountdownScript : List String := "Ready" :: countdownScript

end RaceSteward.Console
