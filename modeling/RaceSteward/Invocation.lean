import RaceSteward.Config

/-!
# Invocations

What the arguments of the program ask for: to run with a host and a port, or to show a text. Each
option has a value, after an equals sign or as the next argument, and is given at most once.

* `Invocation.ofArgs`: the invocation that arguments make.
-/

namespace RaceSteward

inductive Invocation where
  | run (host port : String)
  | help
  | version
  | refused (why : String)
  deriving DecidableEq, Repr

namespace Invocation

/-- An option that has a value. -/
inductive Setting where
  | host
  | port
  deriving DecidableEq, Repr

def Setting.usage : Setting → String
  | host => "--host <HOST>"
  | port => "--port <PORT>"

/-- What one argument is. -/
inductive Word where
  | setting (s : Setting)
  /-- A setting, an equals sign and its value. -/
  | assignment (s : Setting) (value : String)
  | help
  | version
  | other
  deriving DecidableEq, Repr

def Word.ofArg (arg : String) : Word :=
  if arg = "--host" then setting .host
  else if arg = "--port" then setting .port
  else if arg.startsWith "--host=" then assignment .host (arg.drop 7).copy
  else if arg.startsWith "--port=" then assignment .port (arg.drop 7).copy
  else if arg = "--help" ∨ arg = "-h" then help
  else if arg = "--version" ∨ arg = "-V" then version
  else other

/-- Whether an argument can be the value of the setting before it. -/
def isValue (arg : String) : Bool :=
  !arg.startsWith "-" || arg = "-"

/-- The values given so far. -/
structure Given where
  host : Option String := none
  port : Option String := none
  deriving DecidableEq, Repr

namespace Given

def get? (g : Given) : Setting → Option String
  | .host => g.host
  | .port => g.port

def set (g : Given) (s : Setting) (value : String) : Given :=
  match s with
  | .host => { g with host := some value }
  | .port => { g with port := some value }

/-- What is not given is as in the usual settings. -/
def toInvocation (g : Given) : Invocation :=
  run (g.host.getD Link.Settings.defaultHost)
    (g.port.getD (toString Link.Settings.defaultPort.toNat))

end Given

def unexpected (arg : String) : Invocation :=
  refused s!"unexpected argument '{arg}' found"

def repeated (s : Setting) : Invocation :=
  refused s!"the argument '{s.usage}' cannot be used multiple times"

def valueless (s : Setting) : Invocation :=
  refused s!"a value is required for '{s.usage}' but none was supplied"

/-- Reads arguments after others; the first fault decides. -/
def read (g : Given) : List String → Invocation
  | [] => g.toInvocation
  | arg :: args =>
    match Word.ofArg arg with
    | .help => help
    | .version => version
    | .other => unexpected arg
    | .assignment s value =>
      if (g.get? s).isSome then repeated s else read (g.set s value) args
    | .setting s =>
      match args with
      | [] => valueless s
      | value :: args =>
        if isValue value then
          if (g.get? s).isSome then repeated s else read (g.set s value) args
        else if Word.ofArg value = .other then unexpected value
        else valueless s

def ofArgs (args : List String) : Invocation :=
  read {} args

/-- The program and its version. -/
def versionText : String := "racesteward 0.1.0"

/-- What the program is for and what it takes. -/
def helpText : String :=
  "Race-ranking bot for a racing-coordination server

Usage: racesteward [OPTIONS]

Options:
      --host <HOST>  Server host [default: 127.0.0.1]
      --port <PORT>  Server port. Falls back to 6172 if it does not parse [default: 6172]
  -h, --help         Print help
  -V, --version      Print version"

/-- What is said about arguments that are refused. -/
def refusalText (why : String) : String :=
  s!"error: {why}\n\nUsage: racesteward [OPTIONS]\n\nFor more information, try '--help'."

end Invocation

end RaceSteward
