import RaceSteward.Bot

/-!
# A console at work

Input is cut after each newline. A line loses its newline and one carriage return before it; what
follows the last newline is a line as it stands, if there is anything. A line that is not UTF-8 ends
the input.

The console carries out one line of input after another until something ends it. The end of the input
is the last thing that can.

* `Console.run`: why it ended, what it printed, and the bot after it.
-/

namespace RaceSteward.Console

/-! ## Lines of input -/

/-- Cuts after each newline: the lines that end in one, without it, and what follows the last. -/
def cutLines : Bytes → List Bytes × Bytes
  | [] => ([], [])
  | b :: bs =>
    let (lines, last) := cutLines bs
    if b = 10 then ([] :: lines, last)
    else match lines with
      | line :: lines => ((b :: line) :: lines, last)
      | [] => ([], b :: last)

/-- The line without a carriage return at its end. -/
def dropReturn (line : Bytes) : Bytes :=
  if line.getLast? = some 13 then line.dropLast else line

/-- The lines of an input. -/
def lines (input : Bytes) : List Bytes :=
  let (ended, last) := cutLines input
  ended.map dropReturn ++ (if last.isEmpty then [] else [last])

/-- The text that bytes are in UTF-8. -/
def text? (line : Bytes) : Option String :=
  String.fromUTF8? ⟨line.toArray⟩

/-! ## Carrying out lines -/

/-- Why the console stopped reading. -/
inductive Exit where
  /-- The bot was told to shut down. -/
  | quit
  /-- The input ended, or is no text. -/
  | inputClosed
  /-- Interrupted from the keyboard. -/
  | interrupted
  /-- The bot stopped of its own accord. -/
  | botStopped
  /-- A command could not be carried out. -/
  | commandFailed
  deriving DecidableEq, Repr

def Exit.name : Exit → String
  | quit => "Quit"
  | inputClosed => "InputClosed"
  | interrupted => "Interrupted"
  | botStopped => "BotStopped"
  | commandFailed => "CommandFailed"

/-- Carries out lines until one ends the console: why, if one did, what was printed, and the bot. -/
def obey (b : Bot) : List Bytes → Option Exit × String × Bot
  | [] => (none, "", b)
  | line :: lines =>
    match text? line with
    | none => (some .inputClosed, "", b)
    | some line =>
      match b.execute (.parse line) with
      | (.error _, b) => (some .commandFailed, "", b)
      | (.ok reply, b) =>
        if reply.quit then (some .quit, reply.printed, b)
        else
          let (exit, printed, b) := obey b lines
          (exit, reply.printed ++ printed, b)

/-- Carries out a whole input. -/
def run (b : Bot) (input : Bytes) : Exit × String × Bot :=
  let (exit, printed, b) := obey b (lines input)
  (exit.getD .inputClosed, printed, b)

end RaceSteward.Console
