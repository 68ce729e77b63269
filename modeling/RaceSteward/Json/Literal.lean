/-!
# JSON text literals

Inside its quotes a text is written with escapes. `escape` writes the shortest ones: a letter for the
quote, the backslash and five control characters, `\u00xx` in lower case for the other control
characters, everything else as it stands. `unescape?` reads every escape of the grammar; two `\u`
escapes that form a surrogate pair are one character, and one that stands alone is refused.
-/

namespace RaceSteward.Json

/-- A digit of a `\u` escape, in lower case. -/
def hexDigit (n : Nat) : Char :=
  Char.ofNat (if n < 10 then 48 + n else 87 + n)

/-- The value of a digit of a `\u` escape, in either case. -/
def hexValue? (c : Char) : Option Nat :=
  if '0' ≤ c ∧ c ≤ '9' then some (c.toNat - 48)
  else if 'a' ≤ c ∧ c ≤ 'f' then some (c.toNat - 87)
  else if 'A' ≤ c ∧ c ≤ 'F' then some (c.toNat - 55)
  else none

/-- The value of the four digits of a `\u` escape. -/
def hexValue4? (a b c d : Char) : Option Nat := do
  let a ← hexValue? a
  let b ← hexValue? b
  let c ← hexValue? c
  let d ← hexValue? d
  some (4096 * a + 256 * b + 16 * c + d)

def isControl (c : Char) : Bool :=
  decide (c.toNat < 32)

def escapeChar (c : Char) : List Char :=
  if c = '"' then ['\\', '"']
  else if c = '\\' then ['\\', '\\']
  else if c = '\x08' then ['\\', 'b']
  else if c = '\x0c' then ['\\', 'f']
  else if c = '\n' then ['\\', 'n']
  else if c = '\r' then ['\\', 'r']
  else if c = '\t' then ['\\', 't']
  else if isControl c then ['\\', 'u', '0', '0', hexDigit (c.toNat / 16), hexDigit (c.toNat % 16)]
  else [c]

def escape (s : List Char) : List Char :=
  s.flatMap escapeChar

/-- The character of a one-letter escape. -/
def letterEscape? (c : Char) : Option Char :=
  if c = '"' then some '"'
  else if c = '\\' then some '\\'
  else if c = '/' then some '/'
  else if c = 'b' then some '\x08'
  else if c = 'f' then some '\x0c'
  else if c = 'n' then some '\n'
  else if c = 'r' then some '\r'
  else if c = 't' then some '\t'
  else none

/-- The first half of a surrogate pair. -/
def isLeading (unit : Nat) : Bool := decide (55296 ≤ unit ∧ unit < 56320)

/-- The second half of a surrogate pair. -/
def isTrailing (unit : Nat) : Bool := decide (56320 ≤ unit ∧ unit < 57344)

/-- The character of a surrogate pair. -/
def pairChar (lead trail : Nat) : Char :=
  Char.ofNat (65536 + 1024 * (lead - 55296) + (trail - 56320))

/-- A body cut into what stands for itself and what is escaped. -/
inductive Piece where
  | char (c : Char)
  /-- The unit of a `\u` escape. -/
  | unit (value : Nat)
  deriving DecidableEq, Repr

/-- Cuts a body into pieces; refuses control characters and escapes outside the grammar. -/
def pieces? : List Char → Option (List Piece)
  | [] => some []
  | '\\' :: 'u' :: a :: b :: c :: d :: rest => do
    let unit ← hexValue4? a b c d
    let more ← pieces? rest
    some (.unit unit :: more)
  | '\\' :: c :: rest => do
    let c ← letterEscape? c
    let more ← pieces? rest
    some (.char c :: more)
  | '\\' :: [] => none
  | c :: rest =>
    if isControl c ∨ c = '"' then none
    else do
      let more ← pieces? rest
      some (.char c :: more)

/-- Joins pieces to characters; a unit of a surrogate pair needs its partner next to it. -/
def join? : List Piece → Option (List Char)
  | [] => some []
  | .char c :: rest => (c :: ·) <$> join? rest
  | .unit lead :: .unit trail :: rest =>
    if isLeading lead then
      if isTrailing trail then (pairChar lead trail :: ·) <$> join? rest else none
    else if isTrailing lead then none
    else (Char.ofNat lead :: ·) <$> join? (.unit trail :: rest)
  | .unit u :: rest =>
    if isLeading u || isTrailing u then none else (Char.ofNat u :: ·) <$> join? rest

/-- The text that a body stands for. -/
def unescape? (body : List Char) : Option (List Char) :=
  (pieces? body).bind join?

/-- Cuts a body and its closing quote off the front. -/
def body? : List Char → Option (List Char × List Char)
  | [] => none
  | '"' :: rest => some ([], rest)
  | '\\' :: c :: rest => do
    let (body, rest) ← body? rest
    some ('\\' :: c :: body, rest)
  | c :: rest => do
    let (body, rest) ← body? rest
    some (c :: body, rest)

end RaceSteward.Json
