import RaceSteward.Json.Literal
import RaceSteward.Json.Numeral

/-!
# JSON documents

A document is the tree of a JSON text with its literals as written. `Json.parse?` reads a text of
the grammar, blanks allowed between all tokens, and nothing after the document. `Json.render` writes
a document without blanks. Whether literals mean anything is asked later, of those that matter:
`Json.literalsSound` asks it of a whole document.
-/

namespace RaceSteward

inductive Json where
  | null
  | bool (value : Bool)
  | number (numeral : Json.Numeral)
  /-- A text, by the body between its quotes. -/
  | text (body : List Char)
  | array (items : List Json)
  /-- Members in order, each by the body of its key. -/
  | object (members : List (List Char × Json))
  deriving Repr

namespace Json

/-! ## Writing -/

def quoted (body : List Char) : List Char :=
  '"' :: body ++ ['"']

mutual

def render : Json → List Char
  | null => ['n', 'u', 'l', 'l']
  | bool true => ['t', 'r', 'u', 'e']
  | bool false => ['f', 'a', 'l', 's', 'e']
  | number n => n.render
  | text body => quoted body
  | array [] => ['[', ']']
  | array (item :: items) => '[' :: render item ++ renderItems items
  | object [] => ['{', '}']
  | object ((key, value) :: members) => '{' :: quoted key ++ ':' :: render value ++ renderMembers members

/-- The items after the first, and the closing bracket. -/
def renderItems : List Json → List Char
  | [] => [']']
  | item :: items => ',' :: render item ++ renderItems items

/-- The members after the first, and the closing brace. -/
def renderMembers : List (List Char × Json) → List Char
  | [] => ['}']
  | (key, value) :: members => ',' :: quoted key ++ ':' :: render value ++ renderMembers members

end

/-- A value as text. -/
def toText (j : Json) : String :=
  String.ofList j.render

def ofString (s : String) : Json :=
  text (escape s.toList)

def ofNat (n : Nat) : Json :=
  number (.ofNat n)

def ofInt (n : Int) : Json :=
  number (.ofInt n)

/-- An object by its keys. -/
def record (members : List (String × Json)) : Json :=
  object (members.map fun (key, value) => (escape key.toList, value))

/-! ## Reading -/

def isBlank (c : Char) : Bool :=
  c = ' ' || c = '\t' || c = '\n' || c = '\r'

def skipBlank (s : List Char) : List Char :=
  s.dropWhile isBlank

/-- A text whose opening quote has been passed. -/
def text? (s : List Char) : Option (List Char × List Char) := do
  let (body, rest) ← body? s
  if (pieces? body).isSome then some (body, rest) else none

mutual

/-- The value at the front. Each level of nesting and each item costs one unit of fuel. -/
def value? : Nat → List Char → Option (Json × List Char)
  | 0, _ => none
  | fuel + 1, s =>
    match s with
    | 'n' :: 'u' :: 'l' :: 'l' :: rest => some (null, rest)
    | 't' :: 'r' :: 'u' :: 'e' :: rest => some (bool true, rest)
    | 'f' :: 'a' :: 'l' :: 's' :: 'e' :: rest => some (bool false, rest)
    | '"' :: rest => do
      let (body, rest) ← text? rest
      some (text body, rest)
    | '[' :: rest =>
      match skipBlank rest with
      | ']' :: rest => some (array [], rest)
      | rest => do
        let (items, rest) ← items? fuel rest
        some (array items, rest)
    | '{' :: rest =>
      match skipBlank rest with
      | '}' :: rest => some (object [], rest)
      | rest => do
        let (members, rest) ← members? fuel rest
        some (object members, rest)
    | s => do
      let (n, rest) ← Numeral.parse? s
      some (number n, rest)

/-- Items up to the closing bracket. -/
def items? : Nat → List Char → Option (List Json × List Char)
  | 0, _ => none
  | fuel + 1, s => do
    let (item, rest) ← value? fuel s
    match skipBlank rest with
    | ']' :: rest => some ([item], rest)
    | ',' :: rest => do
      let (items, rest) ← items? fuel (skipBlank rest)
      some (item :: items, rest)
    | _ => none

/-- Members up to the closing brace. -/
def members? : Nat → List Char → Option (List (List Char × Json) × List Char)
  | 0, _ => none
  | fuel + 1, s =>
    match s with
    | '"' :: s => do
      let (key, rest) ← text? s
      match skipBlank rest with
      | ':' :: rest => do
        let (value, rest) ← value? fuel (skipBlank rest)
        match skipBlank rest with
        | '}' :: rest => some ([(key, value)], rest)
        | ',' :: rest => do
          let (members, rest) ← members? fuel (skipBlank rest)
          some ((key, value) :: members, rest)
        | _ => none
      | _ => none
    | _ => none

end

/-- The document that a whole text is. -/
def parse? (s : String) : Option Json :=
  let chars := s.toList
  match value? (2 * chars.length + 2) (skipBlank chars) with
  | some (j, rest) => if (skipBlank rest).isEmpty then some j else none
  | none => none

/-! ## Documents that mean something -/

mutual

/-- How deeply arrays and objects nest. -/
def depth : Json → Nat
  | array items => 1 + depthItems items
  | object members => 1 + depthMembers members
  | _ => 0

def depthItems : List Json → Nat
  | [] => 0
  | item :: items => max (depth item) (depthItems items)

def depthMembers : List (List Char × Json) → Nat
  | [] => 0
  | (_, value) :: members => max (depth value) (depthMembers members)

end

mutual

/-- Every text in the document is one, and no numeral is too great for a number. -/
def literalsSound (tooGreat : Numeral → Bool) : Json → Bool
  | number n => !tooGreat n
  | text body => (unescape? body).isSome
  | array items => itemsSound tooGreat items
  | object members => membersSound tooGreat members
  | _ => true

def itemsSound (tooGreat : Numeral → Bool) : List Json → Bool
  | [] => true
  | item :: items => literalsSound tooGreat item && itemsSound tooGreat items

def membersSound (tooGreat : Numeral → Bool) : List (List Char × Json) → Bool
  | [] => true
  | (key, value) :: members =>
    (unescape? key).isSome && literalsSound tooGreat value && membersSound tooGreat members

end

end Json

end RaceSteward
