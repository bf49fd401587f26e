import FuzzyRating.Decimal.Layout

/-!
JSON values as they are written: on one line, or with one member per line.
-/

namespace FuzzyRating.Json

/-- A JSON value. Members of an object keep their order. -/
inductive Value where
  | null
  | bool (value : Bool)
  | natural (value : Nat)
  | number (value : Float)
  | text (value : String)
  | array (items : List Value)
  | object (members : List (String × Value))

namespace Value

/-- `null` for an absent value. -/
def ofOption {alpha : Type} (encode : alpha → Value) : Option alpha → Value
  | some value => encode value
  | none => null

/-- A member that is left out when the value is absent. -/
def optionalMember {alpha : Type} (name : String) (encode : alpha → Value) :
    Option alpha → List (String × Value)
  | some value => [(name, encode value)]
  | none => []

end Value

/-- Two hexadecimal digits. -/
def hexPair (n : Nat) : List Char :=
  [Nat.digitChar (n / 16), Nat.digitChar (n % 16)]

/-- The form of one character inside a JSON string. Only quotes, backslashes and the characters
below U+0020 are escaped. -/
def escapedChar (c : Char) : List Char :=
  if c = '"' then ['\\', '"']
  else if c = '\\' then ['\\', '\\']
  else if c = '\n' then ['\\', 'n']
  else if c = '\r' then ['\\', 'r']
  else if c = '\t' then ['\\', 't']
  else if c = '\x08' then ['\\', 'b']
  else if c = '\x0c' then ['\\', 'f']
  else if c.toNat < 0x20 then ['\\', 'u', '0', '0'] ++ hexPair c.toNat
  else [c]

/-- A JSON string. -/
def stringText (text : String) : List Char :=
  '"' :: (text.toList.flatMap escapedChar ++ ['"'])

/-- Pieces with a comma between them. -/
def separated (comma : List Char) : List (List Char) → List Char
  | [] => []
  | [piece] => piece
  | piece :: pieces => piece ++ comma ++ separated comma pieces

mutual

/-- A value on one line, without spaces. -/
def Value.compactText : Value → List Char
  | .null => "null".toList
  | .bool value => (if value then "true" else "false").toList
  | .natural value => Layout.digits value
  | .number value => (Layout.json.write value).toList
  | .text value => stringText value
  | .array items => '[' :: (separated [','] (compactItems items) ++ [']'])
  | .object members => '{' :: (separated [','] (compactMembers members) ++ ['}'])

def Value.compactItems : List Value → List (List Char)
  | [] => []
  | item :: items => compactText item :: compactItems items

def Value.compactMembers : List (String × Value) → List (List Char)
  | [] => []
  | (name, value) :: members =>
      (stringText name ++ ':' :: compactText value) :: compactMembers members

end

/-- A line break and the indentation of a level. -/
def lineBreak (level : Nat) : List Char :=
  '\n' :: List.replicate (2 * level) ' '

/-- Pieces on lines of their own between brackets, or the brackets alone. -/
def bracketed (level : Nat) (opening closing : Char) (pieces : List (List Char)) : List Char :=
  if pieces.isEmpty then
    [opening, closing]
  else
    opening :: (lineBreak (level + 1) ++ separated (',' :: lineBreak (level + 1)) pieces ++
      lineBreak level ++ [closing])

mutual

/-- A value with each item and member on a line of its own, indented by two spaces a level. -/
def Value.prettyText (level : Nat) : Value → List Char
  | .array items => bracketed level '[' ']' (prettyItems (level + 1) items)
  | .object members => bracketed level '{' '}' (prettyMembers (level + 1) members)
  | .null => Value.compactText .null
  | .bool value => Value.compactText (.bool value)
  | .natural value => Value.compactText (.natural value)
  | .number value => Value.compactText (.number value)
  | .text value => Value.compactText (.text value)

def Value.prettyItems (level : Nat) : List Value → List (List Char)
  | [] => []
  | item :: items => prettyText level item :: prettyItems level items

def Value.prettyMembers (level : Nat) : List (String × Value) → List (List Char)
  | [] => []
  | (name, value) :: members =>
      (stringText name ++ ':' :: ' ' :: prettyText level value) :: prettyMembers level members

end

def Value.compact (value : Value) : String :=
  String.ofList value.compactText

def Value.pretty (value : Value) : String :=
  String.ofList (value.prettyText 0)

end FuzzyRating.Json
