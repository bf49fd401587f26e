import FuzzyRating.Decimal.Layout
import FuzzyRating.Text.Position
import FuzzyRating.Text.Quoted

/-!
What can be wrong with a JSON text, and where.

A complaint about the text itself is placed where it arises. A complaint about what a value
contains, such as a missing member, is placed where reading the enclosing value ends; at the top
there is no enclosing value, and the complaint has no place.
-/

namespace FuzzyRating.Json

/-- A number as it was written: without sign, point and exponent it is natural, with a sign alone
negative. Numbers beyond 64 bits are floating point. -/
inductive Numeral where
  | natural (value : Nat)
  | negative (magnitude : Nat)
  | floating (value : Float)

def Numeral.toFloat : Numeral → Float
  | natural value => Float.ofNat value
  | negative magnitude => -Float.ofNat magnitude
  | floating value => value

/-- What stands where something else was expected. -/
inductive Found where
  | null
  | bool (value : Bool)
  | number (value : Numeral)
  | text (value : String)
  | list
  | object

/-- What is wrong. -/
inductive Complaint where
  | endInValue
  | endInString
  | endInList
  | endInObject
  | expectedColon
  | expectedListEnd
  | expectedObjectEnd
  | expectedIdent
  | expectedValue
  | keyNotString
  | invalidEscape
  | invalidNumber
  | numberOutOfRange
  | loneSurrogate
  | endInSurrogates
  | controlCharacter
  | trailingComma
  | trailingCharacters
  | tooDeep
  | wrongType (found : Found) (expected : String)
  | wrongValue (found : Found) (expected : String)
  | wrongLength (length : Nat) (expected : String)
  | unknownVariant (name : String) (variants : List String)
  | missingField (name : String)
  | duplicateField (name : String)
  | noVariant (type : String)
  /-- The value was read but does not satisfy a rule of its own. -/
  | rejected (reason : String)

def ticked (text : String) : String :=
  "`" ++ text ++ "`"

def Numeral.describe : Numeral → String
  | natural value => "integer " ++ ticked (toString value)
  | negative magnitude => "integer " ++ ticked ("-" ++ toString magnitude)
  | floating value => "floating point " ++ ticked (Layout.json.write value)

def Found.describe : Found → String
  | null => "null"
  | bool value => "boolean " ++ ticked (if value then "true" else "false")
  | number value => value.describe
  | text value => "string " ++ Text.quoted value
  | list => "sequence"
  | object => "map"

/-- Names to choose from. -/
def choiceText : List String → String
  | [] => "there are no variants"
  | [a] => "expected " ++ ticked a
  | [a, b] => "expected " ++ ticked a ++ " or " ++ ticked b
  | names => "expected one of " ++ ", ".intercalate (names.map ticked)

def Complaint.message : Complaint → String
  | endInValue => "EOF while parsing a value"
  | endInString => "EOF while parsing a string"
  | endInList => "EOF while parsing a list"
  | endInObject => "EOF while parsing an object"
  | expectedColon => "expected `:`"
  | expectedListEnd => "expected `,` or `]`"
  | expectedObjectEnd => "expected `,` or `\x7d`"
  | expectedIdent => "expected ident"
  | expectedValue => "expected value"
  | keyNotString => "key must be a string"
  | invalidEscape => "invalid escape"
  | invalidNumber => "invalid number"
  | numberOutOfRange => "number out of range"
  | loneSurrogate => "lone leading surrogate in hex escape"
  | endInSurrogates => "unexpected end of hex escape"
  | controlCharacter => "control character (\\u0000-\\u001F) found while parsing a string"
  | trailingComma => "trailing comma"
  | trailingCharacters => "trailing characters"
  | tooDeep => "recursion limit exceeded"
  | wrongType found expected => "invalid type: " ++ found.describe ++ ", expected " ++ expected
  | wrongValue found expected => "invalid value: " ++ found.describe ++ ", expected " ++ expected
  | wrongLength length expected =>
      "invalid length " ++ toString length ++ ", expected " ++ expected
  | unknownVariant name variants =>
      "unknown variant " ++ ticked name ++ ", " ++ choiceText variants
  | missingField name => "missing field " ++ ticked name
  | duplicateField name => "duplicate field " ++ ticked name
  | noVariant type => "data did not match any variant of untagged enum " ++ type
  | rejected reason => reason

/-- A place in a text, so many bytes behind the start of `rest`. -/
structure Place where
  rest : List Char
  ahead : Nat

/-- A complaint, its place if it has one, and what was left to read when it arose. -/
structure Fault where
  complaint : Complaint
  place : Option Place
  rest : List Char

namespace Fault

/-- A complaint placed in front of `rest`. -/
def here (complaint : Complaint) (rest : List Char) : Fault :=
  ⟨complaint, some ⟨rest, 0⟩, rest⟩

/-- A complaint placed one byte into `rest`, at the byte that was looked at. -/
def ahead (complaint : Complaint) (rest : List Char) : Fault :=
  ⟨complaint, some ⟨rest, 1⟩, rest⟩

/-- A complaint about what a value contains, without a place. -/
def within (complaint : Complaint) (rest : List Char) : Fault :=
  ⟨complaint, none, rest⟩

/-- Places a complaint that has no place where reading stands. -/
def settle (fault : Fault) : Fault :=
  { fault with place := fault.place.or (some ⟨fault.rest, 0⟩) }

end Fault

/-- A complaint with its line and column, both zero when it has no place. -/
structure Error where
  complaint : Complaint
  line : Nat
  column : Nat

/-- The text of an error, with its place unless it has none. -/
def Error.message (error : Error) : String :=
  if error.line = 0 then
    error.complaint.message
  else
    error.complaint.message ++ " at line " ++ toString error.line ++ " column " ++
      toString error.column

/-- The number of bytes of a text. -/
def byteCount (text : List Char) : Nat :=
  (String.ofList text).utf8ByteSize

/-- Line and column of a place: the lines and the bytes of the last line in front of it. -/
def Place.locate (text : List Char) (place : Place) : Nat × Nat :=
  let bytes := (String.ofList text).toUTF8.data.toList
  let read := bytes.take (byteCount text - byteCount place.rest + place.ahead)
  (read.count 10 + 1, (read.reverse.takeWhile (· != 10)).length)

def Fault.locate (text : List Char) (fault : Fault) : Error :=
  match fault.place with
  | some place =>
      let (line, column) := place.locate text
      ⟨fault.complaint, line, column⟩
  | none => ⟨fault.complaint, 0, 0⟩

end FuzzyRating.Json
