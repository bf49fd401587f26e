import FuzzyRating.Json.Reader

/-!
Records: objects with known members. Members may come in any order, each at most once, and members
that are not known are skipped. A record may also be written as the list of its members in order.
-/

namespace FuzzyRating.Json

/-- A known member of a record that is gathered in `draft`. -/
structure Field (draft : Type) where
  name : String
  /-- Whether the draft already holds the member. -/
  isSet : draft → Bool
  /-- Reads the member into the draft. -/
  read : draft → Reader draft
  /-- Whether a list of members may end before this one. -/
  optional : Bool

/-- A member with its reader, and how the draft gives and takes it. -/
def Field.of {draft alpha : Type} (name : String) (optional : Bool) (reader : Reader alpha)
    (get : draft → Option alpha) (set : alpha → draft → draft) : Field draft where
  name
  isSet := fun current => (get current).isSome
  read := fun current depth text => do
    let (value, rest) ← reader depth text
    .ok (set value current, rest)
  optional

/-- The members of a record of a type, and what makes a value of the finished draft. -/
structure Record (draft alpha : Type) where
  /-- The name of the type in complaints. -/
  name : String
  fields : List (Field draft)
  empty : draft
  finish : draft → Except Complaint alpha

namespace Record

variable {draft alpha : Type}

/-- Reads one member of an object behind its key. -/
def readMember (record : Record draft alpha) (depth : Nat) (key : String) (current : draft)
    (text : List Char) : Read (draft × List Char) :=
  match record.fields.find? (·.name == key) with
  | some field =>
      if field.isSet current then
        .error (.within (.duplicateField key) text)
      else do
        field.read current depth (← readColon text)
  | none => do
      .ok (current, ← skipValue (← readColon text))

/-- How many members a list has to have, in words. -/
def lengthText (record : Record draft alpha) : String :=
  let count := record.fields.length
  "struct " ++ record.name ++ " with " ++ toString count ++
    if count = 1 then " element" else " elements"

/-- Reads the members in order from a list, of which `index` have been read. -/
def readItems (record : Record draft alpha) (depth : Nat) :
    Nat → List (Field draft) → draft → List Char → Read (draft × List Char)
  | _, [], current, text => .ok (current, text)
  | index, field :: fields, current, text => do
      match ← nextItem (index == 0) text with
      | (some text, _) =>
          let (current, rest) ← field.read current depth text
          readItems record depth (index + 1) fields current rest
      | (none, rest) =>
          if field.optional then readItems record depth index fields current rest
          else .error (.within (.wrongLength index record.lengthText) rest)

/-- Makes the value of what was read. -/
def complete (record : Record draft alpha) (result : Read (draft × List Char)) :
    Read (alpha × List Char) := do
  let (current, rest) ← result
  match record.finish current with
  | .ok value => .ok (value, rest)
  | .error complaint => .error (.within complaint rest)

def reader (record : Record draft alpha) : Reader alpha := fun depth text =>
  match skipSpace text with
  | '{' :: rest =>
      entering ('{' :: rest) depth fun depth =>
        closing closeObject <| record.complete <|
          readMembers (record.readMember depth) record.empty rest
  | '[' :: rest =>
      entering ('[' :: rest) depth fun depth =>
        closing closeList <| record.complete <|
          record.readItems depth 0 record.fields record.empty rest
  | text => mismatch ("struct " ++ record.name) text

end Record

/-- The value of a member that has to be there. -/
def required {alpha : Type} (name : String) : Option alpha → Except Complaint alpha
  | some value => .ok value
  | none => .error (.missingField name)

/-- A reader whose values have to satisfy a rule. -/
def checkedReader {alpha beta : Type} (read : Reader alpha) (check : alpha → Except String beta) :
    Reader beta := fun depth text => do
  let (value, rest) ← read depth text
  match check value with
  | .ok checked => .ok (checked, rest)
  | .error reason => .error (.within (.rejected reason) rest)

end FuzzyRating.Json
