import FuzzyRating.Json.Scan

/-!
Readers of typed JSON values. A reader takes the text from where a value may start, and says at the
first character that does not fit what is wrong there. Lists and objects nest at most 127 deep in
what is read; what is skipped may nest deeper.
-/

namespace FuzzyRating.Json

/-- Reads a value of a type. The number counts down with each list or object around the value, and
none is entered at one. -/
abbrev Reader (alpha : Type) :=
  Nat → List Char → Read (alpha × List Char)

/-- The depth that reading starts with. -/
def startDepth : Nat :=
  128

/-- Reads what stands here in order to say that it is not what was expected. The insides of a list
or an object are not looked at. -/
def readFound (text : List Char) : Read (Found × List Char) :=
  match text with
  | 'n' :: rest => do
      .ok (.null, ← readLetters ['u', 'l', 'l'] rest)
  | 't' :: rest => do
      .ok (.bool true, ← readLetters ['r', 'u', 'e'] rest)
  | 'f' :: rest => do
      .ok (.bool false, ← readLetters ['a', 'l', 's', 'e'] rest)
  | '"' :: rest => do
      let (value, rest) ← readString rest
      .ok (.text value, rest)
  | '[' :: _ => .ok (.list, text)
  | '{' :: _ => .ok (.object, text)
  | c :: _ =>
      if startsNumber c then do
        let (value, rest) ← readNumeral text
        .ok (.number value, rest)
      else
        .error (.ahead .expectedValue text)
  | [] => .error (.ahead .endInValue [])

/-- The fault of a value that is of the wrong kind. -/
def mismatch {alpha : Type} (expected : String) (text : List Char) :
    Read (alpha × List Char) := do
  let (found, rest) ← readFound text
  .error (.here (.wrongType found expected) rest)

/-! ## Scalars -/

def nullReader (expected : String) : Reader Unit := fun _ text =>
  match skipSpace text with
  | 'n' :: rest => do
      .ok ((), ← readLetters ['u', 'l', 'l'] rest)
  | text => mismatch expected text

def boolReader : Reader Bool := fun _ text =>
  match skipSpace text with
  | 't' :: rest => do
      .ok (true, ← readLetters ['r', 'u', 'e'] rest)
  | 'f' :: rest => do
      .ok (false, ← readLetters ['a', 'l', 's', 'e'] rest)
  | text => mismatch "a boolean" text

def stringReader (expected : String) : Reader String := fun _ text =>
  match skipSpace text with
  | '"' :: rest => readString rest
  | text => mismatch expected text

def textReader : Reader String :=
  stringReader "a string"

/-- A number of any form, taken as a double. -/
def floatReader : Reader Float := fun _ text =>
  match skipSpace text with
  | c :: rest =>
      if startsNumber c then do
        let (value, rest) ← readNumeral (c :: rest)
        .ok (value.toFloat, rest)
      else
        mismatch "f64" (c :: rest)
  | [] => mismatch "f64" []

/-- A number without sign, point and exponent that fits into 64 bits. -/
def naturalReader (expected : String) : Reader Nat := fun _ text =>
  match skipSpace text with
  | c :: rest =>
      if startsNumber c then do
        match ← readNumeral (c :: rest) with
        | (.natural value, rest) => .ok (value, rest)
        | (.negative value, rest) =>
            .error (.here (.wrongValue (.number (.negative value)) expected) rest)
        | (.floating value, rest) =>
            .error (.here (.wrongType (.number (.floating value)) expected) rest)
      else
        mismatch expected (c :: rest)
  | [] => mismatch expected []

/-- A value or `null`. -/
def optionReader {alpha : Type} (read : Reader alpha) : Reader (Option alpha) := fun depth text =>
  match skipSpace text with
  | 'n' :: rest => do
      .ok (none, ← readLetters ['u', 'l', 'l'] rest)
  | text => do
      let (value, rest) ← read depth text
      .ok (some value, rest)

/-! ## Lists and objects -/

/-- What closing a list or an object comes to: the rest of the text, and a fault if it does not
close here. -/
abbrev Closing :=
  List Char × Option Fault

/-- Closes a list behind its last item. -/
def closeList (text : List Char) : Closing :=
  match skipSpace text with
  | ']' :: rest => (rest, none)
  | ',' :: rest =>
      match skipSpace rest with
      | ']' :: rest => (']' :: rest, some (.ahead .trailingComma (']' :: rest)))
      | rest => (rest, some (.ahead .trailingCharacters rest))
  | [] => ([], some (.ahead .endInList []))
  | rest => (rest, some (.ahead .trailingCharacters rest))

/-- Closes an object behind its last member. -/
def closeObject (text : List Char) : Closing :=
  match skipSpace text with
  | '}' :: rest => (rest, none)
  | ',' :: rest => (',' :: rest, some (.ahead .trailingComma (',' :: rest)))
  | [] => ([], some (.ahead .endInObject []))
  | rest => (rest, some (.ahead .trailingCharacters rest))

/-- Closes the list or object around what was read. A fault inside that has no place yet is placed
behind what could be closed. -/
def closing {alpha : Type} (close : List Char → Closing) (result : Read (alpha × List Char)) :
    Read (alpha × List Char) :=
  match result with
  | .ok (value, rest) =>
      match close rest with
      | (rest, none) => .ok (value, rest)
      | (_, some fault) => .error fault
  | .error fault => .error { fault with rest := (close fault.rest).1 }.settle

/-- Enters a list or an object, unless that is too deep. -/
def entering {alpha : Type} (text : List Char) (depth : Nat)
    (read : Nat → Read (alpha × List Char)) : Read (alpha × List Char) :=
  if depth ≤ 1 then .error (.ahead .tooDeep text) else read (depth - 1)

/-- The text of the next item of a list, or nothing at its end. The first item has no comma in
front. -/
def nextItem (first : Bool) (text : List Char) : Read (Option (List Char) × List Char) :=
  match skipSpace text with
  | [] => .error (.ahead .endInList [])
  | ']' :: rest => .ok (none, ']' :: rest)
  | c :: rest =>
      if first then
        .ok (some (c :: rest), c :: rest)
      else if c = ',' then
        match skipSpace rest with
        | ']' :: rest => .error (.ahead .trailingComma (']' :: rest))
        | [] => .error (.ahead .endInValue [])
        | rest => .ok (some rest, rest)
      else
        .error (.ahead .expectedListEnd (c :: rest))

/-- The items up to the end of a list, of which at most `limit` are read. -/
def itemsWithin {alpha : Type} (read : Reader alpha) (depth : Nat) :
    Nat → Bool → List Char → Read (List alpha × List Char)
  | 0, _, text => .error (.here .endInList text)
  | limit + 1, first, text => do
      match ← nextItem first text with
      | (none, rest) => .ok ([], rest)
      | (some text, _) =>
          let (item, rest) ← read depth text
          let (items, rest) ← itemsWithin read depth limit false rest
          .ok (item :: items, rest)

/-- A list of values of one type. Each item takes a character, so the text bounds their number. -/
def listReader {alpha : Type} (read : Reader alpha) : Reader (List alpha) := fun depth text =>
  match skipSpace text with
  | '[' :: rest =>
      entering ('[' :: rest) depth fun depth =>
        closing closeList (itemsWithin read depth (rest.length + 1) true rest)
  | text => mismatch "a sequence" text

/-- The key of the next member of an object, or nothing at its end. -/
def nextKey (first : Bool) (text : List Char) : Read (Option String × List Char) :=
  match skipSpace text with
  | [] => .error (.ahead .endInObject [])
  | '}' :: rest => .ok (none, '}' :: rest)
  | c :: rest =>
      if first then
        match c :: rest with
        | '"' :: rest => key rest
        | rest => .error (.ahead .keyNotString rest)
      else if c = ',' then
        match skipSpace rest with
        | '"' :: rest => key rest
        | '}' :: rest => .error (.ahead .trailingComma ('}' :: rest))
        | [] => .error (.ahead .endInValue [])
        | rest => .error (.ahead .keyNotString rest)
      else
        .error (.ahead .expectedObjectEnd (c :: rest))
where
  key (text : List Char) : Read (Option String × List Char) := do
    let (name, rest) ← readString text
    .ok (some name, rest)

/-- The text behind the colon after a key. -/
def readColon (text : List Char) : Read (List Char) :=
  match skipSpace text with
  | ':' :: rest => .ok rest
  | [] => .error (.ahead .endInObject [])
  | rest => .error (.ahead .expectedColon rest)

/-- The members up to the end of an object. Each is added to `state` behind its key. -/
def membersWithin {state : Type} (add : String → state → List Char → Read (state × List Char)) :
    Nat → Bool → state → List Char → Read (state × List Char)
  | 0, _, _, text => .error (.here .endInObject text)
  | limit + 1, first, current, text => do
      match ← nextKey first text with
      | (none, rest) => .ok (current, rest)
      | (some name, rest) =>
          let (current, rest) ← add name current rest
          membersWithin add limit false current rest

/-- The insides of an object whose members are added to `start`. -/
def readMembers {state : Type} (add : String → state → List Char → Read (state × List Char))
    (start : state) (text : List Char) : Read (state × List Char) :=
  membersWithin add (text.length + 1) true start text

/-- An object with any keys. -/
def mapReader {alpha state : Type} (insert : String → alpha → state → state) (empty : state)
    (read : Reader alpha) : Reader state := fun depth text =>
  match skipSpace text with
  | '{' :: rest =>
      entering ('{' :: rest) depth fun depth =>
        closing closeObject <| readMembers
          (fun name current rest => do
            let (value, rest) ← read depth (← readColon rest)
            .ok (insert name value current, rest))
          empty rest
  | text => mismatch "a map" text

/-! ## Named alternatives -/

/-- The alternative with this name. -/
def findVariant {alpha : Type} (variants : List (String × alpha)) (name : String)
    (rest : List Char) : Read (alpha × List Char) :=
  match variants.lookup name with
  | some value => .ok (value, rest)
  | none => .error (.here (.unknownVariant name (variants.map Prod.fst)) rest)

/-- The key of an object that has to have one. -/
def onlyKey (text : List Char) : Read (String × List Char) :=
  match skipSpace text with
  | '"' :: rest => readString rest
  | '}' :: rest => .error (.ahead .expectedValue ('}' :: rest))
  | [] => .error (.ahead .endInObject [])
  | rest => .error (.ahead .keyNotString rest)

/-- One of several names, written as a string or as the only key of an object whose member is
`null`. -/
def variantReader {alpha : Type} (variants : List (String × alpha)) : Reader alpha :=
  fun depth text =>
    match skipSpace text with
    | '"' :: rest => do
        let (name, rest) ← readString rest
        findVariant variants name rest
    | '{' :: rest =>
        entering ('{' :: rest) depth fun depth => do
          let (name, rest) ← onlyKey rest
          let (value, rest) ← findVariant variants name rest
          let ((), rest) ← nullReader "unit" depth (← readColon rest)
          match skipSpace rest with
          | '}' :: rest => .ok (value, rest)
          | [] => .error (.here .endInObject [])
          | rest => .error (.here .expectedValue rest)
    | [] => .error (.ahead .endInValue [])
    | text => .error (.ahead .expectedValue text)

/-! ## Any value -/

/-- What a value of any kind turned out to be. -/
inductive AnyValue where
  | null
  | number (value : Float)
  | text (value : String)
  | other

/-- A value of any kind. The number counts down with each list or object around the value. -/
def anyReader : Reader AnyValue
  | 0, text => .error (.ahead .tooDeep text)
  | depth + 1, text =>
      match skipSpace text with
      | '[' :: rest =>
          entering ('[' :: rest) (depth + 1) fun _ => do
            let (_, rest) ← closing closeList
              (itemsWithin (fun _ => anyReader depth) depth (rest.length + 1) true rest)
            .ok (.other, rest)
      | '{' :: rest =>
          entering ('{' :: rest) (depth + 1) fun _ =>
            closing closeObject <| readMembers
              (fun _ _ rest => do
                let (_, rest) ← anyReader depth (← readColon rest)
                .ok (.other, rest))
              .other rest
      | text => do
          match ← readFound text with
          | (.null, rest) => .ok (.null, rest)
          | (.number value, rest) => .ok (.number value.toFloat, rest)
          | (.text value, rest) => .ok (.text value, rest)
          | (_, rest) => .ok (.other, rest)

/-! ## Whole texts -/

/-- Reads a text that holds one value and nothing else. -/
def parse {alpha : Type} (read : Reader alpha) (source : String) : Except Error alpha :=
  let text := source.toList
  match read startDepth text with
  | .error fault => .error (fault.locate text)
  | .ok (value, rest) =>
      match skipSpace rest with
      | [] => .ok value
      | rest => .error ((Fault.ahead .trailingCharacters rest).locate text)

end FuzzyRating.Json
