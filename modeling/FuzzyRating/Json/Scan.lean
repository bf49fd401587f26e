import FuzzyRating.Decimal.Basic
import FuzzyRating.Json.Fault

/-!
The lexical parts of JSON texts: blanks, words, strings and numbers, and values that are skipped.
-/

namespace FuzzyRating.Json

/-- What reading gives: a value, usually with the rest of the text, or a fault. -/
abbrev Read :=
  Except Fault

def isSpace (c : Char) : Bool :=
  c == ' ' || c == '\n' || c == '\t' || c == '\r'

def skipSpace (text : List Char) : List Char :=
  text.dropWhile isSpace

/-- Expects the remaining letters of `null`, `true` or `false`. -/
def readLetters : List Char → List Char → Read (List Char)
  | [], text => .ok text
  | _ :: _, [] => .error (.here .endInValue [])
  | l :: letters, c :: text =>
      if l = c then readLetters letters text
      else .error (.ahead .expectedIdent (c :: text))

/-! ## Strings -/

def hexValue? (c : Char) : Option Nat :=
  if c.isDigit then some (c.toNat - '0'.toNat)
  else if 'a' ≤ c ∧ c ≤ 'f' then some (c.toNat - 'a'.toNat + 10)
  else if 'A' ≤ c ∧ c ≤ 'F' then some (c.toNat - 'A'.toNat + 10)
  else none

/-- Four hexadecimal digits. -/
def readHex (text : List Char) : Read (Nat × List Char) :=
  match text.take 4 |>.mapM hexValue? with
  | some [a, b, c, d] => .ok (((a * 16 + b) * 16 + c) * 16 + d, text.drop 4)
  | _ =>
      if byteCount (text.take 4) < 4 then
        .error (.here .endInString [])
      else
        .error ⟨.invalidEscape, some ⟨text, 4⟩, text⟩

/-- The second half of a surrogate pair: a backslash, a `u` and four digits. -/
def readLowSurrogate : List Char → Read (Nat × List Char)
  | [] => .error (.here .endInString [])
  | ['\\'] => .error (.here .endInString [])
  | '\\' :: 'u' :: text => do
      let (low, rest) ← readHex text
      if 0xDC00 ≤ low ∧ low ≤ 0xDFFF then
        .ok (low, rest)
      else
        .error (.here .loneSurrogate rest)
  | '\\' :: text => .error (.ahead .endInSurrogates text)
  | text => .error (.ahead .endInSurrogates text)

/-- A code point after `\u`, which may take a pair of surrogates. -/
def readCodePoint (text : List Char) : Read (Char × List Char) := do
  let (high, rest) ← readHex text
  if 0xDC00 ≤ high ∧ high ≤ 0xDFFF then
    .error (.here .loneSurrogate rest)
  else if 0xD800 ≤ high ∧ high ≤ 0xDBFF then
    let (low, rest) ← readLowSurrogate rest
    .ok (Char.ofNat ((high - 0xD800) * 0x400 + (low - 0xDC00) + 0x10000), rest)
  else
    .ok (Char.ofNat high, rest)

/-- The character that a letter stands for after a backslash. -/
def shortEscape? : Char → Option Char
  | '"' => some '"'
  | '\\' => some '\\'
  | '/' => some '/'
  | 'b' => some '\x08'
  | 'f' => some '\x0c'
  | 'n' => some '\n'
  | 'r' => some '\r'
  | 't' => some '\t'
  | _ => none

/-- What follows a backslash. -/
def readEscape : List Char → Read (Char × List Char)
  | [] => .error (.here .endInString [])
  | 'u' :: text => readCodePoint text
  | c :: text =>
      match shortEscape? c with
      | some escaped => .ok (escaped, text)
      | none => .error (.ahead .invalidEscape (c :: text))

/-- The characters up to the closing quote, of which at most `limit` are read. -/
def readCharsWithin : Nat → List Char → Read (List Char × List Char)
  | 0, text => .error (.here .endInString text)
  | _, [] => .error (.here .endInString [])
  | _, '"' :: text => .ok ([], text)
  | limit + 1, '\\' :: text => do
      let (c, rest) ← readEscape text
      let (cs, rest) ← readCharsWithin limit rest
      .ok (c :: cs, rest)
  | limit + 1, c :: text =>
      if c.toNat < 0x20 then
        .error (.here .controlCharacter text)
      else do
        let (cs, rest) ← readCharsWithin limit text
        .ok (c :: cs, rest)

/-- A string behind its opening quote. -/
def readString (text : List Char) : Read (String × List Char) := do
  let (cs, rest) ← readCharsWithin (text.length + 1) text
  .ok (String.ofList cs, rest)

/-! ## Numbers -/

/-- The exponent of the greatest power of ten among the doubles. -/
def greatestPower : Nat :=
  308

/-- The double nearest to a power of ten. -/
def powerOfTen (exponent : Nat) : Float :=
  Float.ofScientific 1 false exponent

/-- A double times a power of ten, unless that is infinite. -/
def scaleUp? (value : Float) (exponent : Nat) : Option Float :=
  if exponent ≤ greatestPower then
    let scaled := value * powerOfTen exponent
    if scaled.isInf then none else some scaled
  else if value == 0 then
    some value
  else
    none

/-- A double divided by a power of ten, step by step as long as that power is no double. Each step
takes the greatest power off the exponent, which bounds the steps. -/
def scaleDown : Nat → Float → Nat → Float
  | 0, value, exponent => value / powerOfTen exponent
  | steps + 1, value, exponent =>
      if exponent ≤ greatestPower then value / powerOfTen exponent
      else if value == 0 then value
      else scaleDown steps (value / powerOfTen greatestPower) (exponent - greatestPower)

/-- A double times a power of ten with a sign in its exponent. Several roundings may lie between the
digits and the result, so it need not be the nearest double. -/
def scale? (value : Float) : Int → Option Float
  | .ofNat exponent => scaleUp? value exponent
  | .negSucc less => some (scaleDown ((less + 1) / greatestPower) value (less + 1))

def signed (negative : Bool) (value : Float) : Float :=
  if negative then -value else value

/-- The number with this coefficient and exponent, unless it is too large for a double. -/
def floatingNumeral (negative : Bool) (coefficient : Nat) (exponent : Int) (rest : List Char) :
    Read (Numeral × List Char) :=
  match scale? (Float.ofNat coefficient) exponent with
  | some value => .ok (.floating (signed negative value), rest)
  | none => .error (.here .numberOutOfRange rest)

/-- Further digits of a coefficient, as long as it fits into 64 bits, and how many are left out. -/
def takeDigits (coefficient : Nat) : List Char → Nat × Nat
  | [] => (coefficient, 0)
  | c :: digits =>
      let next := 10 * coefficient + Decimal.digitValue c
      if next < Nat.pow 2 64 then takeDigits next digits else (coefficient, digits.length + 1)

/-- An exponent as written: its sign and its value, or nothing if the value passes the 31 bits
kept for it, with what follows the digit that did. -/
def readExponentDigits (value : Nat) : List Char → Option Nat × List Char
  | [] => (some value, [])
  | c :: text =>
      if c.isDigit then
        let value := 10 * value + Decimal.digitValue c
        if value < Nat.pow 2 31 then readExponentDigits value text else (none, text)
      else
        (some value, c :: text)

/-- The exponent of a number behind its `e`, on top of the one that its digits have. An exponent too
long to be kept makes the number zero or too large. -/
def readExponent (negative : Bool) (coefficient : Nat) (exponent : Int) (text : List Char) :
    Read (Numeral × List Char) :=
  let (minus, text) := Decimal.scanSign text
  match text with
  | [] => .error (.here .endInValue [])
  | c :: rest =>
      if c.isDigit then
        match readExponentDigits (Decimal.digitValue c) rest with
        | (some value, rest) =>
            let exponent := if minus then exponent - value else exponent + value
            floatingNumeral negative coefficient exponent rest
        | (none, rest) =>
            if coefficient ≠ 0 ∧ ¬minus then
              .error (.here .numberOutOfRange rest)
            else
              .ok (.floating (signed negative 0), rest.dropWhile Char.isDigit)
      else
        .error (.ahead .invalidNumber text)

/-- What may follow the digits of a number. -/
def readAfterDigits (negative : Bool) (coefficient : Nat) (exponent : Int) (text : List Char) :
    Read (Numeral × List Char) :=
  match text with
  | 'e' :: rest => readExponent negative coefficient exponent rest
  | 'E' :: rest => readExponent negative coefficient exponent rest
  | rest => floatingNumeral negative coefficient exponent rest

/-- The number without point and exponent. It is floating point if digits are left out, and so are a
negative zero and what lies below the signed numbers of 64 bits. -/
def wholeNumeral (negative : Bool) (coefficient left : Nat) (rest : List Char) :
    Read (Numeral × List Char) :=
  if left ≠ 0 then
    floatingNumeral negative coefficient left rest
  else if ¬negative then
    .ok (.natural coefficient, rest)
  else if coefficient = 0 ∨ Nat.pow 2 63 < coefficient then
    .ok (.floating (-Float.ofNat coefficient), rest)
  else
    .ok (.negative coefficient, rest)

/-- A number behind the digits before its point, `left` of which are left out. Each digit behind the
point that is taken lowers the exponent. -/
def readAfterWhole (negative : Bool) (coefficient left : Nat) :
    List Char → Read (Numeral × List Char)
  | '.' :: text =>
      match Decimal.spanDigits text with
      | ([], []) => .error (.ahead .endInValue [])
      | ([], rest) => .error (.ahead .invalidNumber rest)
      | (fraction, rest) =>
          let (coefficient, fractionLeft) := takeDigits coefficient fraction
          let places := fraction.length - fractionLeft
          readAfterDigits negative coefficient (left - places) rest
  | 'e' :: text => readExponent negative coefficient left text
  | 'E' :: text => readExponent negative coefficient left text
  | rest => wholeNumeral negative coefficient left rest

/-- A number behind its sign. No zero stands in front of other digits. -/
def readMagnitude (negative : Bool) : List Char → Read (Numeral × List Char)
  | [] => .error (.here .endInValue [])
  | '0' :: text =>
      match text with
      | c :: rest =>
          if c.isDigit then .error (.ahead .invalidNumber (c :: rest))
          else readAfterWhole negative 0 0 (c :: rest)
      | [] => readAfterWhole negative 0 0 []
  | c :: text =>
      if c.isDigit then
        let (digits, rest) := Decimal.spanDigits (c :: text)
        let (coefficient, left) := takeDigits 0 digits
        readAfterWhole negative coefficient left rest
      else
        .error (.ahead .invalidNumber (c :: text))

/-- Whether a number starts with this character. -/
def startsNumber (c : Char) : Bool :=
  c == '-' || c.isDigit

def readNumeral : List Char → Read (Numeral × List Char)
  | '-' :: text => readMagnitude true text
  | text => readMagnitude false text

/-! ## Skipped values -/

/-- Skips what follows a backslash. Surrogates need not be paired in skipped strings. -/
def skipEscape : List Char → Read (List Char)
  | [] => .error (.here .endInString [])
  | 'u' :: text => do
      let (_, rest) ← readHex text
      .ok rest
  | c :: text =>
      match shortEscape? c with
      | some _ => .ok text
      | none => .error (.ahead .invalidEscape (c :: text))

def skipCharsWithin : Nat → List Char → Read (List Char)
  | 0, text => .error (.here .endInString text)
  | _, [] => .error (.here .endInString [])
  | _, '"' :: text => .ok text
  | limit + 1, '\\' :: text => do
      let rest ← skipEscape text
      skipCharsWithin limit rest
  | limit + 1, c :: text =>
      if c.toNat < 0x20 then .error (.here .controlCharacter (c :: text))
      else skipCharsWithin limit text

/-- Skips a string behind its opening quote. -/
def skipString (text : List Char) : Read (List Char) :=
  skipCharsWithin (text.length + 1) text

/-- Skips an exponent behind its `e`. -/
def skipExponent (text : List Char) : Read (List Char) :=
  let (_, text) := Decimal.scanSign text
  match text with
  | [] => .error (.here .invalidNumber [])
  | c :: rest =>
      if c.isDigit then .ok (rest.dropWhile Char.isDigit)
      else .error (.ahead .invalidNumber (c :: rest))

def skipAfterWhole : List Char → Read (List Char)
  | '.' :: text =>
      match Decimal.spanDigits text with
      | ([], rest) => .error (.ahead .invalidNumber rest)
      | (_, 'e' :: rest) => skipExponent rest
      | (_, 'E' :: rest) => skipExponent rest
      | (_, rest) => .ok rest
  | 'e' :: text => skipExponent text
  | 'E' :: text => skipExponent text
  | rest => .ok rest

/-- Skips a number behind its sign. Its size does not matter. -/
def skipMagnitude : List Char → Read (List Char)
  | [] => .error (.here .invalidNumber [])
  | '0' :: c :: rest =>
      if c.isDigit then .error (.ahead .invalidNumber (c :: rest))
      else skipAfterWhole (c :: rest)
  | c :: text =>
      if c.isDigit then skipAfterWhole (text.dropWhile Char.isDigit)
      else .error (.ahead .invalidNumber (c :: text))

/-- Skips a value that is neither a list nor an object. -/
def skipScalar : List Char → Read (List Char)
  | [] => .error (.ahead .endInValue [])
  | 'n' :: text => readLetters ['u', 'l', 'l'] text
  | 't' :: text => readLetters ['r', 'u', 'e'] text
  | 'f' :: text => readLetters ['a', 'l', 's', 'e'] text
  | '"' :: text => skipString text
  | '-' :: text => skipMagnitude text
  | c :: text =>
      if c.isDigit then skipMagnitude (c :: text)
      else .error (.ahead .expectedValue (c :: text))

/-- The brackets of lists and objects. -/
inductive Bracket where
  | list
  | object

def Bracket.closing : Bracket → Char
  | list => ']'
  | object => '}'

def Bracket.endComplaint : Bracket → Complaint
  | list => .endInList
  | object => .endInObject

def Bracket.moreComplaint : Bracket → Complaint
  | list => .expectedListEnd
  | object => .expectedObjectEnd

/-- Skips the key and colon in front of a member. -/
def skipKey (text : List Char) : Read (List Char) :=
  match skipSpace text with
  | '"' :: text => do
      let rest ← skipString text
      match skipSpace rest with
      | ':' :: rest => .ok rest
      | [] => .error (.ahead .endInObject [])
      | rest => .error (.ahead .expectedColon rest)
  | [] => .error (.ahead .endInObject [])
  | rest => .error (.ahead .keyNotString rest)

/-- Skips what stands between an opening bracket or a comma and the next value. -/
def skipToValue : Bracket → List Char → Read (List Char)
  | .list, text => .ok text
  | .object, text => skipKey text

mutual

/-- Skips a value and then the rest of the lists and objects in `stack`, innermost first, that it
stands in. Each step takes at least one character, so `limit` is the length of the text. -/
def skipValueWithin : Nat → List Bracket → List Char → Read (List Char)
  | 0, _, text => .error (.here .endInValue text)
  | limit + 1, stack, text =>
      match skipSpace text with
      | '[' :: rest => skipOpenedWithin limit .list stack rest
      | '{' :: rest => skipOpenedWithin limit .object stack rest
      | text => do
          let rest ← skipScalar text
          skipRestWithin limit stack rest

/-- Skips what follows an opening bracket. -/
def skipOpenedWithin : Nat → Bracket → List Bracket → List Char → Read (List Char)
  | 0, _, _, text => .error (.here .endInValue text)
  | limit + 1, bracket, stack, text =>
      match skipSpace text with
      | [] => .error (.ahead bracket.endComplaint [])
      | c :: rest =>
          if c = bracket.closing then
            skipRestWithin limit stack rest
          else do
            let rest ← skipToValue bracket (c :: rest)
            skipValueWithin limit (bracket :: stack) rest

/-- Skips what follows a value. -/
def skipRestWithin : Nat → List Bracket → List Char → Read (List Char)
  | _, [], text => .ok text
  | 0, _, text => .error (.here .endInValue text)
  | limit + 1, bracket :: stack, text =>
      match skipSpace text with
      | [] => .error (.ahead bracket.endComplaint [])
      | c :: rest =>
          if c = ',' then do
            let rest ← skipToValue bracket rest
            skipValueWithin limit (bracket :: stack) rest
          else if c = bracket.closing then
            skipRestWithin limit stack rest
          else
            .error (.ahead bracket.moreComplaint (c :: rest))

end

/-- Skips any value, however deep. -/
def skipValue (text : List Char) : Read (List Char) :=
  skipValueWithin (2 * text.length + 2) [] text

end FuzzyRating.Json
