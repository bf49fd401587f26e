/-!
Decimal numerals: a sign, a coefficient and a power of ten. `Decimal.scan` reads the plain numeral
syntax, and `Decimal.toFloat` gives the nearest double.
-/

namespace FuzzyRating

/-- The number `coefficient · 10 ^ exponent`, negated if `negative`. Zero keeps its sign. -/
structure Decimal where
  negative : Bool
  coefficient : Nat
  exponent : Int
  deriving DecidableEq, Repr

namespace Decimal

/-- The value of a decimal digit. -/
def digitValue (c : Char) : Nat :=
  c.toNat - '0'.toNat

/-- Reads further digits of a coefficient of which `value` has been read. -/
def digitsValue (value : Nat) (digits : List Char) : Nat :=
  digits.foldl (fun value c => 10 * value + digitValue c) value

/-- The longest run of decimal digits in front, and what follows it. -/
def spanDigits (text : List Char) : List Char × List Char :=
  (text.takeWhile Char.isDigit, text.dropWhile Char.isDigit)

/-- A sign in front, if there is one: whether it is a minus, and what follows. -/
def scanSign : List Char → Bool × List Char
  | '-' :: rest => (true, rest)
  | '+' :: rest => (false, rest)
  | text => (false, text)

/-- The exponent part: absent, or an `e` in either case, an optional sign and at least one digit.
An `e` that no digit follows spoils the numeral. -/
def scanExponent : List Char → Option (Int × List Char)
  | [] => some (0, [])
  | c :: text =>
      if c = 'e' ∨ c = 'E' then
        let (negative, text) := scanSign text
        let (digits, rest) := spanDigits text
        if digits.isEmpty then
          none
        else
          let value : Int := digitsValue 0 digits
          some (if negative then -value else value, rest)
      else
        some (0, c :: text)

/-- The digits of a numeral: `12`, `12.`, `12.5` or `.5`, as a coefficient and the number of
digits after the point. -/
def scanDigits (text : List Char) : Option (Nat × Nat × List Char) :=
  let (whole, rest) := spanDigits text
  match rest with
  | '.' :: tail =>
      let (fraction, rest) := spanDigits tail
      if whole.isEmpty && fraction.isEmpty then
        none
      else
        some (digitsValue (digitsValue 0 whole) fraction, fraction.length, rest)
  | _ => if whole.isEmpty then none else some (digitsValue 0 whole, 0, rest)

/-- Reads the numeral at the head of a text: an optional sign, digits with at most one point among
or beside them, and an optional exponent. -/
def scan (text : List Char) : Option (Decimal × List Char) := do
  let (negative, text) := scanSign text
  let (coefficient, places, text) ← scanDigits text
  let (exponent, rest) ← scanExponent text
  return (⟨negative, coefficient, exponent - places⟩, rest)

/-- Reads a text that is one numeral and nothing else. -/
def ofText? (text : List Char) : Option Decimal :=
  match scan text with
  | some (decimal, []) => some decimal
  | _ => none

/-- The nearest double without the sign. Far outside the range of doubles the answer is known from
the position of the leading digit, so that no huge power of ten is computed. -/
def magnitude (coefficient : Nat) (exponent : Int) : Float :=
  let leading : Int := (Nat.toDigits 10 coefficient).length + exponent
  if coefficient = 0 ∨ leading < -400 then
    0
  else if leading > 400 then
    1 / 0
  else
    Float.ofScientific coefficient (decide (exponent < 0)) exponent.natAbs

/-- The double nearest to a decimal, infinite when the decimal is too large. -/
def toFloat (decimal : Decimal) : Float :=
  let size := magnitude decimal.coefficient decimal.exponent
  if decimal.negative then -size else size

end Decimal

end FuzzyRating
