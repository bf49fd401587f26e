import FuzzyRating.Decimal.Shortest

/-!
How doubles are written. A `Layout` holds the choices that texts differ in; messages and JSON each
have one, and tables show three decimals.
-/

namespace FuzzyRating

/-- The choices made when a double is written with its shortest digits. -/
structure Layout where
  /-- Numbers whose leading digit stands at one of these powers of ten are written positionally,
  all others with an exponent. -/
  positional : Int → Bool
  /-- Whether whole numbers end in `.0`. -/
  pointZero : Bool
  /-- Whether the greater of two equally near decimals is taken, rather than the even one. -/
  tieUp : Bool
  /-- What is written for an infinity, given its sign. -/
  infinity : Bool → String
  /-- What is written for a value that is not a number. -/
  nan : String

namespace Layout

/-- Numbers in messages are always positional, and whole numbers have no point. -/
def message : Layout where
  positional := fun _ => true
  pointZero := false
  tieUp := true
  infinity := fun negative => if negative then "-inf" else "inf"
  nan := "NaN"

/-- Numbers in JSON are positional from `1e-5` up to below `1e16`, whole numbers end in `.0`, and
what is not finite is written `null`. -/
def json : Layout where
  positional := fun e => -5 ≤ e && e < 16
  pointZero := true
  tieUp := false
  infinity := fun _ => "null"
  nan := "null"

/-- Decimal digits of a natural number. -/
def digits (n : Nat) : List Char :=
  Nat.toDigits 10 n

/-- The digits of `coefficient` with the point `places` digits from the right, filled up with
zeros in front so that a digit stands before the point. -/
def pointed (coefficient places : Nat) : List Char :=
  let ds := digits coefficient
  let ds := List.replicate (places + 1 - ds.length) '0' ++ ds
  ds.take (ds.length - places) ++ '.' :: ds.drop (ds.length - places)

/-- Positional notation for `coefficient · 10 ^ exponent`. -/
def positionalText (layout : Layout) (coefficient : Nat) (exponent : Int) : List Char :=
  if exponent < 0 then
    pointed coefficient exponent.natAbs
  else
    digits coefficient ++ List.replicate exponent.toNat '0' ++
      if layout.pointZero then ['.', '0'] else []

/-- Notation with an exponent: one digit, the others after a point, and a signed exponent. -/
def exponentText (coefficient : Nat) (exponent : Int) : List Char :=
  let ds := digits coefficient
  let e := exponent + ds.length - 1
  let mantissa :=
    match ds with
    | d :: [] => [d]
    | d :: rest => d :: '.' :: rest
    | [] => []
  mantissa ++ 'e' :: (if e < 0 then '-' else '+') :: digits e.natAbs

/-- The text of a positive or zero decimal. -/
def decimalText (layout : Layout) (coefficient : Nat) (exponent : Int) : List Char :=
  if layout.positional (exponent + (digits coefficient).length - 1) then
    layout.positionalText coefficient exponent
  else
    exponentText coefficient exponent

/-- Writes a double with the fewest digits that read back to it. -/
def write (layout : Layout) (x : Float) : String :=
  let bits := x.toBits
  let negative := Binary.signBit bits
  if x.isNaN then
    layout.nan
  else if Binary.exponentBits bits = 2047 then
    layout.infinity negative
  else
    let (coefficient, exponent) := (Binary.ofBits bits).shortest layout.tieUp
    String.ofList <|
      (if negative then ['-'] else []) ++ layout.decimalText coefficient exponent

/-- The whole number nearest to `numerator / denominator`, the even one of two equally near. -/
def roundEven (numerator denominator : Nat) : Nat :=
  let below := numerator / denominator
  let rest := 2 * (numerator % denominator)
  if rest < denominator ∨ rest = denominator ∧ below % 2 = 0 then below else below + 1

/-- Writes a double with a set number of decimals, rounding its exact value half to even. -/
def writeFixed (places : Nat) (x : Float) : String :=
  let bits := x.toBits
  let negative := Binary.signBit bits
  if x.isNaN then
    message.nan
  else if Binary.exponentBits bits = 2047 then
    message.infinity negative
  else
    let binary := Binary.ofBits bits
    let scaled := roundEven
      (binary.mantissa * Nat.pow 2 binary.exponent.toNat * Nat.pow 10 places)
      (Nat.pow 2 (-binary.exponent).toNat)
    String.ofList <| (if negative then ['-'] else []) ++
      if places = 0 then digits scaled else pointed scaled places

end Layout

end FuzzyRating
