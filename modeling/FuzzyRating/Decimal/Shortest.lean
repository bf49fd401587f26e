/-!
The shortest decimal of a double: of all decimals that round to it, one with the fewest digits,
and of those the nearest. All arithmetic is on natural numbers.
-/

namespace FuzzyRating

/-- The magnitude `mantissa · 2 ^ exponent` of a finite double. -/
structure Binary where
  mantissa : Nat
  exponent : Int
  deriving DecidableEq, Repr

namespace Binary

def mantissaBits (bits : UInt64) : Nat :=
  bits.toNat % Nat.pow 2 52

def exponentBits (bits : UInt64) : Nat :=
  bits.toNat / Nat.pow 2 52 % Nat.pow 2 11

def signBit (bits : UInt64) : Bool :=
  bits.toNat / Nat.pow 2 63 % 2 = 1

/-- The magnitude that the bits of a finite double stand for. -/
def ofBits (bits : UInt64) : Binary :=
  match exponentBits bits with
  | 0 => ⟨mantissaBits bits, -1074⟩
  | field => ⟨Nat.pow 2 52 + mantissaBits bits, (field : Int) - 1075⟩

/-- The gap below a power of two is half the gap above it, unless both are of the least size. -/
def narrowBelow (x : Binary) : Bool :=
  x.mantissa = Nat.pow 2 52 && x.exponent > -1074

/-- A positive value and the ends of the interval that rounds to it, as natural numbers over one
denominator. The ends belong to the interval iff the mantissa is even. -/
structure Interval where
  low : Nat
  value : Nat
  high : Nat
  denominator : Nat
  closed : Bool
  deriving Repr

/-- The rounding interval in units of a quarter of the last place, multiplied by `10 ^ -place` so
that the decimals with that last place become the whole numbers. -/
def intervalAt (x : Binary) (place : Int) : Interval :=
  let unit := x.exponent - 2
  let scale := Nat.pow 2 unit.toNat * Nat.pow 10 (-place).toNat
  { low := (4 * x.mantissa - if x.narrowBelow then 1 else 2) * scale
    value := 4 * x.mantissa * scale
    high := (4 * x.mantissa + 2) * scale
    denominator := Nat.pow 2 (-unit).toNat * Nat.pow 10 place.toNat
    closed := x.mantissa % 2 = 0 }

/-- Whether the whole number `n` lies in the interval. -/
def Interval.contains (i : Interval) (n : Nat) : Bool :=
  let point := n * i.denominator
  if i.closed then i.low ≤ point && point ≤ i.high else i.low < point && point < i.high

/-- The whole number in the interval that is nearest to the value, if there is one. Of two equally
near numbers `tieUp` takes the greater, otherwise the even one. -/
def Interval.nearest? (i : Interval) (tieUp : Bool) : Option Nat :=
  let below := i.value / i.denominator
  let above := below + 1
  match i.contains below, i.contains above with
  | false, false => none
  | true, false => some below
  | false, true => some above
  | true, true =>
      let down := i.value - below * i.denominator
      let up := above * i.denominator - i.value
      if down < up then some below
      else if up < down then some above
      else some (if tieUp || below % 2 = 1 then above else below)

/-- A place at or above that of the leading digit. -/
def topPlace (x : Binary) : Int :=
  ((x.exponent + Nat.log2 x.mantissa + 1) * 30103).fdiv 100000 + 1

/-- Tries the places downward from `place` and stops at the first that has a number in the
interval. -/
def search (x : Binary) (tieUp : Bool) : Nat → Int → Nat × Int
  | 0, place => ((x.intervalAt place).value / (x.intervalAt place).denominator, place)
  | tries + 1, place =>
      match (x.intervalAt place).nearest? tieUp with
      | some coefficient => (coefficient, place)
      | none => search x tieUp tries (place - 1)

/-- Coefficient and exponent of the shortest decimal of a positive magnitude. Seventeen digits
always suffice, and the first place tried is at most three above the leading digit. -/
def shortest (x : Binary) (tieUp : Bool) : Nat × Int :=
  if x.mantissa = 0 then (0, 0) else search x tieUp 24 x.topPlace

end Binary

end FuzzyRating
