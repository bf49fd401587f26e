import FuzzyRating.Decimal.Basic

/-!
The arithmetic that ratings are computed in. Curves, operators, hedges and the evaluation of rules
are written over any type of numbers with the operations below; programs run them on doubles.
-/

namespace FuzzyRating

/-- A type of numbers that ratings can be computed in. Comparisons are answered with a Boolean
because on doubles a value that is not a number compares with nothing. -/
class Arith (num : Type) extends Add num, Sub num, Mul num, Div num, Neg num where
  ofNat : Nat → num
  /-- The number nearest to a decimal numeral. -/
  ofDecimal : Decimal → num
  pow : num → num → num
  lt : num → num → Bool
  le : num → num → Bool
  eq : num → num → Bool
  isNaN : num → Bool
  isFinite : num → Bool
  /-- A total order that refines `le`, used for sorting. -/
  totalLe : num → num → Bool

namespace Arith

variable {num : Type} [Arith num]

def zero : num :=
  ofNat 0

def one : num :=
  ofNat 1

/-- The lesser of two numbers, the second one if neither is less. A value that is not a number
gives way to the other one. -/
def least (a b : num) : num :=
  if isNaN a || le b a then b else a

/-- The greater of two numbers, the second one if neither is greater. A value that is not a number
gives way to the other one. -/
def greatest (a b : num) : num :=
  if isNaN a || le a b then b else a

/-- The nearest number between zero and one. -/
def clampUnit (a : num) : num :=
  if lt a zero then zero else if lt one a then one else a

/-- Whether a number lies between zero and one. -/
def inUnit (a : num) : Bool :=
  le zero a && le a one

end Arith

/-- Position of a double in the total order of doubles: `-0.0` stands before `0.0`, and values that
are not numbers come last. -/
def floatRank (x : Float) : Int :=
  let bits := x.toBits.toNat
  if bits < 0x8000000000000000 then bits else 0x7fffffffffffffff - (bits : Int)

instance : Arith Float where
  ofNat := Float.ofNat
  ofDecimal := Decimal.toFloat
  pow := Float.pow
  lt a b := decide (a < b)
  le a b := decide (a ≤ b)
  eq a b := a == b
  isNaN := fun a => a.isNaN
  isFinite := fun a => a.isFinite
  totalLe a b := decide (floatRank a ≤ floatRank b)

end FuzzyRating
