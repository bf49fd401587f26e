import FuzzyRating.Arith

/-!
Doubles by their bits. A `Float` does not show the sign of a value that is not a number. Bits do,
and the total order of doubles depends on it.
-/

namespace FuzzyRating

/-- A double given by its sign, exponent and mantissa bits. -/
structure Double where
  bits : UInt64
  deriving DecidableEq, Repr

namespace Double

def ofFloat (x : Float) : Double :=
  ⟨x.toBits⟩

def toFloat (x : Double) : Float :=
  Float.ofBits x.bits

/-- Position of some bits in the total order of doubles: from the negative values that are not
numbers over the negative numbers, `-0.0`, `0.0` and the positive numbers to the positive values
that are not numbers. -/
def rank (x : Double) : Int :=
  if x.bits.toNat < 0x8000000000000000 then x.bits.toNat
  else 0x7fffffffffffffff - (x.bits.toNat : Int)

/-- Arithmetic is that of the doubles, and the order of values that are not numbers that of their
bits. -/
instance : Arith Double where
  add a b := ofFloat (a.toFloat + b.toFloat)
  sub a b := ofFloat (a.toFloat - b.toFloat)
  mul a b := ofFloat (a.toFloat * b.toFloat)
  div a b := ofFloat (a.toFloat / b.toFloat)
  neg a := ofFloat (-a.toFloat)
  ofNat n := ofFloat (Arith.ofNat n)
  ofDecimal decimal := ofFloat (Arith.ofDecimal decimal)
  pow a b := ofFloat (Arith.pow a.toFloat b.toFloat)
  lt a b := Arith.lt a.toFloat b.toFloat
  le a b := Arith.le a.toFloat b.toFloat
  eq a b := Arith.eq a.toFloat b.toFloat
  isNaN a := Arith.isNaN a.toFloat
  isFinite a := Arith.isFinite a.toFloat
  totalLe a b := decide (a.rank ≤ b.rank)

end Double

end FuzzyRating
