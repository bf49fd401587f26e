import FuzzyRating.Arith
import Mathlib.Algebra.Order.Field.Basic

/-!
Exact arithmetic on the numbers of an ordered field. What a division by zero comes to is not a
number, nor is anything computed from it. Powers are taken by any function.
-/

namespace FuzzyRating

/-- A number of a field, or a value that is not a number. -/
inductive Exact {scalar : Type} (power : scalar → scalar → scalar) where
  | number (value : scalar)
  | notANumber
  deriving DecidableEq, Repr

namespace Exact

variable {scalar : Type} [Field scalar] [LinearOrder scalar] {power : scalar → scalar → scalar}

/-- The value of a decimal numeral. -/
def ofDecimal (decimal : Decimal) : scalar :=
  let magnitude := (decimal.coefficient : scalar) * 10 ^ decimal.exponent
  if decimal.negative then -magnitude else magnitude

def combine (operation : scalar → scalar → scalar) : Exact power → Exact power → Exact power
  | number a, number b => number (operation a b)
  | _, _ => notANumber

def compare (relation : scalar → scalar → Bool) : Exact power → Exact power → Bool
  | number a, number b => relation a b
  | _, _ => false

instance : Arith (Exact power) where
  add := combine (· + ·)
  sub := combine (· - ·)
  mul := combine (· * ·)
  div
    | number a, number b => if b = 0 then notANumber else number (a / b)
    | _, _ => notANumber
  neg
    | number a => number (-a)
    | notANumber => notANumber
  ofNat n := number n
  ofDecimal decimal := number (ofDecimal decimal)
  pow := combine power
  lt := compare fun a b => decide (a < b)
  le := compare fun a b => decide (a ≤ b)
  eq := compare fun a b => decide (a = b)
  isNaN
    | number _ => false
    | notANumber => true
  isFinite
    | number _ => true
    | notANumber => false
  totalLe
    | number a, number b => decide (a ≤ b)
    | _, notANumber => true
    | notANumber, number _ => false

section Operations

variable (a b : scalar)

@[simp]
theorem number_add : (number a + number b : Exact power) = number (a + b) :=
  rfl

@[simp]
theorem number_sub : (number a - number b : Exact power) = number (a - b) :=
  rfl

@[simp]
theorem number_mul : (number a * number b : Exact power) = number (a * b) :=
  rfl

@[simp]
theorem number_neg : (-number a : Exact power) = number (-a) :=
  rfl

theorem number_div {b : scalar} (notZero : b ≠ 0) :
    (number a / number b : Exact power) = number (a / b) :=
  if_neg notZero

@[simp]
theorem ofNat_eq (n : Nat) : (Arith.ofNat n : Exact power) = number (n : scalar) :=
  rfl

@[simp]
theorem zero_eq : (Arith.zero : Exact power) = number 0 :=
  congrArg number Nat.cast_zero

@[simp]
theorem one_eq : (Arith.one : Exact power) = number 1 :=
  congrArg number Nat.cast_one

@[simp]
theorem pow_number : Arith.pow (number a : Exact power) (number b) = number (power a b) :=
  rfl

@[simp]
theorem lt_number : Arith.lt (number a : Exact power) (number b) = decide (a < b) :=
  rfl

@[simp]
theorem le_number : Arith.le (number a : Exact power) (number b) = decide (a ≤ b) :=
  rfl

@[simp]
theorem totalLe_number : Arith.totalLe (number a : Exact power) (number b) = decide (a ≤ b) :=
  rfl

@[simp]
theorem isNaN_number : Arith.isNaN (number a : Exact power) = false :=
  rfl

theorem isFinite_iff {a : Exact power} :
    Arith.isFinite a = true ↔ ∃ value, a = number value := by
  cases a with
  | number value => exact ⟨fun _ => ⟨value, rfl⟩, fun _ => rfl⟩
  | notANumber => exact ⟨fun impossible => Bool.noConfusion impossible, by rintro ⟨_, ⟨⟩⟩⟩

end Operations

/-! ## The total order -/

theorem totalLe_total (a b : Exact power) : (Arith.totalLe a b || Arith.totalLe b a) = true := by
  cases a <;> cases b <;> first | rfl | simp [le_total]

theorem totalLe_trans (a b c : Exact power) (first : Arith.totalLe a b = true)
    (second : Arith.totalLe b c = true) : Arith.totalLe a c = true := by
  cases c with
  | notANumber => cases a <;> rfl
  | number c =>
      cases b with
      | notANumber => cases second
      | number b =>
          cases a with
          | notANumber => cases first
          | number a =>
              simp only [totalLe_number, decide_eq_true_eq] at first second ⊢
              exact first.trans second

theorem totalLe_antisymm {a b : Exact power} (first : Arith.totalLe a b = true)
    (second : Arith.totalLe b a = true) : a = b := by
  cases a with
  | notANumber =>
      cases b with
      | notANumber => rfl
      | number b => cases first
  | number a =>
      cases b with
      | notANumber => cases second
      | number b =>
          simp only [totalLe_number, decide_eq_true_eq] at first second
          rw [first.antisymm second]

/-! ## The unit interval -/

/-- A number between zero and one. -/
inductive InUnit : Exact power → Prop
  | number {value : scalar} (nonneg : 0 ≤ value) (atMostOne : value ≤ 1) : InUnit (number value)

/-- Powers of numbers between zero and one stay there. -/
def KeepsUnit (power : scalar → scalar → scalar) : Prop :=
  ∀ base exponent, 0 ≤ base → base ≤ 1 → 0 ≤ exponent →
    0 ≤ power base exponent ∧ power base exponent ≤ 1

theorem inUnit_iff {a : Exact power} : Arith.inUnit a = true ↔ a.InUnit := by
  unfold Arith.inUnit
  rw [zero_eq, one_eq, Bool.and_eq_true]
  constructor
  · rintro ⟨nonneg, atMostOne⟩
    cases a with
    | notANumber => cases nonneg
    | number value => exact .number (of_decide_eq_true nonneg) (of_decide_eq_true atMostOne)
  · rintro ⟨nonneg, atMostOne⟩
    exact ⟨decide_eq_true nonneg, decide_eq_true atMostOne⟩

theorem InUnit.isNaN {a : Exact power} (inUnit : a.InUnit) : Arith.isNaN a = false := by
  cases inUnit
  exact isNaN_number _

/-- Bounding a number to the unit interval where it lies changes nothing. -/
theorem InUnit.clampUnit {a : Exact power} (inUnit : a.InUnit) : Arith.clampUnit a = a := by
  obtain ⟨nonneg, atMostOne⟩ := inUnit
  unfold Arith.clampUnit
  rw [zero_eq, one_eq, lt_number, lt_number]
  simp [nonneg.not_gt, atMostOne.not_gt]

theorem InUnit.least {a b : Exact power} (first : a.InUnit) (second : b.InUnit) :
    (Arith.least a b).InUnit := by
  unfold Arith.least
  split
  · exact second
  · exact first

theorem InUnit.greatest {a b : Exact power} (first : a.InUnit) (second : b.InUnit) :
    (Arith.greatest a b).InUnit := by
  unfold Arith.greatest
  split
  · exact second
  · exact first

variable [IsStrictOrderedRing scalar]

theorem inUnit_zero : (Arith.zero : Exact power).InUnit := by
  rw [zero_eq]
  exact .number le_rfl zero_le_one

theorem inUnit_one : (Arith.one : Exact power).InUnit := by
  rw [one_eq]
  exact .number zero_le_one le_rfl

theorem clampUnit_number (a : scalar) :
    Arith.clampUnit (number a : Exact power) = number (max 0 (min a 1)) := by
  unfold Arith.clampUnit
  simp only [zero_eq, one_eq, lt_number, decide_eq_true_eq]
  by_cases below : a < 0
  · rw [if_pos below, min_eq_left (below.trans zero_lt_one).le, max_eq_left below.le]
  · rw [if_neg below]
    by_cases beyond : 1 < a
    · rw [if_pos beyond, min_eq_right beyond.le, max_eq_right zero_le_one]
    · rw [if_neg beyond, min_eq_left (not_lt.mp beyond), max_eq_right (not_lt.mp below)]

theorem clampUnit_inUnit (a : scalar) : (Arith.clampUnit (number a : Exact power)).InUnit := by
  rw [clampUnit_number]
  exact .number (le_max_left _ _) (max_le zero_le_one (min_le_right _ _))

namespace InUnit

variable {a b : Exact power}

theorem complement (inUnit : a.InUnit) : (Arith.one - a).InUnit := by
  obtain ⟨nonneg, atMostOne⟩ := inUnit
  rw [one_eq, number_sub]
  exact .number (sub_nonneg.mpr atMostOne) (sub_le_self 1 nonneg)

theorem mul (first : a.InUnit) (second : b.InUnit) : (a * b).InUnit := by
  obtain ⟨nonneg, atMostOne⟩ := first
  obtain ⟨otherNonneg, otherAtMostOne⟩ := second
  rw [number_mul]
  exact .number (mul_nonneg nonneg otherNonneg) (mul_le_one₀ atMostOne otherNonneg otherAtMostOne)

end InUnit

end Exact

end FuzzyRating
