import FuzzyRating.Decimal.Shortest
import Mathlib.Algebra.Order.Field.Power
import Mathlib.Algebra.Order.Field.Rat
import Mathlib.Tactic.FieldSimp
import Mathlib.Tactic.Linarith
import Mathlib.Tactic.Ring

/-!
The shortest decimal of a double rounds to that double, and no number rounds to two doubles, so
doubles with the same shortest decimal are the same.
-/

namespace FuzzyRating.Binary

/-- The mantissa and exponent of a finite double: as large a mantissa as 53 bits hold, unless the
exponent is the least one. -/
structure Canonical (x : Binary) : Prop where
  mantissa_lt : x.mantissa < 2 ^ 53
  least_le : -1074 ≤ x.exponent
  le_greatest : x.exponent ≤ 971
  full : -1074 < x.exponent → 2 ^ 52 ≤ x.mantissa

/-! ## Rounding intervals -/

/-- The lower end of the rounding interval, in quarters of the last place. -/
def lowQuarters (x : Binary) : Nat :=
  4 * x.mantissa - if x.narrowBelow then 1 else 2

/-- The upper end of the rounding interval, in quarters of the last place. -/
def highQuarters (x : Binary) : Nat :=
  4 * x.mantissa + 2

/-- A quarter of the last place. -/
def quarter (x : Binary) : ℚ :=
  2 ^ (x.exponent - 2)

theorem quarter_pos (x : Binary) : 0 < x.quarter :=
  zpow_pos (by norm_num) _

/-- A number lies in the rounding interval, the ends of which belong to even mantissas. -/
def Rounds (x : Binary) (value : ℚ) : Prop :=
  if x.mantissa % 2 = 0 then
    x.lowQuarters * x.quarter ≤ value ∧ value ≤ x.highQuarters * x.quarter
  else
    x.lowQuarters * x.quarter < value ∧ value < x.highQuarters * x.quarter

theorem Rounds.low_le {x : Binary} {value : ℚ} (rounds : x.Rounds value) :
    x.lowQuarters * x.quarter ≤ value := by
  unfold Rounds at rounds
  split at rounds
  · exact rounds.1
  · exact rounds.1.le

theorem Rounds.le_high {x : Binary} {value : ℚ} (rounds : x.Rounds value) :
    value ≤ x.highQuarters * x.quarter := by
  unfold Rounds at rounds
  split at rounds
  · exact rounds.2
  · exact rounds.2.le

theorem Rounds.strict_of_odd {x : Binary} {value : ℚ} (rounds : x.Rounds value)
    (odd : x.mantissa % 2 ≠ 0) :
    x.lowQuarters * x.quarter < value ∧ value < x.highQuarters * x.quarter := by
  unfold Rounds at rounds
  rwa [if_neg odd] at rounds

/-- Numbers that round to a double which is not zero are positive. -/
theorem Rounds.pos {x : Binary} {value : ℚ} (rounds : x.Rounds value)
    (nonzero : 0 < x.mantissa) :
    0 < value := by
  have positive : 0 < x.lowQuarters := by
    unfold lowQuarters
    split <;> omega
  have lowPositive : (0 : ℚ) < x.lowQuarters * x.quarter :=
    mul_pos (by exact_mod_cast positive) x.quarter_pos
  exact lowPositive.trans_le rounds.low_le

/-! ## Different doubles have nothing in their intervals in common -/

/-- The ends of two intervals are apart, and touch only if one mantissa is odd. -/
private theorem not_rounds_of_high_le_low {x y : Binary} {value : ℚ}
    (apart : x.highQuarters * x.quarter ≤ y.lowQuarters * y.quarter)
    (strict : x.mantissa % 2 = 0 → y.mantissa % 2 = 0 →
      x.highQuarters * x.quarter < y.lowQuarters * y.quarter)
    (xRounds : x.Rounds value) (yRounds : y.Rounds value) :
    False := by
  by_cases xEven : x.mantissa % 2 = 0
  · by_cases yEven : y.mantissa % 2 = 0
    · have gap := strict xEven yEven
      have upper := xRounds.le_high
      have lower := yRounds.low_le
      linarith
    · have upper := xRounds.le_high
      have lower := (yRounds.strict_of_odd yEven).1
      linarith
  · have upper := (xRounds.strict_of_odd xEven).2
    have lower := yRounds.low_le
    linarith

private theorem not_rounds_of_mantissa_lt {x y : Binary} {value : ℚ}
    (sameExponent : x.exponent = y.exponent) (less : x.mantissa < y.mantissa)
    (xRounds : x.Rounds value) (yRounds : y.Rounds value) :
    False := by
  have sameQuarter : x.quarter = y.quarter := by
    unfold quarter
    rw [sameExponent]
  have positive := y.quarter_pos
  have ends : x.highQuarters ≤ y.lowQuarters := by
    unfold highQuarters lowQuarters
    split <;> omega
  refine not_rounds_of_high_le_low ?_ ?_ xRounds yRounds
  · rw [sameQuarter]
    have endsCast : (x.highQuarters : ℚ) ≤ y.lowQuarters := by
      exact_mod_cast ends
    exact mul_le_mul_of_nonneg_right endsCast positive.le
  · intro xEven yEven
    have endsApart : x.highQuarters < y.lowQuarters := by
      unfold highQuarters lowQuarters
      split <;> omega
    rw [sameQuarter]
    have endsCast : (x.highQuarters : ℚ) < y.lowQuarters := by
      exact_mod_cast endsApart
    exact mul_lt_mul_of_pos_right endsCast positive

private theorem not_rounds_of_exponent_lt {x y : Binary} {value : ℚ} (xCanonical : x.Canonical)
    (yCanonical : y.Canonical) (less : x.exponent < y.exponent)
    (xRounds : x.Rounds value) (yRounds : y.Rounds value) :
    False := by
  have xBound := xCanonical.mantissa_lt
  have least := xCanonical.least_le
  have yFull := yCanonical.full (by omega)
  have positive := x.quarter_pos
  -- a place further up the lower end is at least as high as any upper end before
  have lowBound : 2 ^ 54 - 1 ≤ y.lowQuarters := by
    unfold lowQuarters narrowBelow
    rw [Nat.pow_eq]
    by_cases atLeast : y.mantissa = 2 ^ 52
    · have above : y.exponent > -1074 := by omega
      simp only [atLeast, above, decide_true, Bool.and_self, if_true]
      omega
    · simp only [atLeast, decide_false, Bool.false_and, Bool.false_eq_true, if_false]
      omega
  have quarterBound : 2 * x.quarter ≤ y.quarter := by
    have next : (2 : ℚ) * 2 ^ (x.exponent - 2) = 2 ^ (x.exponent - 1) := by
      rw [← zpow_one_add₀ (by norm_num)]
      congr 1
      ring
    unfold quarter
    rw [next]
    exact zpow_le_zpow_right₀ (by norm_num) (by omega)
  have lowCast : (2 ^ 54 - 1 : ℚ) ≤ y.lowQuarters := by
    have cast : ((2 ^ 54 - 1 : ℕ) : ℚ) ≤ y.lowQuarters := by
      exact_mod_cast lowBound
    norm_num at cast ⊢
    exact cast
  have farLow : (2 ^ 55 - 2) * x.quarter ≤ y.lowQuarters * y.quarter := by
    calc (2 ^ 55 - 2) * x.quarter = (2 ^ 54 - 1) * (2 * x.quarter) := by ring
      _ ≤ y.lowQuarters * (2 * x.quarter) :=
          mul_le_mul_of_nonneg_right lowCast (by linarith)
      _ ≤ y.lowQuarters * y.quarter :=
          mul_le_mul_of_nonneg_left quarterBound (by positivity)
  refine not_rounds_of_high_le_low ?_ ?_ xRounds yRounds
  · have highBound : (x.highQuarters : ℚ) ≤ 2 ^ 55 - 2 := by
      have bound : x.highQuarters ≤ 2 ^ 55 - 2 := by
        unfold highQuarters
        omega
      have cast : (x.highQuarters : ℚ) ≤ ((2 ^ 55 - 2 : ℕ) : ℚ) := by
        exact_mod_cast bound
      norm_num at cast ⊢
      exact cast
    exact (mul_le_mul_of_nonneg_right highBound positive.le).trans farLow
  · intro xEven _
    have highBound : (x.highQuarters : ℚ) < 2 ^ 55 - 2 := by
      have bound : x.highQuarters < 2 ^ 55 - 2 := by
        unfold highQuarters
        omega
      have cast : (x.highQuarters : ℚ) < ((2 ^ 55 - 2 : ℕ) : ℚ) := by
        exact_mod_cast bound
      norm_num at cast ⊢
      exact cast
    exact (mul_lt_mul_of_pos_right highBound positive).trans_le farLow

/-- A number rounds to one double only. -/
theorem eq_of_rounds {x y : Binary} {value : ℚ} (xCanonical : x.Canonical)
    (yCanonical : y.Canonical) (xRounds : x.Rounds value) (yRounds : y.Rounds value) :
    x = y := by
  rcases lt_trichotomy x.exponent y.exponent with less | sameExponent | greater
  · exact (not_rounds_of_exponent_lt xCanonical yCanonical less xRounds yRounds).elim
  · rcases lt_trichotomy x.mantissa y.mantissa with less | sameMantissa | greater
    · exact (not_rounds_of_mantissa_lt sameExponent less xRounds yRounds).elim
    · cases x
      cases y
      simp_all
    · exact (not_rounds_of_mantissa_lt sameExponent.symm greater yRounds xRounds).elim
  · exact (not_rounds_of_exponent_lt yCanonical xCanonical greater yRounds xRounds).elim

/-! ## The search for the shortest decimal -/

private theorem pow_toNat {base : ℚ} (nonzero : base ≠ 0) (power : ℤ) :
    base ^ power.toNat = base ^ power * base ^ (-power).toNat := by
  rw [← zpow_natCast, ← zpow_natCast, ← zpow_add₀ nonzero]
  congr 1
  omega

/-- What the numbers of a rounding interval are multiplied by in the interval of a place. -/
def factor (x : Binary) (place : Int) : ℚ :=
  10 ^ (-place) * (x.intervalAt place).denominator

theorem factor_pos (x : Binary) (place : Int) : 0 < x.factor place := by
  simp only [factor, intervalAt, Nat.pow_eq]
  positivity

private theorem quarter_mul_factor (x : Binary) (place : Int) :
    x.quarter * x.factor place =
      ((2 ^ (x.exponent - 2).toNat * 10 ^ (-place).toNat : ℕ) : ℚ) := by
  have two := pow_toNat (two_ne_zero (α := ℚ)) (x.exponent - 2)
  have ten := pow_toNat (show (10 : ℚ) ≠ 0 by norm_num) (-place)
  rw [neg_neg] at ten
  simp only [factor, intervalAt, quarter, Nat.pow_eq]
  push_cast
  rw [two, ten]
  ring

private theorem decimal_mul_factor (x : Binary) (place : Int) (n : Nat) :
    n * 10 ^ place * x.factor place = ((n * (x.intervalAt place).denominator : ℕ) : ℚ) := by
  rw [factor, zpow_neg]
  push_cast
  field_simp

private theorem quarters_mul_factor (x : Binary) (place : Int) (quarters : Nat) :
    quarters * x.quarter * x.factor place =
      ((quarters * (2 ^ (x.exponent - 2).toNat * 10 ^ (-place).toNat) : ℕ) : ℚ) := by
  rw [mul_assoc, quarter_mul_factor, ← Nat.cast_mul]

/-- The whole numbers in the interval of a place are the decimals that round to the double. -/
theorem contains_iff (x : Binary) (place : Int) (n : Nat) :
    (x.intervalAt place).contains n = true ↔ x.Rounds (n * 10 ^ place) := by
  have positive := x.factor_pos place
  have lowEq : x.lowQuarters * x.quarter * x.factor place = (x.intervalAt place).low :=
    x.quarters_mul_factor place x.lowQuarters
  have highEq : x.highQuarters * x.quarter * x.factor place = (x.intervalAt place).high :=
    x.quarters_mul_factor place x.highQuarters
  have closedEq : (x.intervalAt place).closed = decide (x.mantissa % 2 = 0) := rfl
  unfold Interval.contains Rounds
  rw [closedEq]
  by_cases even : x.mantissa % 2 = 0
  · rw [if_pos (by simpa using even), if_pos even]
    simp only [Bool.and_eq_true, decide_eq_true_eq]
    rw [← Nat.cast_le (α := ℚ), ← Nat.cast_le (α := ℚ), ← decimal_mul_factor, ← lowEq, ← highEq,
      mul_le_mul_iff_left₀ positive, mul_le_mul_iff_left₀ positive]
  · rw [if_neg (by simpa using even), if_neg even]
    simp only [Bool.and_eq_true, decide_eq_true_eq]
    rw [← Nat.cast_lt (α := ℚ), ← Nat.cast_lt (α := ℚ), ← decimal_mul_factor, ← lowEq, ← highEq,
      mul_lt_mul_iff_left₀ positive, mul_lt_mul_iff_left₀ positive]

theorem Interval.contains_of_nearest? {i : Interval} {tieUp : Bool} {n : Nat}
    (found : i.nearest? tieUp = some n) :
    i.contains n = true := by
  unfold Interval.nearest? at found
  dsimp only at found
  split at found
  · cases found
  · next below above =>
      cases found
      exact below
  · next below above =>
      cases found
      exact above
  · next below above =>
      split at found
      · cases found
        exact below
      · split at found
        · cases found
          exact above
        · cases found
          split
          · exact above
          · exact below

/-- Where the whole numbers are dense enough, the one above the value lies in the interval. -/
theorem Interval.contains_above {i : Interval} (dense : i.value + i.denominator < i.high)
    (low_le : i.low ≤ i.value) (positive : 0 < i.denominator) :
    i.contains (i.value / i.denominator + 1) = true := by
  have divided := Nat.div_add_mod i.value i.denominator
  have small := Nat.mod_lt i.value positive
  have pointEq : (i.value / i.denominator + 1) * i.denominator =
      i.denominator * (i.value / i.denominator) + i.denominator := by
    ring
  unfold Interval.contains
  split <;>
    · simp only [Bool.and_eq_true, decide_eq_true_eq]
      rw [pointEq]
      omega

theorem Interval.isSome_nearest?_of_above {i : Interval} (tieUp : Bool)
    (above : i.contains (i.value / i.denominator + 1) = true) :
    (i.nearest? tieUp).isSome = true := by
  unfold Interval.nearest?
  simp only [above]
  cases i.contains (i.value / i.denominator) with
  | false => rfl
  | true =>
      dsimp only
      split
      · rfl
      · split <;> rfl

/-- A place at which the decimals are denser than the doubles with this exponent. -/
def densePlace (exponent : Int) : Int :=
  ((exponent + 53) * 30103).fdiv 100000 - 22

/-- Checked for each of the exponents that doubles have. -/
private theorem dense_check :
    ∀ field ∈ List.range 2046,
      2 ^ (2 - ((field : Int) - 1074)).toNat * 10 ^ (densePlace (field - 1074)).toNat <
        2 * (2 ^ (field - 1074 - 2 : Int).toNat * 10 ^ (-densePlace (field - 1074)).toNat) := by
  decide +kernel

theorem isSome_nearest?_densePlace {x : Binary} (canonical : x.Canonical) (tieUp : Bool) :
    ((x.intervalAt (densePlace x.exponent)).nearest? tieUp).isSome = true := by
  obtain ⟨field, fieldEq⟩ : ∃ field : Nat, (field : Int) = x.exponent + 1074 :=
    ⟨(x.exponent + 1074).toNat, by have := canonical.least_le; omega⟩
  have inRange : field ∈ List.range 2046 := by
    have greatest := canonical.le_greatest
    rw [List.mem_range]
    omega
  have exponentEq : (field : Int) - 1074 = x.exponent := by
    omega
  have dense := dense_check field inRange
  rw [exponentEq] at dense
  apply Interval.isSome_nearest?_of_above
  apply Interval.contains_above
  · simp only [intervalAt, Nat.pow_eq, neg_sub, Nat.add_mul]
    omega
  · exact Nat.mul_le_mul_right _ (Nat.sub_le _ _)
  · simp only [intervalAt, Nat.pow_eq]
    positivity

/-- A search that passes a place with a number in the interval finds one. -/
theorem search_rounds {x : Binary} {tieUp : Bool} {good : Int}
    (isSome : ((x.intervalAt good).nearest? tieUp).isSome = true) :
    ∀ (tries : Nat) (place : Int), good ≤ place → place < good + tries →
      x.Rounds ((x.search tieUp tries place).1 * 10 ^ (x.search tieUp tries place).2) := by
  intro tries
  induction tries with
  | zero =>
      intro place below within
      omega
  | succ tries ih =>
      intro place below within
      unfold search
      cases found : (x.intervalAt place).nearest? tieUp with
      | some coefficient =>
          exact (x.contains_iff place coefficient).mp (Interval.contains_of_nearest? found)
      | none =>
          have differs : good ≠ place := by
            rintro rfl
            rw [found] at isSome
            cases isSome
          exact ih (place - 1) (by omega) (by push_cast at within; omega)

/-- The shortest decimal rounds to the double. -/
theorem shortest_rounds {x : Binary} (canonical : x.Canonical) (nonzero : 0 < x.mantissa)
    (tieUp : Bool) :
    x.Rounds ((x.shortest tieUp).1 * 10 ^ (x.shortest tieUp).2) := by
  have log_le : Nat.log2 x.mantissa ≤ 52 := by
    have bound := (Nat.log2_lt nonzero.ne').mpr canonical.mantissa_lt
    omega
  unfold shortest
  rw [if_neg nonzero.ne']
  apply search_rounds (isSome_nearest?_densePlace canonical tieUp)
  · unfold densePlace topPlace
    rw [Int.fdiv_eq_ediv_of_nonneg _ (by norm_num), Int.fdiv_eq_ediv_of_nonneg _ (by norm_num)]
    omega
  · unfold densePlace topPlace
    rw [Int.fdiv_eq_ediv_of_nonneg _ (by norm_num), Int.fdiv_eq_ediv_of_nonneg _ (by norm_num)]
    omega

/-- Zero is written in one way only. -/
theorem Canonical.eq_zero {x : Binary} (canonical : x.Canonical) (zero : x.mantissa = 0) :
    x = ⟨0, -1074⟩ := by
  have least := canonical.least_le
  have exponentEq : x.exponent = -1074 := by
    by_contra differs
    have full := canonical.full (by omega)
    omega
  rw [← zero, ← exponentEq]

theorem shortest_eq_zero_iff {x : Binary} (canonical : x.Canonical) (tieUp : Bool) :
    ((x.shortest tieUp).1 * 10 ^ (x.shortest tieUp).2 : ℚ) = 0 ↔ x.mantissa = 0 := by
  constructor
  · intro noValue
    by_contra nonzero
    have rounds := shortest_rounds canonical (Nat.pos_of_ne_zero nonzero) tieUp
    exact (rounds.pos (Nat.pos_of_ne_zero nonzero)).ne' noValue
  · intro zero
    unfold shortest
    rw [if_pos zero]
    norm_num

/-- Doubles whose shortest decimals have one value are the same. -/
theorem eq_of_shortest {x y : Binary} {tieUp : Bool} (xCanonical : x.Canonical)
    (yCanonical : y.Canonical)
    (sameValue : ((x.shortest tieUp).1 * 10 ^ (x.shortest tieUp).2 : ℚ) =
      (y.shortest tieUp).1 * 10 ^ (y.shortest tieUp).2) :
    x = y := by
  have bothZero : x.mantissa = 0 ↔ y.mantissa = 0 := by
    rw [← shortest_eq_zero_iff xCanonical tieUp, sameValue, shortest_eq_zero_iff yCanonical]
  by_cases zero : x.mantissa = 0
  · rw [xCanonical.eq_zero zero, yCanonical.eq_zero (bothZero.mp zero)]
  · have xRounds := shortest_rounds xCanonical (Nat.pos_of_ne_zero zero) tieUp
    have yRounds := shortest_rounds yCanonical
      (Nat.pos_of_ne_zero (mt bothZero.mpr zero)) tieUp
    rw [← sameValue] at yRounds
    exact eq_of_rounds xCanonical yCanonical xRounds yRounds

end FuzzyRating.Binary
