import FuzzyRating.Proofs.Rounding.Mantissa
import Mathlib.Tactic.FieldSimp

/-!
Sums, differences, products and quotients of unpacked doubles are the rounded exact ones.
-/

namespace FuzzyRating.Rounding

open Float.Model Float.Model.UnpackedFloat

/-! ## Signs -/

theorem cast_apply (sign : Sign) (magnitude : ℕ) :
    (sign.apply magnitude : ℚ) = signed sign magnitude := by
  cases sign with
  | negative => exact Int.cast_neg _
  | positive => rfl

theorem signed_mul (sign : Sign) (magnitude factor : ℚ) :
    signed sign magnitude * factor = signed sign (magnitude * factor) := by
  cases sign with
  | negative => exact neg_mul _ _
  | positive => rfl

theorem signed_neg (sign : Sign) (magnitude : ℚ) :
    signed (-sign) magnitude = -signed sign magnitude := by
  cases sign with
  | negative => exact (neg_neg magnitude).symm
  | positive => rfl

theorem signed_mul_signed (sign otherSign : Sign) (magnitude other : ℚ) :
    signed (sign * otherSign) (magnitude * other) =
      signed sign magnitude * signed otherSign other := by
  cases sign <;> cases otherSign
  · exact (neg_mul_neg _ _).symm
  · exact (neg_mul _ _).symm
  · exact (mul_neg _ _).symm
  · rfl

theorem signed_div_signed (sign otherSign : Sign) (magnitude other : ℚ) :
    signed (sign / otherSign) (magnitude / other) =
      signed sign magnitude / signed otherSign other := by
  cases sign <;> cases otherSign
  · exact (neg_div_neg_eq _ _).symm
  · exact (neg_div _ _).symm
  · exact (div_neg _).symm
  · rfl

/-! ## Sums -/

section

variable {mantissa : ℕ} {exponent target : ℤ}

theorem decreaseExponent_eq (mantissa : ℕ) (exponent target : ℤ) :
    decreaseExponent mantissa exponent target =
      (mantissa * 2 ^ (exponent - target).toNat, exponent - (exponent - target).toNat) := by
  unfold decreaseExponent
  simp only [Nat.shiftLeft_eq]

/-- More bits for the same number. -/
theorem decreaseExponent_mul (atMost : target ≤ exponent) :
    ((decreaseExponent mantissa exponent target).1 : ℚ) * 2 ^ target = mantissa * 2 ^ exponent := by
  obtain ⟨shift, shiftEq⟩ := Int.eq_ofNat_of_zero_le (sub_nonneg.mpr atMost)
  rw [decreaseExponent_eq, shiftEq, show exponent = shift + target by omega,
    zpow_add₀ (by norm_num), zpow_natCast]
  push_cast [Int.toNat_natCast]
  ring

theorem log2_mul_two_pow (positive : 0 < mantissa) (shift : ℕ) :
    (mantissa * 2 ^ shift).log2 = mantissa.log2 + shift := by
  have nonzero : mantissa * 2 ^ shift ≠ 0 := by positivity
  rw [Nat.log2_eq_iff nonzero, pow_add, show mantissa.log2 + shift + 1 =
    mantissa.log2 + 1 + shift by omega, pow_add]
  exact ⟨Nat.mul_le_mul_right _ (Nat.log2_self_le positive.ne'),
    Nat.mul_lt_mul_of_pos_right Nat.lt_log2_self (Nat.two_pow_pos _)⟩

theorem roundsTo_round (sign : Sign) (positive : 0 < mantissa) (exponent : ℤ) :
    RoundsTo (signed sign (mantissa * 2 ^ exponent))
      (round Format.binary64 sign mantissa exponent) := by
  change RoundsTo _ (roundWithAccuracy Format.binary64 sign
    (decreaseExponent mantissa exponent (targetPlace mantissa exponent)).1
    (decreaseExponent mantissa exponent (targetPlace mantissa exponent)).2 .exact)
  by_cases coarse : targetPlace mantissa exponent ≤ exponent
  · have place : (decreaseExponent mantissa exponent (targetPlace mantissa exponent)).2 =
        targetPlace mantissa exponent := by
      rw [decreaseExponent_eq]
      dsimp only
      omega
    rw [place, ← decreaseExponent_mul coarse]
    refine roundsTo_roundWithAccuracy sign ?_ (.ofExact _)
    -- shifting left does not move the leading bit, so the target stays
    rw [decreaseExponent_eq]
    unfold Ready targetPlace at coarse ⊢
    rw [log2_mul_two_pow positive]
    push_cast
    omega
  · have stays : (exponent - targetPlace mantissa exponent).toNat = 0 := by
      omega
    rw [decreaseExponent_eq, stays, pow_zero, mul_one, Nat.cast_zero, sub_zero]
    exact roundsTo_roundWithAccuracy sign (le_of_not_ge coarse) (.ofExact _)

theorem roundsTo_normalize (mantissa exponent : ℤ) (zeroSign : Sign) :
    RoundsTo (mantissa * 2 ^ exponent)
      (UnpackedFloat.normalize Format.binary64 mantissa exponent zeroSign) := by
  unfold UnpackedFloat.normalize
  split
  · next less =>
      have negative : mantissa < 0 := compare_lt_iff_lt.mp less
      obtain ⟨magnitude, magnitudeEq⟩ := Int.eq_ofNat_of_zero_le (neg_nonneg.mpr negative.le)
      rw [magnitudeEq, Int.toNat_natCast]
      have rounds := roundsTo_round .negative (by omega : 0 < magnitude) exponent
      have same : (mantissa : ℚ) = -magnitude := by
        exact_mod_cast (by omega : mantissa = -(magnitude : ℤ))
      rw [same, neg_mul]
      exact rounds
  · next equal =>
      have isZero : mantissa = 0 := compare_eq_iff_eq.mp equal
      rw [isZero, Int.cast_zero, zero_mul]
      exact roundsTo_zero zeroSign
  · next greater =>
      have positive : 0 < mantissa := compare_gt_iff_gt.mp greater
      obtain ⟨magnitude, rfl⟩ := Int.eq_ofNat_of_zero_le positive.le
      rw [Int.toNat_natCast]
      exact_mod_cast roundsTo_round .positive (by omega : 0 < magnitude) exponent

end

section

variable {a b : UnpackedFloat}

theorem canonical_neg (canonical : Canonical a) : Canonical a.neg := by
  cases canonical with
  | zero => exact .zero
  | finite fits least full => exact .finite fits least full

theorem value_neg (a : UnpackedFloat) : value a.neg = -value a := by
  cases a with
  | finite sign => exact signed_neg sign _
  | infinity | notANumber | zero => exact neg_zero.symm

theorem roundsTo_add (aCanonical : Canonical a) (bCanonical : Canonical b) :
    RoundsTo (value a + value b) (UnpackedFloat.add Format.binary64 a b) := by
  cases aCanonical with
  | zero =>
      cases bCanonical with
      | zero =>
          change RoundsTo (0 + 0) (UnpackedFloat.add Format.binary64 (.zero _) (.zero _))
          rw [add_zero]
          unfold UnpackedFloat.add
          dsimp only
          split <;> exact roundsTo_zero _
      | finite fits least full =>
          rw [show value (.zero _) = 0 from rfl, zero_add]
          exact (Canonical.finite fits least full).roundsTo
  | @finite sign mantissa exponent _ fits least full =>
      cases bCanonical with
      | zero =>
          rw [show value (.zero _) = 0 from rfl, add_zero]
          exact (Canonical.finite fits least full).roundsTo
      | @finite otherSign otherMantissa otherExponent =>
          have sum : value (.finite sign mantissa exponent ‹_›) +
              value (.finite otherSign otherMantissa otherExponent ‹_›) =
              (sign.apply (decreaseExponent mantissa exponent (min exponent otherExponent)).1 +
                otherSign.apply (decreaseExponent otherMantissa otherExponent
                  (min exponent otherExponent)).1 : ℤ) * 2 ^ min exponent otherExponent := by
            rw [Int.cast_add, cast_apply, cast_apply, add_mul, signed_mul, signed_mul,
              decreaseExponent_mul (min_le_left _ _), decreaseExponent_mul (min_le_right _ _)]
            rfl
          rw [sum]
          exact roundsTo_normalize _ _ _

theorem unpacked_sub_eq (a b : UnpackedFloat) :
    UnpackedFloat.sub Format.binary64 a b = UnpackedFloat.add Format.binary64 a b.neg := by
  cases a <;> cases b
  case finite.finite sign mantissa exponent _ otherSign otherMantissa otherExponent _ =>
    cases otherSign
    · change UnpackedFloat.normalize _ (_ - -_) _ _ = UnpackedFloat.normalize _ (_ + _) _ _
      rw [sub_neg_eq_add]
      rfl
    · rfl
  all_goals rfl

/-! ## Products and quotients -/

theorem ready_mul {mantissa otherMantissa : ℕ} {exponent otherExponent : ℤ}
    (positive : 0 < mantissa) (otherPositive : 0 < otherMantissa)
    (full : -1074 < exponent → 2 ^ 52 ≤ mantissa)
    (otherFull : -1074 < otherExponent → 2 ^ 52 ≤ otherMantissa) :
    Ready (mantissa * otherMantissa) (exponent + otherExponent) := by
  by_cases above : -1074 < exponent
  · exact ready_of_le ((full above).trans (Nat.le_mul_of_pos_right _ otherPositive))
  · by_cases otherAbove : -1074 < otherExponent
    · exact ready_of_le ((otherFull otherAbove).trans (Nat.le_mul_of_pos_left _ positive))
    · exact ready_of_exponent_le (by omega)

theorem roundsTo_mul (aCanonical : Canonical a) (bCanonical : Canonical b) :
    RoundsTo (value a * value b) (UnpackedFloat.mul Format.binary64 a b) := by
  cases aCanonical with
  | zero =>
      rw [show value (.zero _) = 0 from rfl, zero_mul]
      cases bCanonical <;> exact roundsTo_zero _
  | @finite sign mantissa exponent positive _ _ full =>
      cases bCanonical with
      | zero =>
          rw [show value (.zero _) = 0 from rfl, mul_zero]
          exact roundsTo_zero _
      | @finite otherSign otherMantissa otherExponent otherPositive _ _ otherFull =>
          have product : value (.finite sign mantissa exponent positive) *
              value (.finite otherSign otherMantissa otherExponent otherPositive) =
              signed (sign * otherSign)
                ((mantissa * otherMantissa : ℕ) * 2 ^ (exponent + otherExponent)) := by
            unfold value
            rw [← signed_mul_signed, zpow_add₀ (by norm_num)]
            congr 1
            push_cast
            ring
          rw [product]
          exact roundsTo_roundWithAccuracy _ (ready_mul positive otherPositive full otherFull)
            (.ofExact _)

theorem describes_fraction (whole : ℕ) {remainder divisor : ℕ} (less : remainder < divisor) :
    Describes (ExtendedMantissa.ofMantissaAndAccuracy whole (accuracyOfFraction remainder divisor))
      (whole + remainder / divisor) := by
  have divisorPositive : (0 : ℚ) < divisor := by exact_mod_cast less.pos
  unfold accuracyOfFraction
  split
  · next nothing =>
      rw [nothing]
      simp [Describes, ExtendedMantissa.ofMantissaAndAccuracy]
  · next something =>
      have fractionPositive : 0 < (remainder : ℚ) / divisor :=
        div_pos (by exact_mod_cast Nat.pos_of_ne_zero something) divisorPositive
      have fractionBelow : (remainder : ℚ) / divisor < 1 :=
        (div_lt_one divisorPositive).mpr (by exact_mod_cast less)
      cases order : compare (2 * remainder) divisor with
      | lt =>
          have below : (2 * remainder : ℚ) < divisor := by
            exact_mod_cast compare_lt_iff_lt.mp order
          have half : (remainder : ℚ) / divisor < 1 / 2 := by
            rw [div_lt_div_iff₀ divisorPositive (by norm_num)]
            linarith
          change (whole : ℚ) < whole + remainder / divisor ∧
            (whole : ℚ) + remainder / divisor < whole + 1 / 2
          constructor <;> linarith
      | eq =>
          have same : (2 * remainder : ℚ) = divisor := by
            exact_mod_cast compare_eq_iff_eq.mp order
          have half : (remainder : ℚ) / divisor = 1 / 2 := by
            rw [div_eq_div_iff divisorPositive.ne' (by norm_num)]
            linarith
          change (whole : ℚ) + remainder / divisor = whole + 1 / 2
          rw [half]
      | gt =>
          have above : (divisor : ℚ) < 2 * remainder := by
            exact_mod_cast compare_gt_iff_gt.mp order
          have half : 1 / 2 < (remainder : ℚ) / divisor := by
            rw [div_lt_div_iff₀ (by norm_num) divisorPositive]
            linarith
          change (whole : ℚ) + 1 / 2 < whole + remainder / divisor ∧
            (whole : ℚ) + remainder / divisor < whole + 1
          constructor <;> linarith

/-- Quotient and remainder describe the exact quotient. -/
theorem describes_div (dividend : ℕ) {divisor : ℕ} (positive : 0 < divisor) :
    Describes (ExtendedMantissa.ofMantissaAndAccuracy (dividend / divisor)
      (accuracyOfFraction (dividend % divisor) divisor)) (dividend / divisor) := by
  have divisorPositive : (0 : ℚ) < divisor := by exact_mod_cast positive
  have parts : (dividend : ℚ) = divisor * (dividend / divisor : ℕ) + (dividend % divisor : ℕ) := by
    exact_mod_cast (Nat.div_add_mod dividend divisor).symm
  have quotient : (dividend : ℚ) / divisor =
      (dividend / divisor : ℕ) + (dividend % divisor : ℕ) / (divisor : ℚ) := by
    rw [parts]
    field_simp
  rw [quotient]
  exact describes_fraction (dividend / divisor) (Nat.mod_lt dividend positive)

/-- The exponent that a quotient is computed with. -/
def quotientPlace (mantissa otherMantissa : ℕ) (exponent otherExponent : ℤ) : ℤ :=
  min (exponent - otherExponent)
    (max (((mantissa.log2 : ℤ) + 1 + exponent) - ((otherMantissa.log2 : ℤ) + 1 + otherExponent) -
      53) (-1074))

theorem ready_div {mantissa otherMantissa : ℕ} (positive : 0 < mantissa)
    (otherPositive : 0 < otherMantissa) (exponent otherExponent : ℤ) :
    Ready (mantissa * 2 ^ (exponent - otherExponent -
        quotientPlace mantissa otherMantissa exponent otherExponent).toNat / otherMantissa)
      (quotientPlace mantissa otherMantissa exponent otherExponent) := by
  by_cases low : quotientPlace mantissa otherMantissa exponent otherExponent ≤ -1074
  · exact ready_of_exponent_le low
  · apply ready_of_le
    rw [Nat.le_div_iff_mul_le otherPositive]
    have enough : 53 + otherMantissa.log2 ≤ mantissa.log2 + (exponent - otherExponent -
        quotientPlace mantissa otherMantissa exponent otherExponent).toNat := by
      unfold quotientPlace at low ⊢
      omega
    calc
      2 ^ 52 * otherMantissa ≤ 2 ^ 52 * 2 ^ (otherMantissa.log2 + 1) :=
        Nat.mul_le_mul_left _ Nat.lt_log2_self.le
      _ = 2 ^ (53 + otherMantissa.log2) := by
        rw [← pow_add]
        congr 1
        omega
      _ ≤ 2 ^ (mantissa.log2 + (exponent - otherExponent -
          quotientPlace mantissa otherMantissa exponent otherExponent).toNat) :=
        Nat.pow_le_pow_right Nat.two_pos enough
      _ ≤ mantissa * 2 ^ (exponent - otherExponent -
          quotientPlace mantissa otherMantissa exponent otherExponent).toNat := by
        rw [pow_add]
        exact Nat.mul_le_mul_right _ (Nat.log2_self_le positive.ne')

theorem divCore_eq (mantissa otherMantissa : ℕ) (exponent otherExponent : ℤ) :
    divCore Format.binary64 mantissa exponent otherMantissa otherExponent =
      let dividend := mantissa * 2 ^ (exponent - otherExponent -
        quotientPlace mantissa otherMantissa exponent otherExponent).toNat
      (dividend / otherMantissa, quotientPlace mantissa otherMantissa exponent otherExponent,
        accuracyOfFraction (dividend % otherMantissa) otherMantissa) := by
  unfold divCore
  simp only [Nat.shiftLeft_eq]
  rfl

/-- The exact quotient of two magnitudes, at the place that it is computed with. -/
theorem magnitude_div_eq (mantissa : ℕ) {otherMantissa : ℕ} (otherPositive : 0 < otherMantissa)
    (exponent otherExponent : ℤ) :
    (mantissa * 2 ^ exponent) / (otherMantissa * 2 ^ otherExponent) =
      ((mantissa * 2 ^ (exponent - otherExponent -
          quotientPlace mantissa otherMantissa exponent otherExponent).toNat : ℕ) : ℚ) /
        otherMantissa * 2 ^ quotientPlace mantissa otherMantissa exponent otherExponent := by
  have atMost : quotientPlace mantissa otherMantissa exponent otherExponent ≤
      exponent - otherExponent := min_le_left _ _
  obtain ⟨shift, shiftEq⟩ := Int.eq_ofNat_of_zero_le (sub_nonneg.mpr atMost)
  have split : exponent = shift +
      quotientPlace mantissa otherMantissa exponent otherExponent + otherExponent := by
    omega
  have otherPower : (2 : ℚ) ^ otherExponent ≠ 0 := zpow_ne_zero _ (by norm_num)
  have otherNonzero : (otherMantissa : ℚ) ≠ 0 := by
    exact_mod_cast otherPositive.ne'
  rw [shiftEq, Int.toNat_natCast, split, zpow_add₀ (by norm_num), zpow_add₀ (by norm_num),
    zpow_natCast, ← split]
  push_cast
  field_simp

theorem roundsTo_div (aCanonical : Canonical a) (bCanonical : Canonical b)
    (nonzero : value b ≠ 0) :
    RoundsTo (value a / value b) (UnpackedFloat.div Format.binary64 a b) := by
  cases bCanonical with
  | zero => exact absurd rfl nonzero
  | @finite otherSign otherMantissa otherExponent otherPositive =>
      cases aCanonical with
      | zero =>
          rw [show value (.zero _) = 0 from rfl, zero_div]
          exact roundsTo_zero _
      | @finite sign mantissa exponent positive =>
          have rounds := roundsTo_roundWithAccuracy (sign / otherSign)
            (ready_div positive otherPositive exponent otherExponent)
            (describes_div _ otherPositive)
          change RoundsTo _ (roundWithAccuracy Format.binary64 _
            (divCore Format.binary64 mantissa exponent otherMantissa otherExponent).1
            (divCore Format.binary64 mantissa exponent otherMantissa otherExponent).2.1
            (divCore Format.binary64 mantissa exponent otherMantissa otherExponent).2.2)
          rw [divCore_eq]
          convert rounds using 1
          unfold value
          rw [← signed_div_signed, magnitude_div_eq mantissa otherPositive]

end

end FuzzyRating.Rounding
