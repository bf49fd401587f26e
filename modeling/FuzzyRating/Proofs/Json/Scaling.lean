import FuzzyRating.Json.Scan
import FuzzyRating.Proofs.Rounding.Order

/-!
Numbers made from a coefficient and a power of ten. They are finite, however many roundings lie
between their digits and them, and short numbers take one rounding only.
-/

namespace FuzzyRating.Json

open Rounding Float.Model Float.Model.UnpackedFloat

variable {value result : Float} {exponent : Nat}

/-! ## Powers of ten -/

/-- Powers of ten are doubles as long as the powers of five have 53 bits. -/
theorem within_powerOfTen (short : exponent ≤ 22) :
    Within (10 ^ exponent) (10 ^ exponent) (powerOfTen exponent) := by
  have checked : ∀ exponent < 23, (powerOfTen exponent).isFinite = true ∧
      Binary.signBit (powerOfTen exponent).toBits = false ∧
      units (Binary.exponentBits (powerOfTen exponent).toBits)
        (Binary.mantissaBits (powerOfTen exponent).toBits) = 10 ^ exponent * 2 ^ 1074 := by
    decide +kernel
  obtain ⟨isFinite, unsigned, unitsEq⟩ := checked exponent (Nat.lt_succ_of_le short)
  have numberEq : number (powerOfTen exponent) = 10 ^ exponent := by
    rw [number_eq isFinite, unitsEq, signOf, unsigned, Nat.cast_mul, Nat.cast_pow, Nat.cast_pow,
      Nat.cast_ofNat, Nat.cast_ofNat, mul_assoc, zpow_neg, zpow_ofNat,
      mul_inv_cancel₀ (by positivity), mul_one]
    rfl
  exact ⟨isFinite, numberEq.ge, numberEq.le⟩

/-- All powers of ten within the range of doubles are rounded to the nearest double. -/
theorem rounded_powerOfTen (upTo : exponent ≤ greatestPower) :
    Rounded (10 ^ exponent) (powerOfTen exponent) := by
  by_cases short : exponent ≤ 22
  · have power := within_powerOfTen short
    have representable := (isDouble_number power.isFinite).representable
    apply Rounded.finite power.isFinite
    rw [power.eq] at representable ⊢
    exact Nearest.self representable
  · have inRange : ¬ (exponent : ℤ) > 2 ^ Format.binary64.exponentBits := by
      have width : (2 : ℤ) ^ Format.binary64.exponentBits = 2048 := rfl
      unfold greatestPower at upTo
      omega
    have notSmall : ¬ (exponent : ℤ) <
        -(2 ^ Format.binary64.exponentBits + (Nat.log2 1 : ℤ)) := by
      have width : (2 : ℤ) ^ Format.binary64.exponentBits = 2048 := rfl
      omega
    have unpackEq : (powerOfTen exponent).toModel.unpack =
        UnpackedFloat.unpack Format.binary64 (UnpackedFloat.pack Format.binary64
          (roundWithAccuracy Format.binary64 .positive (2 ^ 53 * 10 ^ exponent) (-53) .exact)) := by
      unfold powerOfTen Float.ofScientific
      rw [dif_neg fun both => short both.2]
      change UnpackedFloat.unpack _ (UnpackedFloat.pack _
        (UnpackedFloat.ofScientific Format.binary64 1 exponent)) = _
      unfold UnpackedFloat.ofScientific
      rw [dif_neg one_ne_zero, if_neg inRange, if_neg notSmall, if_pos (Int.natCast_nonneg _)]
      rfl
    refine rounded_of_roundsTo ?_ unpackEq
    have exactEq : (10 : ℚ) ^ exponent =
        Rounding.signed .positive ((2 ^ 53 * 10 ^ exponent : ℕ) * 2 ^ (-53 : ℤ)) := by
      push_cast
      rw [Rounding.signed, mul_right_comm]
      norm_num
    rw [exactEq]
    apply roundsTo_roundWithAccuracy .positive _ (.ofExact _)
    apply ready_of_le
    have positive : 0 < 10 ^ exponent := by positivity
    omega

theorem ten_pow_le_greatest (upTo : exponent ≤ greatestPower) : (10 : ℚ) ^ exponent ≤ greatest := by
  have atMost : 10 ^ exponent ≤ 9007199254740991 * 2 ^ 971 :=
    calc
      10 ^ exponent ≤ 10 ^ greatestPower := Nat.pow_le_pow_right (by decide) upTo
      _ ≤ 9007199254740991 * 2 ^ 971 := by decide +kernel
  have atMostRat : (10 : ℚ) ^ exponent ≤ 9007199254740991 * 2 ^ 971 := by
    exact_mod_cast atMost
  have mantissa : (2 : ℚ) ^ 53 - 1 = 9007199254740991 := by norm_num
  rw [greatest, topPlace, mantissa, zpow_ofNat]
  exact atMostRat

/-- No power of ten among the doubles is below one. -/
theorem powerOfTen_atLeast (upTo : exponent ≤ greatestPower) :
    Within 1 greatest (powerOfTen exponent) := by
  have atLeast : (1 : ℚ) ≤ 10 ^ exponent := one_le_pow₀ (by norm_num)
  have atMost := ten_pow_le_greatest upTo
  exact (rounded_powerOfTen upTo).within .one greatest_isDouble atLeast atMost

/-! ## Results are finite -/

/-- Dividing by a power of ten does not lead away from zero. -/
theorem isFinite_div_powerOfTen (finite : value.isFinite = true)
    (upTo : exponent ≤ greatestPower) : (value / powerOfTen exponent).isFinite = true := by
  have power := powerOfTen_atLeast upTo
  have positive : 0 < number (powerOfTen exponent) := one_pos.trans_le power.atLeast
  have rounded := rounded_div finite power.isFinite positive.ne'
  have isDouble := (isDouble_number finite).abs
  have nearer : |number value / number (powerOfTen exponent)| ≤ |number value| := by
    rw [abs_div, abs_of_pos positive]
    exact div_le_self (abs_nonneg _) power.atLeast
  obtain ⟨above, below⟩ := abs_le.mp nearer
  exact (rounded.within isDouble.neg isDouble above below).isFinite

theorem isFinite_scaleDown {steps : Nat} (finite : value.isFinite = true)
    (enough : exponent ≤ (steps + 1) * greatestPower) :
    (scaleDown steps value exponent).isFinite = true := by
  induction steps generalizing value exponent with
  | zero => exact isFinite_div_powerOfTen finite (by omega)
  | succ steps inductionHypothesis =>
      rw [scaleDown]
      by_cases upTo : exponent ≤ greatestPower
      · rw [if_pos upTo]
        exact isFinite_div_powerOfTen finite upTo
      · rw [if_neg upTo]
        by_cases isZero : (value == 0) = true
        · rw [if_pos isZero]
          exact finite
        · rw [if_neg isZero]
          apply inductionHypothesis
          · exact isFinite_div_powerOfTen finite (Nat.le_refl _)
          · rw [Nat.add_mul] at enough
            omega

theorem isFinite_scaleUp (finite : value.isFinite = true)
    (scaled : scaleUp? value exponent = some result) : result.isFinite = true := by
  unfold scaleUp? at scaled
  by_cases upTo : exponent ≤ greatestPower
  · rw [if_pos upTo] at scaled
    dsimp only at scaled
    by_cases isInfinite : (value * powerOfTen exponent).isInf = true
    · rw [if_pos isInfinite] at scaled
      cases scaled
    · rw [if_neg isInfinite] at scaled
      cases scaled
      cases rounded_mul finite (powerOfTen_atLeast upTo).isFinite with
      | finite isFinite => exact isFinite
      | infinite unpackEq =>
          -- an infinite product would have been refused
          apply absurd _ isInfinite
          change (value * powerOfTen exponent).toModel.unpack.isInf = true
          rw [unpackEq]
          rfl
  · rw [if_neg upTo] at scaled
    by_cases isZero : (value == 0) = true
    · rw [if_pos isZero] at scaled
      cases scaled
      exact finite
    · rw [if_neg isZero] at scaled
      cases scaled

/-- Whatever is read of a coefficient and an exponent is finite. -/
theorem isFinite_scale {exponent : Int} (finite : value.isFinite = true)
    (scaled : scale? value exponent = some result) : result.isFinite = true := by
  cases exponent with
  | ofNat exponent => exact isFinite_scaleUp finite scaled
  | negSucc less =>
      cases scaled
      apply isFinite_scaleDown finite
      have split := Nat.div_add_mod (less + 1) greatestPower
      have remainder := Nat.mod_lt (less + 1) (show 0 < greatestPower by decide)
      rw [Nat.add_mul, Nat.mul_comm]
      omega

/-! ## Short numbers -/

theorem isInf_of_isFinite (finite : value.isFinite = true) : value.isInf = false := by
  change value.toModel.unpack.isFinite = true at finite
  change value.toModel.unpack.isInf = false
  cases unpackEq : value.toModel.unpack with
  | infinity =>
      rw [unpackEq] at finite
      cases finite
  | notANumber | zero | finite => rfl

section

variable {coefficient : ℕ} (fits : coefficient < 2 ^ 53) (short : exponent ≤ 22)

include fits short

/-- At most 22 zeros behind a coefficient of 53 bits leave the nearest double. -/
theorem scaleUp_nearest : ∃ value, scaleUp? (Float.ofNat coefficient) exponent = some value ∧
    Rounded (coefficient * 10 ^ exponent) value := by
  have whole := within_ofNat fits
  have power := within_powerOfTen short
  have rounded := rounded_mul whole.isFinite power.isFinite
  rw [whole.eq, power.eq] at rounded
  have atMost : (coefficient : ℚ) * 10 ^ exponent ≤ greatest :=
    calc
      (coefficient : ℚ) * 10 ^ exponent ≤ 10 ^ 16 * 10 ^ exponent := by
        have digits : coefficient ≤ 10 ^ 16 := by omega
        have digitsRat : (coefficient : ℚ) ≤ 10 ^ 16 := by
          exact_mod_cast digits
        exact mul_le_mul_of_nonneg_right digitsRat (by positivity)
      _ = 10 ^ (16 + exponent) := (pow_add 10 16 exponent).symm
      _ ≤ greatest := ten_pow_le_greatest (by unfold greatestPower; omega)
  have product := rounded.within .zero greatest_isDouble (by positivity) atMost
  have upTo : exponent ≤ greatestPower := Nat.le_trans short (by decide)
  have notInfinite := isInf_of_isFinite product.isFinite
  refine ⟨Float.ofNat coefficient * powerOfTen exponent, ?_, rounded⟩
  unfold scaleUp?
  rw [if_pos upTo]
  dsimp only
  rw [notInfinite]
  rfl

/-- At most 22 places behind the point of a coefficient of 53 bits leave the nearest double. -/
theorem scaleDown_nearest (steps : Nat) :
    Rounded (coefficient / 10 ^ exponent) (scaleDown steps (Float.ofNat coefficient) exponent) := by
  have whole := within_ofNat fits
  have power := within_powerOfTen short
  have nonzero : number (powerOfTen exponent) ≠ 0 := by
    rw [power.eq]
    positivity
  have rounded := rounded_div whole.isFinite power.isFinite nonzero
  rw [whole.eq, power.eq] at rounded
  cases steps with
  | zero => exact rounded
  | succ steps =>
      rw [scaleDown, if_pos (Nat.le_trans short (by decide))]
      exact rounded

end

/-- A coefficient of 53 bits with at most 22 places, in front of the point or behind it, is read as
the nearest double. -/
theorem scale_nearest {coefficient : ℕ} {exponent : ℤ} (fits : coefficient < 2 ^ 53)
    (short : exponent.natAbs ≤ 22) :
    ∃ value, scale? (Float.ofNat coefficient) exponent = some value ∧
      Rounded (coefficient * 10 ^ exponent) value := by
  cases exponent with
  | ofNat exponent =>
      rw [Int.ofNat_eq_natCast, zpow_natCast]
      exact scaleUp_nearest fits short
  | negSucc less =>
      refine ⟨_, rfl, ?_⟩
      rw [zpow_negSucc, ← div_eq_mul_inv]
      exact scaleDown_nearest fits short _

/-- Longer numbers take several roundings, which need not lead to the nearest double. -/
example : (scale? (Float.ofNat 31245270191439438) (-15)).map Float.toBits ≠
    some (Float.ofScientific 31245270191439438 true 15).toBits := by
  decide +kernel

end FuzzyRating.Json
