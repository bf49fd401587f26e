import FuzzyRating.Decimal.Basic
import Mathlib.Algebra.Group.Nat.Defs

/-!
Whole numbers of at most 64 bits have finite doubles. Doubles are packed from a mantissa and an
exponent, and only exponents above 971 are packed as infinite, so it is enough to keep track of
rough bounds.
-/

namespace FuzzyRating.Whole

open Float.Model Float.Model.UnpackedFloat

/-- Zero, or finite with a mantissa below `2 ^ bits` and an exponent of at most `bound`. -/
inductive Small (bits : Nat) (bound : Int) : UnpackedFloat → Prop
  | zero {sign : Sign} : Small bits bound (.zero sign)
  | finite {sign : Sign} {mantissa : Nat} {exponent : Int} {positive : 0 < mantissa}
      (fits : mantissa < 2 ^ bits) (upTo : exponent ≤ bound) :
      Small bits bound (.finite sign mantissa exponent positive)

section

variable {bits otherBits mantissa : Nat} {bound otherBound exponent : Int} {accuracy : Accuracy}
  {sign : Sign} {value other : UnpackedFloat}

theorem Small.isFinite (small : Small bits bound value) : value.isFinite = true := by
  cases small <;> rfl

theorem Small.neg (small : Small bits bound value) : Small bits bound value.neg := by
  cases small with
  | zero => exact .zero
  | finite fits upTo => exact .finite fits upTo

theorem Small.mono (small : Small bits bound value) (moreBits : bits ≤ otherBits)
    (higher : bound ≤ otherBound) : Small otherBits otherBound value := by
  cases small with
  | zero => exact .zero
  | finite fits upTo =>
      exact .finite (Nat.lt_of_lt_of_le fits (Nat.pow_le_pow_right Nat.two_pos moreBits))
        (Int.le_trans upTo higher)

/-! ## Rounding -/

theorem mantissa_shiftRight_le (extended : ExtendedMantissa) (count : Nat) :
    (extended >>> count).mantissa ≤ extended.mantissa := by
  change (Nat.repeat ExtendedMantissa.shiftRightOne count extended).mantissa ≤ _
  induction count with
  | zero => exact Nat.le_refl _
  | succ count inductionHypothesis =>
      exact Nat.le_trans (Nat.div_le_self _ 2) inductionHypothesis

theorem roundedMantissa_le (extended : ExtendedMantissa) :
    extended.roundedMantissa ≤ extended.mantissa + 1 := by
  unfold ExtendedMantissa.roundedMantissa Accuracy.roundToNearestEven
  split <;> omega

theorem mantissa_shiftToTargetExponent_le (mantissa : Nat) (exponent : Int) (accuracy : Accuracy) :
    (shiftToTargetExponent Format.binary64 mantissa exponent accuracy).1.mantissa ≤ mantissa := by
  have start : (ExtendedMantissa.ofMantissaAndAccuracy mantissa accuracy).mantissa = mantissa := by
    unfold ExtendedMantissa.ofMantissaAndAccuracy
    split <;> rfl
  exact Nat.le_trans (mantissa_shiftRight_le _ _) (Nat.le_of_eq start)

theorem exponent_shiftToTargetExponent_le (accuracy : Accuracy) (fits : mantissa < 2 ^ bits)
    (upTo : exponent ≤ bound) (room : -1074 ≤ bound) :
    (shiftToTargetExponent Format.binary64 mantissa exponent accuracy).2 ≤ bound + bits := by
  have logBound : mantissa.log2 ≤ bits := by
    by_cases zero : mantissa = 0
    · subst zero
      exact Nat.zero_le _
    · exact Nat.le_of_lt ((Nat.log2_lt zero).mpr fits)
  have result : (shiftToTargetExponent Format.binary64 mantissa exponent accuracy).2 =
      exponent + ((max (((mantissa.log2 : Int) + 1 + exponent) - 53) (-1074)) - exponent).toNat := rfl
  rw [result]
  omega

theorem small_roundWithAccuracy (fits : mantissa < 2 ^ bits) (upTo : exponent ≤ bound)
    (room : -1074 ≤ bound) :
    Small (bits + 1) (bound + bits + (bits + 1 : Nat))
      (roundWithAccuracy Format.binary64 sign mantissa exponent accuracy) := by
  have firstMantissa : (shiftToTargetExponent Format.binary64 mantissa exponent accuracy).1.mantissa ≤
      mantissa := mantissa_shiftToTargetExponent_le mantissa exponent accuracy
  have firstExponent := exponent_shiftToTargetExponent_le accuracy fits upTo room
  unfold roundWithAccuracy
  generalize shiftToTargetExponent Format.binary64 mantissa exponent accuracy = first
    at firstMantissa firstExponent
  have rounded := roundedMantissa_le first.1
  have roundedFits : first.1.roundedMantissa < 2 ^ (bits + 1) := by
    rw [Nat.pow_succ]
    omega
  have secondMantissa :=
    mantissa_shiftToTargetExponent_le first.1.roundedMantissa first.2 .exact
  have secondExponent := exponent_shiftToTargetExponent_le .exact roundedFits firstExponent
    (by omega)
  dsimp only
  by_cases nothing : (shiftToTargetExponent Format.binary64 first.1.roundedMantissa first.2
      .exact).1.mantissa = 0
  · rw [dif_pos nothing]
    exact .zero
  · rw [dif_neg nothing]
    exact .finite (Nat.lt_of_le_of_lt secondMantissa roundedFits) secondExponent

theorem small_mul (small : Small bits bound value) (otherSmall : Small otherBits otherBound other)
    (room : -1074 ≤ bound + otherBound) :
    Small (bits + otherBits + 1)
      (bound + otherBound + (bits + otherBits : Nat) + (bits + otherBits + 1 : Nat))
      (UnpackedFloat.mul Format.binary64 value other) := by
  cases small with
  | zero => cases otherSmall <;> exact .zero
  | finite fits upTo =>
      cases otherSmall with
      | zero => exact .zero
      | finite otherFits otherUpTo =>
          refine small_roundWithAccuracy ?_ (Int.add_le_add upTo otherUpTo) room
          rw [Nat.pow_add]
          exact Nat.mul_lt_mul'' fits otherFits

/-! ## Packing -/

/-- Unpacking gives 53 bits, and an exponent that is read off. -/
theorem small_unpack {packed : BitVec Format.binary64.numBits}
    (notAll : unpackExponent packed ≠ -BitVec.ofNat Format.binary64.exponentBits 1)
    (room : -1074 ≤ bound) (upTo : ((unpackExponent packed).toNat : Int) - 1075 ≤ bound) :
    Small 53 bound (UnpackedFloat.unpack Format.binary64 packed) := by
  unfold UnpackedFloat.unpack
  dsimp only
  rw [if_neg notAll]
  by_cases subnormal : unpackExponent packed = 0#11
  · rw [if_pos subnormal]
    by_cases nothing : unpackMantissa packed = 0#52
    · rw [dif_pos nothing]
      exact .zero
    · rw [dif_neg nothing]
      have fits : (unpackMantissa packed).toNat < 2 ^ 52 := (unpackMantissa packed).isLt
      refine .finite (by omega) ?_
      rw [subnormal]
      exact room
  · rw [if_neg subnormal]
    exact .finite (BitVec.isLt _) upTo

/-- What is packed from parts gives back the exponent it was packed with. -/
theorem small_packComponents {packedExponent : BitVec Format.binary64.exponentBits}
    {packedMantissa : BitVec Format.binary64.mantissaBitsWithoutImplicit}
    (notAll : packedExponent ≠ -BitVec.ofNat Format.binary64.exponentBits 1) (room : -1074 ≤ bound)
    (upTo : (packedExponent.toNat : Int) - 1075 ≤ bound) :
    Small 53 bound (UnpackedFloat.unpack Format.binary64
      (packComponents Format.binary64 sign packedExponent packedMantissa)) := by
  apply small_unpack
  · rwa [unpackExponent_packComponents]
  · exact room
  · rwa [unpackExponent_packComponents]

theorem small_unpack_pack (small : Small bits bound value) (low : -1074 ≤ bound)
    (high : bound ≤ 971) :
    Small 53 bound
      (UnpackedFloat.unpack Format.binary64 (UnpackedFloat.pack Format.binary64 value)) := by
  have zeroUpTo : ((0 : BitVec Format.binary64.exponentBits).toNat : Int) - 1075 ≤ bound := by
    change (0 : Int) - 1075 ≤ bound
    omega
  cases small with
  | zero => exact small_packComponents (by decide) low zeroUpTo
  | @finite sign mantissa exponent positive _ upTo =>
      have biased : exponent + (Format.binary64.exponentBias : Int) +
          (Format.binary64.mantissaBitsWithoutImplicit : Int) = exponent + 1075 := by
        have bias : (Format.binary64.exponentBias : Int) = 1023 := rfl
        have width : (Format.binary64.mantissaBitsWithoutImplicit : Int) = 52 := rfl
        omega
      unfold UnpackedFloat.pack
      dsimp only
      rw [biased]
      have notTooHigh : ¬ 2 ^ Format.binary64.exponentBits ≤ (exponent + 1075).toNat + 1 := by
        have width : 2 ^ Format.binary64.exponentBits = 2048 := rfl
        omega
      rw [if_neg notTooHigh]
      split
      · have fits : (BitVec.ofNat Format.binary64.exponentBits (exponent + 1075).toNat).toNat =
            (exponent + 1075).toNat := by
          apply Nat.mod_eq_of_lt
          change _ < 2048
          omega
        apply small_packComponents
        · intro all
          rw [all] at fits
          change 2047 = _ at fits
          omega
        · exact low
        · rw [fits]
          omega
      · exact small_packComponents (by decide) low zeroUpTo

/-! ## Whole numbers -/

theorem small_ofNat {n : Nat} (fits : n < 2 ^ 64) :
    Small 65 129 (UnpackedFloat.ofNat Format.binary64 n) := by
  by_cases zero : n = 0
  · subst zero
    exact .zero
  have positive : compare (n : Int) 0 = .gt := by
    change compareOfLessAndEq (n : Int) 0 = .gt
    unfold compareOfLessAndEq
    rw [if_neg (by omega), if_neg (by omega)]
  have rounds : UnpackedFloat.ofNat Format.binary64 n =
      UnpackedFloat.round Format.binary64 .positive n 0 := by
    unfold UnpackedFloat.ofNat UnpackedFloat.ofInt UnpackedFloat.normalize
    rw [positive]
    rfl
  rw [rounds]
  unfold UnpackedFloat.round decreaseExponent
  dsimp only
  have upTo : (0 : Int) -
      ((0 - Format.binary64.targetExponent (totalExponent n 0)).toNat : Int) ≤ 0 := by
    omega
  refine small_roundWithAccuracy ?_ upTo (by decide)
  have target : Format.binary64.targetExponent (totalExponent n 0) =
      max ((n.log2 : Int) + 1 + 0 - 53) (-1074) := rfl
  have belowNext : n < 2 ^ (n.log2 + 1) := Nat.lt_log2_self
  rw [target, Nat.shiftLeft_eq]
  by_cases wide : 52 ≤ n.log2
  · have none : (0 - max ((n.log2 : Int) + 1 + 0 - 53) (-1074)).toNat = 0 := by omega
    rw [none, Nat.pow_zero, Nat.mul_one]
    exact fits
  · have some : (0 - max ((n.log2 : Int) + 1 + 0 - 53) (-1074)).toNat = 52 - n.log2 := by omega
    have width : 2 ^ (n.log2 + 1) * 2 ^ (52 - n.log2) = 2 ^ 53 := by
      rw [← Nat.pow_add]
      congr 1
      omega
    rw [some]
    calc
      n * 2 ^ (52 - n.log2) < 2 ^ (n.log2 + 1) * 2 ^ (52 - n.log2) :=
        Nat.mul_lt_mul_of_pos_right belowNext (Nat.two_pow_pos _)
      _ = 2 ^ 53 := width
      _ < 2 ^ 64 := by decide

theorem small_ofScientific {n : Nat} (fits : n < 2 ^ 64) :
    Small 119 301 (UnpackedFloat.ofScientific Format.binary64 n 0) := by
  unfold UnpackedFloat.ofScientific
  by_cases nothing : n = 0
  · rw [dif_pos nothing]
    exact .zero
  · rw [dif_neg nothing]
    have notHigh : ¬ (0 : Int) > 2 ^ Format.binary64.exponentBits := by decide
    have notLow : ¬ (0 : Int) < -(2 ^ Format.binary64.exponentBits + (n.log2 : Int)) := by
      have : (0 : Int) < 2 ^ Format.binary64.exponentBits := by decide
      omega
    rw [if_neg notHigh, if_neg notLow, if_pos (Int.le_refl 0)]
    have shifted : n <<< Format.binary64.mantissaBits < 2 ^ 117 := by
      rw [Nat.shiftLeft_eq]
      change n * 2 ^ 53 < 2 ^ 117
      omega
    have lowest : -(Format.binary64.mantissaBits : Int) ≤ -53 := by decide
    have one : 10 ^ (0 : Int).toNat < 2 ^ 1 := by decide
    refine (small_mul (.finite shifted lowest) (.finite one (Int.le_refl 0)) ?_).mono ?_ ?_
    · decide
    · decide
    · decide

theorem isFinite_ofNat {n : Nat} (fits : n < 2 ^ 64) : (Float.ofNat n).isFinite = true := by
  change (Float.ofScientific n false 0).isFinite = true
  unfold Float.ofScientific
  split
  · have whole : Small 53 129 (n.toUInt64.toFloat.toModel.unpack) :=
      small_unpack_pack (small_ofNat n.toUInt64.toNat_lt) (by decide) (by decide)
    have one : Small 53 (-52) Float.exactlyRepresentablePowersOfTen[0].toModel.unpack := by
      have unpackEq : Float.exactlyRepresentablePowersOfTen[0].toModel.unpack =
          .finite .positive (2 ^ 52) (-52) (by decide) := rfl
      rw [unpackEq]
      exact .finite (by decide) (Int.le_refl _)
    exact (small_unpack_pack (small_mul whole one (by decide)) (by decide) (by decide)).isFinite
  · exact (small_unpack_pack (small_ofScientific fits) (by decide) (by decide)).isFinite

theorem small_of_isFinite {x : Float} (finite : x.isFinite = true) :
    Small 53 971 x.toModel.unpack := by
  have notAll : @unpackExponent Format.binary64 x.toModel.toBits.toBitVec ≠ -1#_ := by
    intro allSet
    have notFinite : (UnpackedFloat.unpack Format.binary64
        x.toModel.toBits.toBitVec).isFinite = false := by
      unfold UnpackedFloat.unpack
      dsimp only
      rw [if_pos allSet]
      split <;> rfl
    exact Bool.false_ne_true (notFinite.symm.trans finite)
  have notTop : (@unpackExponent Format.binary64 x.toModel.toBits.toBitVec).toNat ≠ 2047 :=
    fun top => notAll (BitVec.eq_of_toNat_eq top)
  have below := (@unpackExponent Format.binary64 x.toModel.toBits.toBitVec).isLt
  change _ < 2048 at below
  exact small_unpack notAll (by decide) (by omega)

theorem isFinite_neg {x : Float} (finite : x.isFinite = true) : (-x).isFinite = true :=
  (small_unpack_pack (small_of_isFinite finite).neg (by decide) (by decide)).isFinite

end

end FuzzyRating.Whole
