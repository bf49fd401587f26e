import FuzzyRating.Proofs.Arith
import FuzzyRating.Proofs.Rounding.Double

/-!
Finite doubles are compared and sorted as the numbers they stand for.
-/

namespace FuzzyRating.Rounding

open Float.Model Float.Model.UnpackedFloat

/-! ## Comparison -/

section

variable {a b : UnpackedFloat} {mantissa otherMantissa : ℕ} {exponent otherExponent : ℤ}

theorem mul_two_zpow_lt (fits : mantissa < 2 ^ 53)
    (otherFull : -1074 < otherExponent → 2 ^ 52 ≤ otherMantissa) (least : -1074 ≤ exponent)
    (less : exponent < otherExponent) :
    (mantissa : ℚ) * 2 ^ exponent < otherMantissa * 2 ^ otherExponent := by
  have fitsRat : (mantissa : ℚ) < 2 ^ 53 := by
    exact_mod_cast fits
  have fullRat : (2 ^ 52 : ℚ) ≤ otherMantissa := by
    exact_mod_cast otherFull (by omega)
  exact (mul_zpow_lt_full fitsRat less).trans_le
    (mul_le_mul_of_nonneg_right fullRat (zpow_pos (by norm_num) _).le)

/-- Magnitudes are compared by their exponents first. -/
theorem compare_magnitudes (fits : mantissa < 2 ^ 53) (otherFits : otherMantissa < 2 ^ 53)
    (full : -1074 < exponent → 2 ^ 52 ≤ mantissa)
    (otherFull : -1074 < otherExponent → 2 ^ 52 ≤ otherMantissa) (least : -1074 ≤ exponent)
    (otherLeast : -1074 ≤ otherExponent) :
    (compare exponent otherExponent).then (compare mantissa otherMantissa) =
      compare ((mantissa : ℚ) * 2 ^ exponent) (otherMantissa * 2 ^ otherExponent) := by
  rcases lt_trichotomy exponent otherExponent with less | same | greater
  · rw [compare_lt_iff_lt.mpr less,
      compare_lt_iff_lt.mpr (mul_two_zpow_lt fits otherFull least less)]
    rfl
  · subst same
    have positive : (0 : ℚ) < 2 ^ exponent := zpow_pos (by norm_num) _
    rw [compare_eq_iff_eq.mpr rfl]
    rcases lt_trichotomy mantissa otherMantissa with less | same | greater
    · have lessRat : (mantissa : ℚ) < otherMantissa := by
        exact_mod_cast less
      rw [compare_lt_iff_lt.mpr less,
        compare_lt_iff_lt.mpr (mul_lt_mul_of_pos_right lessRat positive)]
      rfl
    · subst same
      rw [compare_eq_iff_eq.mpr rfl, compare_eq_iff_eq.mpr rfl]
      rfl
    · have greaterRat : (otherMantissa : ℚ) < mantissa := by
        exact_mod_cast greater
      rw [compare_gt_iff_gt.mpr greater,
        compare_gt_iff_gt.mpr (mul_lt_mul_of_pos_right greaterRat positive)]
      rfl
  · rw [compare_gt_iff_gt.mpr greater,
      compare_gt_iff_gt.mpr (mul_two_zpow_lt otherFits full otherLeast greater)]
    rfl

theorem compare_neg_neg (p q : ℚ) : compare (-p) (-q) = compare q p := by
  rcases lt_trichotomy p q with less | same | greater
  · rw [compare_gt_iff_gt.mpr less, compare_gt_iff_gt.mpr (neg_lt_neg less)]
  · rw [same, compare_eq_iff_eq.mpr rfl, compare_eq_iff_eq.mpr rfl]
  · rw [compare_lt_iff_lt.mpr greater, compare_lt_iff_lt.mpr (neg_lt_neg greater)]

theorem compare_eq (aCanonical : Canonical a) (bCanonical : Canonical b) :
    a.compare b = some (compare (value a) (value b)) := by
  have magnitudePositive {mantissa : ℕ} (exponent : ℤ) (positive : 0 < mantissa) :
      (0 : ℚ) < mantissa * 2 ^ exponent := by
    have mantissaPositive : (0 : ℚ) < mantissa := by
      exact_mod_cast positive
    positivity
  cases aCanonical with
  | zero =>
      cases bCanonical with
      | zero => exact congrArg some (compare_eq_iff_eq.mpr rfl).symm
      | @finite sign mantissa exponent positive =>
          have nonzero := magnitudePositive exponent positive
          cases sign with
          | positive => exact congrArg some (compare_lt_iff_lt.mpr nonzero).symm
          | negative => exact congrArg some (compare_gt_iff_gt.mpr (neg_neg_of_pos nonzero)).symm
  | @finite sign mantissa exponent positive fits least full =>
      have nonzero := magnitudePositive exponent positive
      cases bCanonical with
      | zero =>
          cases sign with
          | positive => exact congrArg some (compare_gt_iff_gt.mpr nonzero).symm
          | negative => exact congrArg some (compare_lt_iff_lt.mpr (neg_neg_of_pos nonzero)).symm
      | @finite otherSign _ otherExponent otherPositive otherFits otherLeast otherFull =>
          have otherNonzero := magnitudePositive otherExponent otherPositive
          have magnitudes := compare_magnitudes fits otherFits full otherFull least otherLeast
          cases sign with
          | positive =>
              cases otherSign with
              | positive => exact congrArg some magnitudes
              | negative =>
                  refine congrArg some (compare_gt_iff_gt.mpr ?_).symm
                  exact (neg_neg_of_pos otherNonzero).trans nonzero
          | negative =>
              cases otherSign with
              | positive =>
                  refine congrArg some (compare_lt_iff_lt.mpr ?_).symm
                  exact (neg_neg_of_pos nonzero).trans otherNonzero
              | negative =>
                  refine congrArg some ((congrArg Ordering.swap magnitudes).trans ?_)
                  rw [← Std.OrientedCmp.eq_swap]
                  exact (compare_neg_neg _ _).symm

end

theorem le_eq (x y : Float) :
    Arith.le x y = (x.toModel.unpack.compare y.toModel.unpack).any Ordering.isLE := by
  change decide (decide ((x.toModel.unpack.compare y.toModel.unpack).any Ordering.isLE = true) =
    true) = _
  rw [Bool.decide_eq_true, Bool.decide_eq_true]

theorem lt_eq (x y : Float) :
    Arith.lt x y = (x.toModel.unpack.compare y.toModel.unpack == some .lt) := by
  change decide (decide ((x.toModel.unpack.compare y.toModel.unpack == some .lt) = true) = true) = _
  rw [Bool.decide_eq_true, Bool.decide_eq_true]

section

variable {x y : Float} (xFinite : x.isFinite = true) (yFinite : y.isFinite = true)

include xFinite yFinite

theorem le_iff : Arith.le x y = true ↔ number x ≤ number y := by
  rw [le_eq, compare_eq (canonical_of_isFinite xFinite).1 (canonical_of_isFinite yFinite).1,
    Option.any_some, Ordering.isLE_iff_ne_gt]
  exact compare_le_iff_le

theorem lt_iff : Arith.lt x y = true ↔ number x < number y := by
  rw [lt_eq, compare_eq (canonical_of_isFinite xFinite).1 (canonical_of_isFinite yFinite).1,
    beq_iff_eq, Option.some_inj]
  exact compare_lt_iff_lt

/-- What is at or above a finite double is at or above every finite double that is not greater, even
if it is infinite. -/
theorem le_of_number_le (inOrder : number x ≤ number y) {z : Float}
    (atOrAbove : Arith.le y z = true) : Arith.le x z = true := by
  rcases isFinite_or_infinite_or_isNaN z with finite | ⟨sign, isInfinite⟩ | isNaN
  · rw [le_iff yFinite finite] at atOrAbove
    rw [le_iff xFinite finite]
    exact inOrder.trans atOrAbove
  · have xCanonical := (canonical_of_isFinite xFinite).1
    have yCanonical := (canonical_of_isFinite yFinite).1
    rw [le_eq, isInfinite] at atOrAbove ⊢
    generalize x.toModel.unpack = xUnpacked at xCanonical ⊢
    generalize y.toModel.unpack = yUnpacked at yCanonical atOrAbove
    cases sign with
    | negative => cases yCanonical <;> cases atOrAbove
    | positive => cases xCanonical <;> rfl
  · rw [le_eq, isNaN_iff_unpack.mp isNaN] at atOrAbove
    cases unpacked : y.toModel.unpack <;> rw [unpacked] at atOrAbove <;> cases atOrAbove

end

/-! ## Sorting -/

/-- The magnitude of a finite double in units of the least double. -/
def units (exponentField mantissaField : ℕ) : ℕ :=
  if exponentField = 0 then mantissaField else (2 ^ 52 + mantissaField) * 2 ^ (exponentField - 1)

theorem units_le {exponentField mantissaField otherExponent otherMantissa : ℕ}
    (fits : mantissaField < 2 ^ 52) (otherFits : otherMantissa < 2 ^ 52)
    (atMost : exponentField * 2 ^ 52 + mantissaField ≤ otherExponent * 2 ^ 52 + otherMantissa) :
    units exponentField mantissaField ≤ units otherExponent otherMantissa := by
  unfold units
  rcases Nat.lt_trichotomy exponentField otherExponent with less | same | greater
  · rw [if_neg (by omega : otherExponent ≠ 0)]
    by_cases isLeast : exponentField = 0
    · rw [if_pos isLeast]
      calc
        mantissaField ≤ 2 ^ 52 + otherMantissa := by omega
        _ ≤ (2 ^ 52 + otherMantissa) * 2 ^ (otherExponent - 1) :=
          Nat.le_mul_of_pos_right _ (Nat.two_pow_pos _)
    · rw [if_neg isLeast]
      calc
        (2 ^ 52 + mantissaField) * 2 ^ (exponentField - 1) ≤
            2 ^ 53 * 2 ^ (exponentField - 1) := Nat.mul_le_mul_right _ (by omega)
        _ = 2 ^ 52 * 2 ^ exponentField := by
          rw [← pow_add, ← pow_add]
          congr 1
          omega
        _ ≤ 2 ^ 52 * 2 ^ (otherExponent - 1) :=
          Nat.mul_le_mul_left _ (Nat.pow_le_pow_right Nat.two_pos (by omega))
        _ ≤ (2 ^ 52 + otherMantissa) * 2 ^ (otherExponent - 1) :=
          Nat.mul_le_mul_right _ (Nat.le_add_right _ _)
  · subst same
    split
    · omega
    · exact Nat.mul_le_mul_right _ (by omega)
  · omega

theorem number_eq {x : Float} (finite : x.isFinite = true) :
    number x = signed (signOf x)
      (units (Binary.exponentBits x.toBits) (Binary.mantissaBits x.toBits) * 2 ^ (-1074 : ℤ)) := by
  unfold number
  rw [unpack_toModel_eq, ofFields, if_neg (exponentBits_ne_of_isFinite finite)]
  unfold units
  split
  · rw [value_assembled]
  · next above =>
      obtain ⟨shift, shiftEq⟩ := Nat.exists_eq_add_one_of_ne_zero above
      rw [value_assembled, shiftEq, Nat.add_sub_cancel]
      rw [show ((shift + 1 : ℕ) : ℤ) - 1075 = shift + -1074 by omega, zpow_add₀ (by norm_num),
        zpow_natCast, Nat.cast_mul, Nat.cast_pow, Nat.cast_ofNat, mul_assoc]

/-- The place of a double in the total order: the bits behind the sign, mirrored by the sign. -/
theorem floatRank_eq (x : Float) :
    floatRank x = if Binary.signBit x.toBits then
      -1 - (Binary.exponentBits x.toBits * 2 ^ 52 + Binary.mantissaBits x.toBits : ℤ)
    else
      (Binary.exponentBits x.toBits * 2 ^ 52 + Binary.mantissaBits x.toBits : ℤ) := by
  have mantissaBound : Binary.mantissaBits x.toBits < 2 ^ 52 := Nat.mod_lt _ (by norm_num)
  have exponentBound : Binary.exponentBits x.toBits < 2 ^ 11 := Nat.mod_lt _ (by norm_num)
  have bits := Binary.toNat_eq_fields x.toBits
  unfold floatRank
  dsimp only
  by_cases isSet : Binary.signBit x.toBits = true
  · rw [if_pos isSet] at bits ⊢
    rw [if_neg (by omega)]
    omega
  · rw [if_neg isSet] at bits ⊢
    rw [if_pos (by omega)]
    omega

/-- Doubles in the order that curves are sorted by ascend as numbers. -/
theorem number_le_of_totalLe {x y : Float} (xFinite : x.isFinite = true)
    (yFinite : y.isFinite = true) (inOrder : Arith.totalLe x y = true) : number x ≤ number y := by
  have ranks : floatRank x ≤ floatRank y := of_decide_eq_true inOrder
  have positive : (0 : ℚ) < 2 ^ (-1074 : ℤ) := zpow_pos (by norm_num) _
  have xBound : Binary.mantissaBits x.toBits < 2 ^ 52 := Nat.mod_lt _ (by norm_num)
  have yBound : Binary.mantissaBits y.toBits < 2 ^ 52 := Nat.mod_lt _ (by norm_num)
  have magnitudeLe {exponentField mantissaField otherExponent otherMantissa : ℕ}
      (fewer : units exponentField mantissaField ≤ units otherExponent otherMantissa) :
      (units exponentField mantissaField : ℚ) * 2 ^ (-1074 : ℤ) ≤
        units otherExponent otherMantissa * 2 ^ (-1074 : ℤ) :=
    mul_le_mul_of_nonneg_right (by exact_mod_cast fewer) positive.le
  rw [floatRank_eq, floatRank_eq] at ranks
  rw [number_eq xFinite, number_eq yFinite]
  unfold signOf
  by_cases xSet : Binary.signBit x.toBits = true
  · rw [if_pos xSet] at ranks ⊢
    by_cases ySet : Binary.signBit y.toBits = true
    · rw [if_pos ySet] at ranks ⊢
      exact neg_le_neg (magnitudeLe (units_le yBound xBound (by omega)))
    · rw [if_neg ySet]
      exact (neg_nonpos.mpr (mul_nonneg (Nat.cast_nonneg _) positive.le)).trans
        (mul_nonneg (Nat.cast_nonneg _) positive.le)
  · rw [if_neg xSet] at ranks ⊢
    by_cases ySet : Binary.signBit y.toBits = true
    · rw [if_pos ySet] at ranks
      omega
    · rw [if_neg ySet] at ranks ⊢
      exact magnitudeLe (units_le xBound yBound (by omega))

/-! ## The unit interval -/

theorem within_of_unpack {x : Float} {sign : Sign} {mantissa : ℕ} {exponent : ℤ}
    {positive : 0 < mantissa} {exact : ℚ}
    (unpackEq : x.toModel.unpack = .finite sign mantissa exponent positive)
    (isExact : signed sign (mantissa * 2 ^ exponent) = exact) : Within exact exact x := by
  have isNumber : number x = exact := by
    rw [number, unpackEq]
    exact isExact
  refine ⟨?_, isNumber.ge, isNumber.le⟩
  change x.toModel.unpack.isFinite = true
  rw [unpackEq]
  rfl

theorem within_zero : Within 0 0 (Arith.zero : Float) :=
  ⟨rfl, le_rfl, le_rfl⟩

theorem within_one : Within 1 1 (Arith.one : Float) := by
  have unpackEq : (Arith.one : Float).toModel.unpack =
      .finite .positive (2 ^ 52) (-52) (by decide) := rfl
  exact within_of_unpack unpackEq (by norm_num [signed])

/-- Natural numbers of 53 bits are kept as they are. -/
theorem within_ofNat {n : ℕ} (fits : n < 2 ^ 53) : Within n n (Float.ofNat n) := by
  have isDouble : IsDouble n := by
    apply IsDouble.ofInt n (by norm_cast)
    rw [abs_of_nonneg (Int.natCast_nonneg n)]
    exact_mod_cast fits
  have sameBits : n.toUInt64.toNat = n := Nat.mod_eq_of_lt (by omega)
  have converted : Within n n n.toUInt64.toFloat := by
    have rounds := roundsTo_normalize n 0 .positive
    rw [zpow_zero, mul_one] at rounds
    refine (rounded_of_roundsTo rounds ?_).within isDouble isDouble le_rfl le_rfl
    change UnpackedFloat.unpack _ (UnpackedFloat.pack _
      (UnpackedFloat.normalize Format.binary64 n.toUInt64.toNat 0 .positive)) = _
    rw [sameBits]
  have one : Within 1 1 Float.exactlyRepresentablePowersOfTen[0] := within_one
  have product := rounded_mul converted.isFinite one.isFinite
  rw [converted.eq, one.eq, mul_one] at product
  change Within n n (Float.ofScientific n false 0)
  unfold Float.ofScientific
  rw [dif_pos ⟨fits, by decide⟩]
  exact product.within isDouble isDouble le_rfl le_rfl

theorem within_two : Within 2 2 (Arith.ofNat 2 : Float) :=
  within_ofNat (by norm_num)

theorem within_three : Within 3 3 (Arith.ofNat 3 : Float) :=
  within_ofNat (by norm_num)

theorem inUnit_iff {x : Float} (finite : x.isFinite = true) :
    Arith.inUnit x = true ↔ 0 ≤ number x ∧ number x ≤ 1 := by
  unfold Arith.inUnit
  rw [Bool.and_eq_true, le_iff within_zero.isFinite finite, le_iff finite within_one.isFinite,
    within_zero.eq, within_one.eq]

theorem Within.inUnit {x : Float} (within : Within 0 1 x) : Arith.inUnit x = true :=
  (inUnit_iff within.isFinite).mpr ⟨within.atLeast, within.atMost⟩

/-- Bounding to the unit interval takes everything there but values that are not numbers. -/
theorem within_clampUnit {x : Float} (isNumber : x.isNaN = false) :
    Within 0 1 (Arith.clampUnit x) := by
  have zeroUnit : Within 0 1 (Arith.zero : Float) := within_zero.mono le_rfl zero_le_one
  have oneUnit : Within 0 1 (Arith.one : Float) := within_one.mono zero_le_one le_rfl
  unfold Arith.clampUnit
  rcases isFinite_or_infinite_or_isNaN x with finite | ⟨sign, isInfinite⟩ | isNaN
  · by_cases negative : Arith.lt x Arith.zero = true
    · rw [if_pos negative]
      exact zeroUnit
    · rw [if_neg negative]
      rw [lt_iff finite within_zero.isFinite, within_zero.eq] at negative
      by_cases above : Arith.lt Arith.one x = true
      · rw [if_pos above]
        exact oneUnit
      · rw [if_neg above]
        rw [lt_iff within_one.isFinite finite, within_one.eq] at above
        exact ⟨finite, le_of_not_gt negative, le_of_not_gt above⟩
  · rw [lt_eq, lt_eq, isInfinite]
    cases sign with
    | negative => exact zeroUnit
    | positive => exact oneUnit
  · rw [isNaN] at isNumber
    cases isNumber

theorem clampUnit_of_isNaN {x : Float} (isNaN : x.isNaN = true) : Arith.clampUnit x = x := by
  unfold Arith.clampUnit
  rw [lt_eq, lt_eq, isNaN_iff_unpack.mp isNaN]
  rfl

end FuzzyRating.Rounding
