import FuzzyRating.Proofs.Decimal.Bits
import FuzzyRating.Proofs.Rounding.Packing

/-!
The operations on doubles: the exact ones with a rounding behind them, where infinities stand for
what is rounded beyond the greatest double.
-/

namespace FuzzyRating.Rounding

open Float.Model Float.Model.UnpackedFloat

variable {x y z : Float} {exact bound lower upper : ℚ} {sign : Sign}

/-! ## Finite doubles -/

/-- The number that a finite double stands for. -/
def number (x : Float) : ℚ :=
  value x.toModel.unpack

/-- A finite double that stands for a number between two bounds. -/
structure Within (lower upper : ℚ) (x : Float) : Prop where
  isFinite : x.isFinite = true
  atLeast : lower ≤ number x
  atMost : number x ≤ upper

theorem Within.mono {lower upper otherLower otherUpper : ℚ} (within : Within lower upper x)
    (lowerLe : otherLower ≤ lower) (leUpper : upper ≤ otherUpper) :
    Within otherLower otherUpper x :=
  ⟨within.isFinite, lowerLe.trans within.atLeast, within.atMost.trans leUpper⟩

theorem Within.eq (within : Within exact exact x) : number x = exact :=
  within.atMost.antisymm within.atLeast

/-- A number that a finite double stands for. -/
structure IsDouble (number : ℚ) : Prop where
  representable : Representable number
  within : |number| ≤ greatest

theorem IsDouble.neg (isDouble : IsDouble exact) : IsDouble (-exact) :=
  ⟨isDouble.representable.neg, by
    rw [abs_neg]
    exact isDouble.within⟩

theorem IsDouble.abs (isDouble : IsDouble exact) : IsDouble |exact| :=
  ⟨isDouble.representable.abs, by
    rw [abs_abs]
    exact isDouble.within⟩

/-- Whole numbers of 53 bits are doubles. -/
theorem IsDouble.ofInt (whole : ℤ) (isWhole : exact = whole) (fits : |whole| < 2 ^ 53) :
    IsDouble exact := by
  rw [isWhole]
  refine ⟨.intCast fits, ?_⟩
  have fitsRat : |(whole : ℚ)| < 2 ^ 53 := by
    exact_mod_cast fits
  unfold greatest
  linarith [two_pow_le_topPlace]

theorem IsDouble.zero : IsDouble 0 :=
  .ofInt 0 (by norm_num) (by norm_num)

theorem IsDouble.one : IsDouble 1 :=
  .ofInt 1 (by norm_num) (by norm_num)

theorem greatest_isDouble : IsDouble greatest := by
  have nonneg : 0 ≤ greatest := by
    unfold greatest
    linarith [topPlace_pos]
  exact ⟨greatest_representable, (abs_of_nonneg nonneg).le⟩

/-- A mantissa of 53 bits at an exponent that fits. -/
theorem abs_value_le {mantissa : ℕ} {exponent : ℤ} (fits : mantissa < 2 ^ 53)
    (within : exponent ≤ 971) :
    |signed sign ((mantissa : ℚ) * 2 ^ exponent)| ≤ greatest := by
  have power : (2 : ℚ) ^ exponent ≤ topPlace := by
    unfold topPlace
    exact zpow_le_zpow_right₀ (by norm_num) within
  have powerPositive : (0 : ℚ) < 2 ^ exponent := zpow_pos (by norm_num) _
  have mantissaBound : (mantissa : ℚ) ≤ 2 ^ 53 - 1 := by
    have next : (mantissa : ℚ) + 1 ≤ 2 ^ 53 := by
      exact_mod_cast fits
    linarith
  rw [abs_signed, abs_of_nonneg (by positivity), greatest]
  exact mul_le_mul mantissaBound power powerPositive.le (by norm_num)

/-- The sign of a double, by its bit. -/
def signOf (x : Float) : Sign :=
  if Binary.signBit x.toBits then .negative else .positive

theorem unpack_toModel_eq (x : Float) :
    x.toModel.unpack = ofFields (signOf x) (Binary.exponentBits x.toBits)
      (Binary.mantissaBits x.toBits) := by
  refine (unpack_eq x.toModel.toBits.toBitVec).trans ?_
  have exponentField : (@unpackExponent Format.binary64 x.toModel.toBits.toBitVec).toNat =
      Binary.exponentBits x.toBits := by
    change (x.toBits.toNat >>> 52) % 2 ^ 11 = _
    rw [Nat.shiftRight_eq_div_pow]
    rfl
  have mantissaField : (@unpackMantissa Format.binary64 x.toModel.toBits.toBitVec).toNat =
      Binary.mantissaBits x.toBits := by
    change (x.toBits.toNat >>> 0) % 2 ^ 52 = _
    rfl
  have signField : Sign.ofBitVec (@unpackSign Format.binary64 x.toModel.toBits.toBitVec) =
      signOf x := by
    have bit : (@unpackSign Format.binary64 x.toModel.toBits.toBitVec).toNat =
        x.toBits.toNat / 2 ^ 63 % 2 := by
      change (x.toBits.toNat >>> 63) % 2 ^ 1 = _
      rw [Nat.shiftRight_eq_div_pow]
    have isSet : Binary.signBit x.toBits = true ↔ x.toBits.toNat / 2 ^ 63 % 2 = 1 :=
      decide_eq_true_iff
    unfold signOf Sign.ofBitVec
    by_cases clear : @unpackSign Format.binary64 x.toModel.toBits.toBitVec = 0#1
    · rw [clear] at bit
      change 0 = _ at bit
      rw [if_pos clear, if_neg (mt isSet.mp (by omega))]
    · have notZero := clear ∘ BitVec.eq_of_toNat_eq
      rw [bit] at notZero
      change ¬ x.toBits.toNat / 2 ^ 63 % 2 = 0 at notZero
      rw [if_neg clear, if_pos (isSet.mpr (by omega))]
  rw [exponentField, mantissaField, signField]

theorem canonical_of_isFinite (finite : x.isFinite = true) :
    Canonical x.toModel.unpack ∧ |number x| ≤ greatest := by
  have exponentBound : Binary.exponentBits x.toBits < 2 ^ 11 := Nat.mod_lt _ (by norm_num)
  have mantissaBound : Binary.mantissaBits x.toBits < 2 ^ 52 := Nat.mod_lt _ (by norm_num)
  unfold number
  rw [unpack_toModel_eq, ofFields, if_neg (exponentBits_ne_of_isFinite finite)]
  by_cases isLeast : Binary.exponentBits x.toBits = 0
  · rw [if_pos isLeast, value_assembled]
    exact ⟨canonical_assembled (by omega) le_rfl (by omega),
      abs_value_le (by omega) (by norm_num)⟩
  · have notTop := exponentBits_ne_of_isFinite finite
    rw [if_neg isLeast, value_assembled]
    exact ⟨canonical_assembled (by omega) (by omega) (by omega),
      abs_value_le (by omega) (by omega)⟩

theorem isDouble_number (finite : x.isFinite = true) : IsDouble (number x) :=
  ⟨(canonical_of_isFinite finite).1.representable, (canonical_of_isFinite finite).2⟩

/-! ## Rounded results -/

theorem isNaN_of_infinite (isInfinite : x.toModel.unpack = .infinity sign) : x.isNaN = false := by
  change x.toModel.unpack.isNaN = false
  rw [isInfinite]
  rfl

/-- A double that an exact result is rounded to: the nearest number, or an infinity if that lies
beyond the greatest double. -/
inductive Rounded (exact : ℚ) (x : Float) : Prop
  | finite (isFinite : x.isFinite = true) (isNearest : Nearest exact (number x))
  | infinite {sign : Sign} {nearest : ℚ} (isInfinite : x.toModel.unpack = .infinity sign)
      (isNearest : Nearest exact nearest) (beyond : greatest < signed sign nearest)

theorem signed_signed (sign : Sign) (magnitude : ℚ) :
    signed sign (signed sign magnitude) = magnitude := by
  cases sign with
  | negative => exact neg_neg magnitude
  | positive => rfl

theorem le_abs_signed (sign : Sign) (magnitude : ℚ) : signed sign magnitude ≤ |magnitude| := by
  rw [← abs_signed sign]
  exact le_abs_self _

theorem rounded_of_roundsTo {unpacked : UnpackedFloat} (rounds : RoundsTo exact unpacked)
    (packed : x.toModel.unpack =
      UnpackedFloat.unpack Format.binary64 (UnpackedFloat.pack Format.binary64 unpacked)) :
    Rounded exact x := by
  obtain ⟨canonical, nearest⟩ := rounds
  have keptIsRounded (kept : x.toModel.unpack = unpacked) : Rounded exact x := by
    refine .finite ?_ ?_
    · change x.toModel.unpack.isFinite = true
      rw [kept]
      cases canonical <;> rfl
    · rwa [number, kept]
  cases unpacked with
  | infinity => cases canonical
  | notANumber => cases canonical
  | zero sign => exact keptIsRounded (packed.trans unpack_packedZero)
  | finite sign mantissa exponent positive =>
      by_cases within : exponent ≤ 971
      · exact keptIsRounded (packed.trans (unpack_pack_of_le canonical within))
      · refine .infinite (packed.trans (unpack_pack_of_gt (lt_of_not_ge within))) nearest ?_
        obtain _ | ⟨_, _, full⟩ := canonical
        have mantissaBound : (2 : ℚ) ^ 52 ≤ mantissa := by
          exact_mod_cast full (by omega)
        have power : 2 * topPlace ≤ 2 ^ exponent := by
          have next : 2 * topPlace = 2 ^ (972 : ℤ) := by
            unfold topPlace
            rw [← zpow_one_add₀ (by norm_num)]
            norm_num only
          rw [next]
          exact zpow_le_zpow_right₀ (by norm_num) (by omega)
        unfold value
        rw [signed_signed]
        calc
          greatest < 2 ^ 52 * (2 * topPlace) := by
            unfold greatest
            linarith [topPlace_pos]
          _ ≤ mantissa * 2 ^ exponent :=
            mul_le_mul mantissaBound power (by linarith [topPlace_pos]) (by positivity)

namespace Rounded

theorem isNearest_of_isFinite (rounded : Rounded exact x) (finite : x.isFinite = true) :
    Nearest exact (number x) := by
  cases rounded with
  | finite _ isNearest => exact isNearest
  | infinite isInfinite =>
      change x.toModel.unpack.isFinite = true at finite
      rw [isInfinite] at finite
      cases finite

/-- A result whose nearest number is not beyond the greatest double is finite. -/
theorem isFinite_of_nearest (rounded : Rounded exact x)
    (within : ∀ nearest, Nearest exact nearest → |nearest| ≤ greatest) : x.isFinite = true := by
  cases rounded with
  | finite isFinite => exact isFinite
  | infinite _ isNearest beyond =>
      exact absurd (le_abs_signed _ _) (not_le.mpr ((within _ isNearest).trans_lt beyond))

/-- A result between two doubles is rounded to a double between them. -/
theorem within (rounded : Rounded exact x) (lowerIsDouble : IsDouble lower)
    (upperIsDouble : IsDouble upper) (atLeast : lower ≤ exact) (atMost : exact ≤ upper) :
    Within lower upper x := by
  have finite : x.isFinite = true := by
    refine rounded.isFinite_of_nearest fun nearest isNearest => abs_le.mpr ⟨?_, ?_⟩
    · have nearestAtLeast := isNearest.le_of_ge lowerIsDouble.representable atLeast
      linarith [(abs_le.mp lowerIsDouble.within).1]
    · have nearestAtMost := isNearest.le_of_le upperIsDouble.representable atMost
      linarith [(abs_le.mp upperIsDouble.within).2]
  have isNearest := rounded.isNearest_of_isFinite finite
  exact ⟨finite, isNearest.le_of_ge lowerIsDouble.representable atLeast,
    isNearest.le_of_le upperIsDouble.representable atMost⟩

theorem not_isNaN (rounded : Rounded exact x) : x.isNaN = false := by
  cases rounded with
  | finite isFinite => exact isNaN_of_isFinite isFinite
  | infinite isInfinite => exact isNaN_of_infinite isInfinite

end Rounded

/-! ## Operations -/

theorem unpack_add (x y : Float) :
    (x + y).toModel.unpack = UnpackedFloat.unpack Format.binary64 (UnpackedFloat.pack
      Format.binary64 (UnpackedFloat.add Format.binary64 x.toModel.unpack y.toModel.unpack)) :=
  rfl

theorem unpack_sub (x y : Float) :
    (x - y).toModel.unpack = UnpackedFloat.unpack Format.binary64 (UnpackedFloat.pack
      Format.binary64 (UnpackedFloat.sub Format.binary64 x.toModel.unpack y.toModel.unpack)) :=
  rfl

theorem unpack_mul (x y : Float) :
    (x * y).toModel.unpack = UnpackedFloat.unpack Format.binary64 (UnpackedFloat.pack
      Format.binary64 (UnpackedFloat.mul Format.binary64 x.toModel.unpack y.toModel.unpack)) :=
  rfl

theorem unpack_div (x y : Float) :
    (x / y).toModel.unpack = UnpackedFloat.unpack Format.binary64 (UnpackedFloat.pack
      Format.binary64 (UnpackedFloat.div Format.binary64 x.toModel.unpack y.toModel.unpack)) :=
  rfl

theorem unpack_neg (x : Float) :
    (-x).toModel.unpack = UnpackedFloat.unpack Format.binary64
      (UnpackedFloat.pack Format.binary64 x.toModel.unpack.neg) :=
  rfl

section Finite

variable (xFinite : x.isFinite = true) (yFinite : y.isFinite = true)

include xFinite yFinite

theorem rounded_add : Rounded (number x + number y) (x + y) :=
  rounded_of_roundsTo
    (roundsTo_add (canonical_of_isFinite xFinite).1 (canonical_of_isFinite yFinite).1)
    (unpack_add x y)

theorem rounded_sub : Rounded (number x - number y) (x - y) := by
  refine rounded_of_roundsTo ?_ (unpack_sub x y)
  rw [unpacked_sub_eq, sub_eq_add_neg, number, number, ← value_neg]
  exact roundsTo_add (canonical_of_isFinite xFinite).1
    (canonical_neg (canonical_of_isFinite yFinite).1)

theorem rounded_mul : Rounded (number x * number y) (x * y) :=
  rounded_of_roundsTo
    (roundsTo_mul (canonical_of_isFinite xFinite).1 (canonical_of_isFinite yFinite).1)
    (unpack_mul x y)

theorem rounded_div (nonzero : number y ≠ 0) : Rounded (number x / number y) (x / y) :=
  rounded_of_roundsTo
    (roundsTo_div (canonical_of_isFinite xFinite).1 (canonical_of_isFinite yFinite).1 nonzero)
    (unpack_div x y)

end Finite

namespace Within

theorem neg (within : Within lower upper x) : Within (-upper) (-lower) (-x) := by
  have canonical := canonical_neg (canonical_of_isFinite within.isFinite).1
  have rounded := rounded_of_roundsTo canonical.roundsTo (unpack_neg x)
  have isDouble := (isDouble_number within.isFinite).neg
  rw [value_neg] at rounded
  exact (rounded.within isDouble isDouble le_rfl le_rfl).mono (neg_le_neg within.atMost)
    (neg_le_neg within.atLeast)

/-- A factor between zero and one keeps every bound that is a double. -/
theorem mul_unit (within : Within (-bound) bound x) (unit : Within 0 1 y)
    (isDouble : IsDouble bound) : Within (-bound) bound (x * y) := by
  have magnitude : |number x| ≤ bound := abs_le.mpr ⟨within.atLeast, within.atMost⟩
  have unitMagnitude : |number y| ≤ 1 := by
    rw [abs_of_nonneg unit.atLeast]
    exact unit.atMost
  have product : |number x * number y| ≤ bound := by
    rw [abs_mul]
    exact (mul_le_of_le_one_right (abs_nonneg _) unitMagnitude).trans magnitude
  obtain ⟨atLeast, atMost⟩ := abs_le.mp product
  exact (rounded_mul within.isFinite unit.isFinite).within isDouble.neg isDouble atLeast atMost

end Within

/-! ## Infinities and values that are not numbers -/

theorem isNaN_iff_unpack : x.isNaN = true ↔ x.toModel.unpack = .notANumber :=
  UnpackedFloat.isNaN_iff

theorem isNaN_add_left (isNaN : x.isNaN = true) (y : Float) : (x + y).isNaN = true := by
  rw [isNaN_iff_unpack] at isNaN ⊢
  rw [unpack_add, isNaN]
  exact unpack_packedNaN

theorem isNaN_add_right (x : Float) (isNaN : y.isNaN = true) : (x + y).isNaN = true := by
  rw [isNaN_iff_unpack] at isNaN ⊢
  rw [unpack_add, isNaN]
  cases x.toModel.unpack <;> exact unpack_packedNaN

theorem isNaN_sub_right (x : Float) (isNaN : y.isNaN = true) : (x - y).isNaN = true := by
  rw [isNaN_iff_unpack] at isNaN ⊢
  rw [unpack_sub, isNaN]
  cases x.toModel.unpack <;> exact unpack_packedNaN

theorem isNaN_mul_left (isNaN : x.isNaN = true) (y : Float) : (x * y).isNaN = true := by
  rw [isNaN_iff_unpack] at isNaN ⊢
  rw [unpack_mul, isNaN]
  exact unpack_packedNaN

theorem isNaN_mul_right (x : Float) (isNaN : y.isNaN = true) : (x * y).isNaN = true := by
  rw [isNaN_iff_unpack] at isNaN ⊢
  rw [unpack_mul, isNaN]
  cases x.toModel.unpack <;> exact unpack_packedNaN

/-- A finite double that stands for zero is one of the two zeros. -/
theorem unpack_of_zero (isZero : Within 0 0 x) : ∃ sign, x.toModel.unpack = .zero sign := by
  have canonical := (canonical_of_isFinite isZero.isFinite).1
  have isZero := isZero.eq
  unfold number at isZero
  cases unpacked : x.toModel.unpack with
  | zero sign => exact ⟨sign, rfl⟩
  | infinity | notANumber =>
      rw [unpacked] at canonical
      cases canonical
  | finite sign mantissa exponent positive =>
      rw [unpacked] at isZero
      have mantissaPositive : (0 : ℚ) < mantissa := by exact_mod_cast positive
      have nonzero : 0 < |signed sign ((mantissa : ℚ) * 2 ^ exponent)| := by
        rw [abs_signed]
        positivity
      exact absurd isZero (abs_pos.mp nonzero)

theorem zero_of_div_infinite (finite : x.isFinite = true)
    (isInfinite : y.toModel.unpack = .infinity sign) : Within 0 0 (x / y) := by
  have canonical := (canonical_of_isFinite finite).1
  have isZero : ∃ zeroSign, (x / y).toModel.unpack = .zero zeroSign := by
    rw [unpack_div, isInfinite]
    generalize x.toModel.unpack = unpacked at canonical
    cases canonical with
    | zero => exact ⟨_, unpack_packedZero⟩
    | finite => exact ⟨_, unpack_packedZero⟩
  obtain ⟨zeroSign, isZero⟩ := isZero
  refine ⟨?_, ?_, ?_⟩
  · change (x / y).toModel.unpack.isFinite = true
    rw [isZero]
    rfl
  · rw [number, isZero]
    exact le_rfl
  · rw [number, isZero]
    exact le_rfl

theorem isNaN_infinite_div_infinite {otherSign : Sign}
    (xInfinite : x.toModel.unpack = .infinity sign)
    (yInfinite : y.toModel.unpack = .infinity otherSign) : (x / y).isNaN = true := by
  rw [isNaN_iff_unpack, unpack_div, xInfinite, yInfinite]
  exact unpack_packedNaN

theorem isNaN_zero_mul_infinite (isZero : Within 0 0 x)
    (isInfinite : y.toModel.unpack = .infinity sign) : (x * y).isNaN = true := by
  obtain ⟨zeroSign, unpackEq⟩ := unpack_of_zero isZero
  rw [isNaN_iff_unpack, unpack_mul, unpackEq, isInfinite]
  exact unpack_packedNaN

/-- Every double is finite, an infinity or not a number. -/
theorem isFinite_or_infinite_or_isNaN (x : Float) :
    x.isFinite = true ∨ (∃ sign, x.toModel.unpack = .infinity sign) ∨ x.isNaN = true := by
  change x.toModel.unpack.isFinite = true ∨ _ ∨ x.toModel.unpack.isNaN = true
  cases x.toModel.unpack with
  | infinity sign => exact Or.inr (Or.inl ⟨sign, rfl⟩)
  | notANumber => exact Or.inr (Or.inr rfl)
  | zero | finite => exact Or.inl rfl

theorem infinite_add_isFinite (isInfinite : x.toModel.unpack = .infinity sign)
    (finite : y.isFinite = true) : (x + y).toModel.unpack = .infinity sign := by
  have canonical := (canonical_of_isFinite finite).1
  rw [unpack_add, isInfinite]
  generalize y.toModel.unpack = unpacked at canonical
  cases canonical <;> exact unpack_pack_infinity sign

theorem isFinite_add_infinite (finite : x.isFinite = true)
    (isInfinite : y.toModel.unpack = .infinity sign) :
    (x + y).toModel.unpack = .infinity sign := by
  have canonical := (canonical_of_isFinite finite).1
  rw [unpack_add, isInfinite]
  generalize x.toModel.unpack = unpacked at canonical
  cases canonical <;> exact unpack_pack_infinity sign

/-- A finite summand neither makes a sum a value that is not a number nor keeps it from being
one. -/
theorem isNaN_isFinite_add (finite : x.isFinite = true) (y : Float) : (x + y).isNaN = y.isNaN := by
  rcases isFinite_or_infinite_or_isNaN y with yFinite | ⟨sign, yInfinite⟩ | yNaN
  · rw [(rounded_add finite yFinite).not_isNaN, isNaN_of_isFinite yFinite]
  · rw [isNaN_of_infinite (isFinite_add_infinite finite yInfinite), isNaN_of_infinite yInfinite]
  · rw [isNaN_add_right x yNaN, yNaN]

/-! ## Summands that do not matter -/

/-- Two doubles that are finite or the same infinity, or neither of them a number. -/
inductive Alike (x y : Float) : Prop
  | finite (xFinite : x.isFinite = true) (yFinite : y.isFinite = true)
  | same (sameUnpacked : x.toModel.unpack = y.toModel.unpack)

namespace Alike

theorem trans (first : Alike x y) (second : Alike y z) : Alike x z := by
  have isFiniteEq {a b : Float} (same : a.toModel.unpack = b.toModel.unpack) :
      a.isFinite = b.isFinite := congrArg UnpackedFloat.isFinite same
  cases first with
  | finite xFinite yFinite =>
      cases second with
      | finite _ zFinite => exact .finite xFinite zFinite
      | same same => exact .finite xFinite ((isFiniteEq same).symm.trans yFinite)
  | same same =>
      cases second with
      | finite yFinite zFinite => exact .finite ((isFiniteEq same).trans yFinite) zFinite
      | same again => exact .same (same.trans again)

theorem isNaN_add (alike : Alike x y) (z : Float) : (x + z).isNaN = (y + z).isNaN := by
  cases alike with
  | finite xFinite yFinite => rw [isNaN_isFinite_add xFinite, isNaN_isFinite_add yFinite]
  | same same =>
      change (x + z).toModel.unpack.isNaN = (y + z).toModel.unpack.isNaN
      rw [unpack_add, unpack_add, same]

end Alike

section Small

variable (finite : x.isFinite = true) (isSmall : 4 * |number x| ≤ topPlace)

include finite isSmall

/-- A small summand does not carry a finite double to an infinity. -/
theorem alike_small_add (y : Float) : Alike (x + y) y := by
  rcases isFinite_or_infinite_or_isNaN y with yFinite | ⟨sign, yInfinite⟩ | yNaN
  · refine .finite ((rounded_add finite yFinite).isFinite_of_nearest ?_) yFinite
    intro nearest isNearest
    rw [add_comm] at isNearest
    exact isNearest.abs_le_greatest_of_add (isDouble_number yFinite).within isSmall
  · exact .same ((isFinite_add_infinite finite yInfinite).trans yInfinite.symm)
  · exact .same ((isNaN_iff_unpack.mp (isNaN_add_right x yNaN)).trans (isNaN_iff_unpack.mp yNaN).symm)

theorem alike_add_small (y : Float) : Alike (y + x) y := by
  rcases isFinite_or_infinite_or_isNaN y with yFinite | ⟨sign, yInfinite⟩ | yNaN
  · refine .finite ((rounded_add yFinite finite).isFinite_of_nearest ?_) yFinite
    intro nearest isNearest
    exact isNearest.abs_le_greatest_of_add (isDouble_number yFinite).within isSmall
  · exact .same ((infinite_add_isFinite yInfinite finite).trans yInfinite.symm)
  · exact .same ((isNaN_iff_unpack.mp (isNaN_add_left yNaN x)).trans (isNaN_iff_unpack.mp yNaN).symm)

end Small

end FuzzyRating.Rounding
