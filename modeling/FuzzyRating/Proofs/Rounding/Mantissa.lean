import FuzzyRating.Proofs.Rounding.Nearest

/-!
How unpacked doubles are rounded. A mantissa is shifted right to the place where it has 53 bits,
with two residual bits that say enough about what was shifted out, and is then rounded.
-/

namespace FuzzyRating.Rounding

open Float.Model Float.Model.UnpackedFloat

/-! ## Unpacked doubles -/

def signed (sign : Sign) (magnitude : ℚ) : ℚ :=
  match sign with
  | .negative => -magnitude
  | .positive => magnitude

/-- The number that an unpacked double stands for. Those that stand for none are given zero. -/
def value : UnpackedFloat → ℚ
  | .finite sign mantissa exponent _ => signed sign (mantissa * 2 ^ exponent)
  | _ => 0

/-- The form of finite doubles, up to the greatest exponent: a mantissa fills 53 bits unless the
exponent is the least one. -/
inductive Canonical : UnpackedFloat → Prop
  | zero {sign : Sign} : Canonical (.zero sign)
  | finite {sign : Sign} {mantissa : Nat} {exponent : Int} {positive : 0 < mantissa}
      (fits : mantissa < 2 ^ 53) (least : -1074 ≤ exponent)
      (full : -1074 < exponent → 2 ^ 52 ≤ mantissa) :
      Canonical (.finite sign mantissa exponent positive)

theorem abs_signed (sign : Sign) (magnitude : ℚ) : |signed sign magnitude| = |magnitude| := by
  cases sign with
  | negative => exact abs_neg magnitude
  | positive => rfl

theorem Nearest.signed {exact nearest : ℚ} (isNearest : Nearest exact nearest) (sign : Sign) :
    Nearest (signed sign exact) (signed sign nearest) := by
  cases sign with
  | negative => exact isNearest.neg
  | positive => exact isNearest

theorem Representable.signed {number : ℚ} (representable : Representable number) (sign : Sign) :
    Representable (signed sign number) := by
  cases sign with
  | negative => exact representable.neg
  | positive => exact representable

theorem Canonical.representable {unpacked : UnpackedFloat} (canonical : Canonical unpacked) :
    Representable (value unpacked) := by
  cases canonical with
  | zero => exact .zero
  | @finite sign mantissa exponent _ fits least _ =>
      refine Representable.signed ⟨mantissa, exponent, ?_, least, by norm_cast⟩ sign
      rw [Nat.abs_cast]
      exact_mod_cast fits

/-- An unpacked double that an exact result is rounded to. -/
structure RoundsTo (exact : ℚ) (unpacked : UnpackedFloat) : Prop where
  canonical : Canonical unpacked
  nearest : Nearest exact (value unpacked)

theorem Canonical.roundsTo {unpacked : UnpackedFloat} (canonical : Canonical unpacked) :
    RoundsTo (value unpacked) unpacked :=
  ⟨canonical, .self canonical.representable⟩

theorem roundsTo_zero (sign : Sign) : RoundsTo 0 (.zero sign) :=
  Canonical.zero.roundsTo

/-! ## Residual bits -/

/-- What a mantissa with residual bits says about a number in units of its last place. -/
def Describes (extended : ExtendedMantissa) (exact : ℚ) : Prop :=
  match extended.roundBit, extended.stickyBit with
  | false, false => exact = extended.mantissa
  | false, true => extended.mantissa < exact ∧ exact < extended.mantissa + 1 / 2
  | true, false => exact = extended.mantissa + 1 / 2
  | true, true => extended.mantissa + 1 / 2 < exact ∧ exact < extended.mantissa + 1

namespace Describes

variable {extended : ExtendedMantissa} {exact : ℚ}

theorem mantissa_le (describes : Describes extended exact) : extended.mantissa ≤ exact := by
  unfold Describes at describes
  split at describes <;> linarith

theorem lt_mantissa_add_one (describes : Describes extended exact) :
    exact < extended.mantissa + 1 := by
  unfold Describes at describes
  split at describes <;> linarith

theorem shiftRightOne (describes : Describes extended exact) :
    Describes extended.shiftRightOne (exact / 2) := by
  obtain ⟨mantissa, roundBit, stickyBit⟩ := extended
  have parts : (mantissa : ℚ) = 2 * (mantissa / 2 : ℕ) + (mantissa % 2 : ℕ) := by
    exact_mod_cast (Nat.div_add_mod mantissa 2).symm
  unfold Describes at describes ⊢
  unfold ExtendedMantissa.shiftRightOne
  rcases Nat.mod_two_eq_zero_or_one mantissa with even | odd
  · have bit : (mantissa % 2 != 0) = false := by
      rw [even]
      rfl
    rw [even] at parts
    cases roundBit <;> cases stickyBit <;> simp only [bit] at describes ⊢ <;>
      norm_num at describes parts ⊢ <;> first | linarith | constructor <;> linarith
  · have bit : (mantissa % 2 != 0) = true := by
      rw [odd]
      rfl
    rw [odd] at parts
    cases roundBit <;> cases stickyBit <;> simp only [bit] at describes ⊢ <;>
      norm_num at describes parts ⊢ <;> first | linarith | constructor <;> linarith

theorem shiftRight (describes : Describes extended exact) (count : ℕ) :
    Describes (extended >>> count) (exact / 2 ^ count) := by
  change Describes (Nat.repeat ExtendedMantissa.shiftRightOne count extended) _
  induction count with
  | zero =>
      rw [pow_zero, div_one]
      exact describes
  | succ count inductionHypothesis =>
      rw [pow_succ, ← div_div]
      exact inductionHypothesis.shiftRightOne

/-- A tie is rounded to one of the two neighbours, and either is near enough. -/
theorem abs_rounded_sub_le (describes : Describes extended exact) :
    |(extended.roundedMantissa : ℚ) - exact| ≤ 1 / 2 := by
  obtain ⟨mantissa, roundBit, stickyBit⟩ := extended
  unfold Describes at describes
  unfold ExtendedMantissa.roundedMantissa
  rw [abs_le]
  cases roundBit <;> cases stickyBit <;>
    simp only [ExtendedMantissa.accuracy, Accuracy.roundToNearestEven] at describes ⊢
  · constructor <;> linarith
  · constructor <;> linarith
  · rcases Nat.mod_two_eq_zero_or_one mantissa with even | odd
    · rw [even]
      constructor <;> push_cast <;> linarith
    · rw [odd]
      constructor <;> push_cast <;> linarith
  · constructor <;> push_cast <;> linarith

theorem ofExact (mantissa : ℕ) :
    Describes (ExtendedMantissa.ofMantissaAndAccuracy mantissa .exact) mantissa :=
  rfl

end Describes

/-! ## The two shifts -/

section

variable {mantissa : ℕ} {exponent : ℤ} {accuracy : Accuracy} {exact : ℚ}
  {sign : Sign}

theorem mantissa_ofMantissaAndAccuracy (mantissa : ℕ) (accuracy : Accuracy) :
    (ExtendedMantissa.ofMantissaAndAccuracy mantissa accuracy).mantissa = mantissa := by
  unfold ExtendedMantissa.ofMantissaAndAccuracy
  split <;> rfl

/-- The place of the last of 53 bits, but not below that of the least double. -/
def targetPlace (mantissa : ℕ) (exponent : ℤ) : ℤ :=
  max ((mantissa.log2 : ℤ) + 1 + exponent - 53) (-1074)

theorem shiftToTargetExponent_eq (mantissa : ℕ) (exponent : ℤ) (accuracy : Accuracy) :
    shiftToTargetExponent Format.binary64 mantissa exponent accuracy =
      (ExtendedMantissa.ofMantissaAndAccuracy mantissa accuracy >>>
          (targetPlace mantissa exponent - exponent).toNat,
        exponent + (targetPlace mantissa exponent - exponent).toNat) :=
  rfl

/-- Enough bits to fill the mantissa of a double, or a last place at or below that of the least
double. -/
def Ready (mantissa : ℕ) (exponent : ℤ) : Prop :=
  exponent ≤ targetPlace mantissa exponent

theorem ready_of_le (full : 2 ^ 52 ≤ mantissa) : Ready mantissa exponent := by
  have log : 52 ≤ mantissa.log2 := (Nat.le_log2 (by omega)).mpr full
  unfold Ready targetPlace
  omega

theorem ready_of_exponent_le (low : exponent ≤ -1074) : Ready mantissa exponent := by
  unfold Ready targetPlace
  omega

/-- After the first shift the last place is that of a double next to the exact result. -/
theorem describes_shifted (ready : Ready mantissa exponent)
    (describes : Describes (ExtendedMantissa.ofMantissaAndAccuracy mantissa accuracy) exact) :
    ∃ scaled : ℚ,
      Describes (shiftToTargetExponent Format.binary64 mantissa exponent accuracy).1 scaled ∧
      exact * 2 ^ exponent = scaled * 2 ^ targetPlace mantissa exponent ∧ scaled < 2 ^ 53 ∧
      (-1074 < targetPlace mantissa exponent → 2 ^ 52 ≤ scaled) := by
  obtain ⟨shift, shiftEq⟩ := Int.eq_ofNat_of_zero_le (sub_nonneg.mpr ready)
  have shiftPositive : (0 : ℚ) < 2 ^ shift := by positivity
  have lower := describes.mantissa_le
  have upper := describes.lt_mantissa_add_one
  rw [mantissa_ofMantissaAndAccuracy] at lower upper
  refine ⟨exact / 2 ^ shift, ?_, ?_, ?_, ?_⟩
  · rw [shiftToTargetExponent_eq, shiftEq]
    exact describes.shiftRight shift
  · rw [show targetPlace mantissa exponent = shift + exponent by omega, zpow_add₀ (by norm_num),
      zpow_natCast]
    field_simp
  · have enough : mantissa.log2 + 1 ≤ 53 + shift := by
      unfold targetPlace at shiftEq
      omega
    have wholeBelow : mantissa + 1 ≤ 2 ^ (53 + shift) :=
      Nat.lt_log2_self.trans_le (Nat.pow_le_pow_right Nat.two_pos enough)
    have below : (mantissa : ℚ) + 1 ≤ 2 ^ 53 * 2 ^ shift := by
      rw [← pow_add]
      exact_mod_cast wholeBelow
    rw [div_lt_iff₀ shiftPositive]
    linarith
  · intro above
    have full : mantissa.log2 = 52 + shift := by
      unfold targetPlace at shiftEq above
      omega
    have nonzero : mantissa ≠ 0 := by
      rintro rfl
      simp at full
      omega
    have wholeAbove : 2 ^ (52 + shift) ≤ mantissa := (Nat.le_log2 nonzero).mp full.ge
    have above : (2 : ℚ) ^ 52 * 2 ^ shift ≤ mantissa := by
      rw [← pow_add]
      exact_mod_cast wholeAbove
    rw [le_div_iff₀ shiftPositive]
    linarith

def assembled (sign : Sign) (mantissa : ℕ) (exponent : ℤ) : UnpackedFloat :=
  if nothing : mantissa = 0 then
    .zero sign
  else
    .finite sign mantissa exponent (Nat.pos_of_ne_zero nothing)

theorem assembled_zero (sign : Sign) (exponent : ℤ) : assembled sign 0 exponent = .zero sign :=
  rfl

theorem assembled_of_pos (positive : 0 < mantissa) :
    assembled sign mantissa exponent = .finite sign mantissa exponent positive :=
  dif_neg positive.ne'

theorem value_assembled (sign : Sign) (mantissa : ℕ) (exponent : ℤ) :
    value (assembled sign mantissa exponent) = signed sign (mantissa * 2 ^ exponent) := by
  rcases Nat.eq_zero_or_pos mantissa with rfl | positive
  · rw [assembled_zero, Nat.cast_zero, zero_mul]
    cases sign with
    | negative => exact neg_zero.symm
    | positive => rfl
  · rw [assembled_of_pos positive]
    rfl

theorem canonical_assembled (fits : mantissa < 2 ^ 53) (least : -1074 ≤ exponent)
    (full : -1074 < exponent → 2 ^ 52 ≤ mantissa) :
    Canonical (assembled sign mantissa exponent) := by
  rcases Nat.eq_zero_or_pos mantissa with rfl | positive
  · exact .zero
  · rw [assembled_of_pos positive]
    exact .finite fits least full

/-- The second shift, after the rounding. It takes back a bit that the rounding has carried into. -/
def carried (sign : Sign) (rounded : ℕ) (place : ℤ) : UnpackedFloat :=
  let shifted := shiftToTargetExponent Format.binary64 rounded place .exact
  assembled sign shifted.1.mantissa shifted.2

theorem roundWithAccuracy_eq (sign : Sign) (mantissa : ℕ) (exponent : ℤ) (accuracy : Accuracy) :
    roundWithAccuracy Format.binary64 sign mantissa exponent accuracy =
      carried sign
        (shiftToTargetExponent Format.binary64 mantissa exponent accuracy).1.roundedMantissa
        (shiftToTargetExponent Format.binary64 mantissa exponent accuracy).2 :=
  rfl

theorem canonical_carried (sign : Sign) {rounded : ℕ} {place : ℤ} (fits : rounded ≤ 2 ^ 53)
    (least : -1074 ≤ place) (full : -1074 < place → 2 ^ 52 ≤ rounded) :
    Canonical (carried sign rounded place) ∧
      value (carried sign rounded place) = signed sign (rounded * 2 ^ place) := by
  unfold carried
  rw [shiftToTargetExponent_eq]
  rcases fits.lt_or_eq with less | carries
  · have log : rounded.log2 < 53 := by
      by_cases nothing : rounded = 0
      · rw [nothing]
        decide
      · exact (Nat.log2_lt nothing).mpr less
    have stays : (targetPlace rounded place - place).toNat = 0 := by
      unfold targetPlace
      omega
    rw [stays]
    change Canonical (assembled sign rounded (place + 0)) ∧
      value (assembled sign rounded (place + 0)) = _
    rw [add_zero]
    exact ⟨canonical_assembled less least full, value_assembled sign rounded place⟩
  · subst carries
    have moves : (targetPlace (2 ^ 53) place - place).toNat = 1 := by
      unfold targetPlace
      rw [Nat.log2_two_pow]
      omega
    rw [moves]
    change Canonical (assembled sign (2 ^ 52) (place + 1)) ∧
      value (assembled sign (2 ^ 52) (place + 1)) = _
    refine ⟨canonical_assembled (by norm_num) (by omega) (fun _ => le_rfl), ?_⟩
    rw [value_assembled, zpow_add_one₀ (by norm_num)]
    congr 1
    push_cast
    ring

/-- What mantissa and accuracy describe is rounded to the nearest number. -/
theorem roundsTo_roundWithAccuracy (sign : Sign) (ready : Ready mantissa exponent)
    (describes : Describes (ExtendedMantissa.ofMantissaAndAccuracy mantissa accuracy) exact) :
    RoundsTo (signed sign (exact * 2 ^ exponent))
      (roundWithAccuracy Format.binary64 sign mantissa exponent accuracy) := by
  obtain ⟨scaled, scaledDescribes, sameNumber, below, full⟩ := describes_shifted ready describes
  have place : (shiftToTargetExponent Format.binary64 mantissa exponent accuracy).2 =
      targetPlace mantissa exponent := by
    rw [shiftToTargetExponent_eq]
    unfold Ready at ready
    dsimp only
    omega
  have least : -1074 ≤ targetPlace mantissa exponent := le_max_right _ _
  have error := scaledDescribes.abs_rounded_sub_le
  rw [roundWithAccuracy_eq, place, sameNumber]
  generalize (shiftToTargetExponent Format.binary64 mantissa exponent
    accuracy).1.roundedMantissa = rounded at error ⊢
  obtain ⟨errorBelow, errorAbove⟩ := abs_le.mp error
  have fits : rounded ≤ 2 ^ 53 := by
    have : (rounded : ℚ) < 2 ^ 53 + 1 := by linarith
    have : rounded < 2 ^ 53 + 1 := by exact_mod_cast this
    omega
  have roundedFull : -1074 < targetPlace mantissa exponent → 2 ^ 52 ≤ rounded := by
    intro above
    have : (2 ^ 52 : ℚ) < rounded + 1 := by linarith [full above]
    have : 2 ^ 52 < rounded + 1 := by exact_mod_cast this
    omega
  obtain ⟨canonical, valueEq⟩ := canonical_carried sign fits least roundedFull
  refine ⟨canonical, ?_⟩
  rw [valueEq]
  exact (Nearest.of_scaled error fits least full).signed sign

end

end FuzzyRating.Rounding
