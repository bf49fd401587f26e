import Mathlib.Algebra.Order.Field.Power
import Mathlib.Algebra.Order.Field.Rat
import Mathlib.Algebra.Order.Round
import Mathlib.Data.Rat.Floor
import Mathlib.Tactic.Linarith
import Mathlib.Tactic.Ring

/-!
Numbers that a double can hold if its exponent has no upper bound, and the nearest of them to an
exact result. Everything here follows from nearness alone, so no rule for ties is needed.
-/

namespace FuzzyRating.Rounding

/-- A mantissa that fills its bits at a higher place outweighs all mantissas below. -/
theorem mul_zpow_lt_full {mantissa : ℚ} (fits : mantissa < 2 ^ 53) {exponent place : ℤ}
    (below : exponent < place) : mantissa * 2 ^ exponent < 2 ^ 52 * 2 ^ place :=
  calc
    mantissa * 2 ^ exponent < 2 ^ 53 * 2 ^ exponent :=
      mul_lt_mul_of_pos_right fits (zpow_pos (by norm_num) _)
    _ = 2 ^ 52 * 2 ^ (exponent + 1) := by
      rw [zpow_add_one₀ (by norm_num)]
      ring
    _ ≤ 2 ^ 52 * 2 ^ place :=
      mul_le_mul_of_nonneg_left (zpow_le_zpow_right₀ (by norm_num) below) (by norm_num)

/-- A number with at most 53 significant bits, none of them below the last place of the least
double. -/
def Representable (number : ℚ) : Prop :=
  ∃ mantissa exponent : ℤ, |mantissa| < 2 ^ 53 ∧ -1074 ≤ exponent ∧
    number = mantissa * 2 ^ exponent

namespace Representable

variable {number : ℚ}

theorem intCast {whole : ℤ} (fits : |whole| < 2 ^ 53) : Representable whole :=
  ⟨whole, 0, fits, by norm_num, by simp⟩

theorem zero : Representable 0 :=
  ⟨0, 0, by norm_num, by norm_num, by norm_num⟩

theorem one : Representable 1 :=
  ⟨1, 0, by norm_num, by norm_num, by norm_num⟩

theorem neg (representable : Representable number) : Representable (-number) := by
  obtain ⟨mantissa, exponent, fits, atLeast, rfl⟩ := representable
  refine ⟨-mantissa, exponent, ?_, atLeast, ?_⟩
  · rwa [abs_neg]
  · push_cast
    ring

theorem abs (representable : Representable number) : Representable |number| := by
  rcases abs_choice number with isSelf | isNeg
  · rwa [isSelf]
  · rw [isNeg]
    exact representable.neg

theorem two_mul (representable : Representable number) : Representable (2 * number) := by
  obtain ⟨mantissa, exponent, fits, atLeast, rfl⟩ := representable
  refine ⟨mantissa, exponent + 1, fits, by omega, ?_⟩
  rw [zpow_add_one₀ (by norm_num)]
  ring

/-- A small multiple of a power of two. The bound itself is the double of a half. -/
theorem of_mul {count exponent : ℤ} (fits : |count| ≤ 2 ^ 53) (atLeast : -1074 ≤ exponent) :
    Representable (count * 2 ^ exponent) := by
  rcases fits.lt_or_eq with less | isBound
  · exact ⟨count, exponent, less, atLeast, rfl⟩
  · have half : Representable ((2 ^ 52 : ℤ) * 2 ^ exponent) :=
      ⟨2 ^ 52, exponent, by norm_num, atLeast, rfl⟩
    rcases abs_eq (by norm_num) |>.mp isBound with isTop | isBottom
    · convert half.two_mul using 1
      rw [isTop]
      push_cast
      ring
    · convert half.two_mul.neg using 1
      rw [isBottom]
      push_cast
      ring

/-- From `2 ^ exponent` on numbers are multiples of the last place of that power. -/
theorem exists_multiple (representable : Representable number) {exponent : ℤ}
    (atLeast : (2 : ℚ) ^ exponent ≤ number) :
    ∃ count : ℤ, number = count * 2 ^ (exponent - 52) := by
  obtain ⟨mantissa, scale, fits, _, rfl⟩ := representable
  have scalePositive : (0 : ℚ) < 2 ^ scale := zpow_pos (by norm_num) _
  have belowNext : (mantissa : ℚ) * 2 ^ scale < 2 ^ (53 + scale) := by
    rw [zpow_add₀ (by norm_num)]
    have upper : (mantissa : ℚ) < 2 ^ 53 := by
      exact_mod_cast (le_abs_self mantissa).trans_lt fits
    exact mul_lt_mul_of_pos_right (by exact_mod_cast upper) scalePositive
  have less : exponent < 53 + scale :=
    (zpow_lt_zpow_iff_right₀ (by norm_num : (1 : ℚ) < 2)).mp (atLeast.trans_lt belowNext)
  obtain ⟨places, placesEq⟩ := Int.eq_ofNat_of_zero_le (by omega : 0 ≤ scale - (exponent - 52))
  refine ⟨mantissa * 2 ^ places, ?_⟩
  have scaleEq : scale = places + (exponent - 52) := by
    omega
  rw [scaleEq, zpow_add₀ (by norm_num), zpow_natCast]
  push_cast
  ring

/-- Different numbers are at least the least double apart. -/
theorem least_le_sub {lower upper : ℚ} (lowerRepresentable : Representable lower)
    (upperRepresentable : Representable upper) (less : lower < upper) :
    (2 : ℚ) ^ (-1074 : ℤ) ≤ upper - lower := by
  have wholes {number : ℚ} (representable : Representable number) :
      ∃ count : ℤ, number = count * 2 ^ (-1074 : ℤ) := by
    obtain ⟨mantissa, exponent, _, atLeast, rfl⟩ := representable
    obtain ⟨shift, shiftEq⟩ := Int.eq_ofNat_of_zero_le (by omega : 0 ≤ exponent - -1074)
    refine ⟨mantissa * 2 ^ shift, ?_⟩
    rw [show exponent = shift + -1074 by omega, zpow_add₀ (by norm_num), zpow_natCast,
      Int.cast_mul, Int.cast_pow, Int.cast_ofNat, mul_assoc]
  obtain ⟨lowerCount, rfl⟩ := wholes lowerRepresentable
  obtain ⟨upperCount, rfl⟩ := wholes upperRepresentable
  have positive : (0 : ℚ) < 2 ^ (-1074 : ℤ) := zpow_pos (by norm_num) _
  have countLess : (lowerCount : ℚ) < upperCount := lt_of_mul_lt_mul_right less positive.le
  have oneApart : (1 : ℚ) ≤ upperCount - lowerCount := by
    have lessInt : lowerCount < upperCount := by
      exact_mod_cast countLess
    exact_mod_cast (by omega : 1 ≤ upperCount - lowerCount)
  rw [← sub_mul]
  exact le_mul_of_one_le_left positive.le oneApart

end Representable

/-- No representable number is nearer to an exact result. -/
structure Nearest (exact nearest : ℚ) : Prop where
  representable : Representable nearest
  closest : ∀ other, Representable other → |nearest - exact| ≤ |other - exact|

namespace Nearest

variable {exact other nearest otherNearest bound : ℚ}

theorem self (representable : Representable exact) : Nearest exact exact :=
  ⟨representable, fun other _ => by simp⟩

theorem neg (isNearest : Nearest exact nearest) : Nearest (-exact) (-nearest) := by
  refine ⟨isNearest.representable.neg, fun other representable => ?_⟩
  calc
    |-nearest - -exact| = |nearest - exact| := by rw [neg_sub_neg, abs_sub_comm]
    _ ≤ |-other - exact| := isNearest.closest _ representable.neg
    _ = |other - -exact| := by rw [← neg_add', abs_neg, sub_neg_eq_add]

/-- Rounding does not pass a representable number. -/
theorem le_of_le (isNearest : Nearest exact nearest) (representable : Representable bound)
    (atMost : exact ≤ bound) : nearest ≤ bound := by
  by_contra above
  have above := lt_of_not_ge above
  have closer := isNearest.closest bound representable
  rw [abs_of_nonneg (by linarith), abs_of_nonneg (by linarith)] at closer
  linarith

theorem le_of_ge (isNearest : Nearest exact nearest) (representable : Representable bound)
    (atLeast : bound ≤ exact) : bound ≤ nearest := by
  have mirrored := isNearest.neg.le_of_le representable.neg (neg_le_neg atLeast)
  exact neg_le_neg_iff.mp mirrored

theorem abs_le_of_abs_le (isNearest : Nearest exact nearest) (representable : Representable bound)
    (atMost : |exact| ≤ bound) : |nearest| ≤ bound := by
  obtain ⟨lower, upper⟩ := abs_le.mp atMost
  exact abs_le.mpr
    ⟨isNearest.le_of_ge representable.neg lower, isNearest.le_of_le representable upper⟩

/-- Of two different exact results the lesser one is not rounded higher. -/
theorem mono (isNearest : Nearest exact nearest) (otherIsNearest : Nearest other otherNearest)
    (less : exact < other) : nearest ≤ otherNearest := by
  by_contra above
  have above := lt_of_not_ge above
  -- both results would lie beyond the middle, on the side of the other one's rounding
  have fromFirst := isNearest.closest _ otherIsNearest.representable
  have fromSecond := otherIsNearest.closest _ isNearest.representable
  rcases abs_cases (nearest - exact) with first | first <;>
    rcases abs_cases (otherNearest - exact) with second | second <;>
      rcases abs_cases (otherNearest - other) with third | third <;>
        rcases abs_cases (nearest - other) with fourth | fourth <;>
          linarith

/-- In the unit interval the error is at most half the last place of a half. -/
theorem abs_sub_le_of_unit (isNearest : Nearest exact nearest) (nonneg : 0 ≤ exact)
    (atMostOne : exact ≤ 1) : |nearest - exact| ≤ 2 ^ (-54 : ℤ) := by
  let count := round (exact * 2 ^ 53)
  have error : |exact * 2 ^ 53 - count| ≤ 1 / 2 := abs_sub_round _
  obtain ⟨lower, upper⟩ := abs_le.mp error
  have countFits : |count| ≤ 2 ^ 53 := by
    rw [abs_le]
    constructor
    · have : (-1 : ℚ) < count := by linarith
      have : (-1 : ℤ) < count := by exact_mod_cast this
      omega
    · have : (count : ℚ) < 2 ^ 53 + 1 := by linarith
      have : count < 2 ^ 53 + 1 := by exact_mod_cast this
      omega
  have candidate : Representable (count * 2 ^ (-53 : ℤ)) :=
    Representable.of_mul countFits (by norm_num)
  calc
    |nearest - exact| ≤ |count * 2 ^ (-53 : ℤ) - exact| := isNearest.closest _ candidate
    _ ≤ 2 ^ (-54 : ℤ) := by
      rw [abs_le]
      norm_num
      constructor <;> linarith

/-- A result so little above one that the next representable number is further away. -/
theorem le_one (isNearest : Nearest exact nearest) (near : exact ≤ 1 + 2 ^ (-54 : ℤ)) :
    nearest ≤ 1 := by
  by_contra above
  have above := lt_of_not_ge above
  have atLeast : (2 : ℚ) ^ (0 : ℤ) ≤ nearest := by
    rw [zpow_zero]
    exact above.le
  obtain ⟨count, nearestEq⟩ := isNearest.representable.exists_multiple atLeast
  have next : 1 + 2 ^ (-52 : ℤ) ≤ nearest := by
    rw [nearestEq] at above ⊢
    norm_num at above ⊢
    have : (2 ^ 52 : ℚ) < count := by linarith
    have : (2 ^ 52 : ℤ) < count := by exact_mod_cast this
    have : ((2 ^ 52 + 1 : ℤ) : ℚ) ≤ count := by exact_mod_cast this
    push_cast at this
    linarith
  have closer := isNearest.closest 1 Representable.one
  norm_num at near next
  rcases abs_cases (nearest - exact) with first | first <;>
    rcases abs_cases (1 - exact) with second | second <;> linarith

/-- No whole number is nearer than one at a distance of at most a half. -/
private theorem abs_sub_le_of_whole {scaled : ℚ} {rounded : ℕ} (whole : ℤ)
    (error : |rounded - scaled| ≤ 1 / 2) : |rounded - scaled| ≤ |whole - scaled| := by
  by_cases same : (rounded : ℤ) = whole
  · rw [← same, Int.cast_natCast]
  · have apart : (1 : ℚ) ≤ |(rounded : ℚ) - whole| := by
      exact_mod_cast Int.one_le_abs (sub_ne_zero.mpr same)
    have through : |(rounded : ℚ) - whole| ≤ |rounded - scaled| + |whole - scaled| := by
      rw [abs_sub_comm (whole : ℚ) scaled]
      exact abs_sub_le _ _ _
    linarith

/-- A number rounded to a whole number of places. The places are those of the number itself, so
what is representable with smaller places lies below. -/
theorem of_scaled {scaled : ℚ} {rounded : ℕ} {place : ℤ} (error : |rounded - scaled| ≤ 1 / 2)
    (fits : rounded ≤ 2 ^ 53) (least : -1074 ≤ place)
    (full : -1074 < place → 2 ^ 52 ≤ scaled) :
    Nearest (scaled * 2 ^ place) (rounded * 2 ^ place) := by
  have positive : (0 : ℚ) < 2 ^ place := zpow_pos (by norm_num) _
  have fromWhole (whole : ℤ) :
      |(rounded : ℚ) * 2 ^ place - scaled * 2 ^ place| ≤
        |whole * 2 ^ place - scaled * 2 ^ place| := by
    rw [← sub_mul, ← sub_mul, abs_mul, abs_mul]
    exact mul_le_mul_of_nonneg_right (abs_sub_le_of_whole whole error) (abs_nonneg _)
  constructor
  · have countFits : |(rounded : ℤ)| ≤ 2 ^ 53 := by
      rw [Nat.abs_cast]
      exact_mod_cast fits
    exact_mod_cast Representable.of_mul countFits least
  · rintro other ⟨mantissa, exponent, mantissaFits, exponentLeast, rfl⟩
    by_cases coarse : place ≤ exponent
    · obtain ⟨shift, shiftEq⟩ := Int.eq_ofNat_of_zero_le (sub_nonneg.mpr coarse)
      have isWhole : (mantissa : ℚ) * 2 ^ exponent = (mantissa * 2 ^ shift : ℤ) * 2 ^ place := by
        rw [show exponent = shift + place by omega, zpow_add₀ (by norm_num), zpow_natCast]
        push_cast
        ring
      rw [isWhole]
      exact fromWhole _
    · have atLeast := full (by omega)
      have mantissaBelow : (mantissa : ℚ) < 2 ^ 53 := by
        exact_mod_cast (le_abs_self mantissa).trans_lt mantissaFits
      have below : (mantissa : ℚ) * 2 ^ exponent < 2 ^ 52 * 2 ^ place :=
        mul_zpow_lt_full mantissaBelow (lt_of_not_ge coarse)
      have scaledBelow : (2 ^ 52 : ℚ) * 2 ^ place ≤ scaled * 2 ^ place :=
        mul_le_mul_of_nonneg_right atLeast positive.le
      refine (fromWhole (2 ^ 52)).trans ?_
      push_cast
      rw [abs_sub_comm, abs_sub_comm (_ * 2 ^ exponent), abs_of_nonneg (by linarith),
        abs_of_nonneg (by linarith)]
      linarith

end Nearest

/-! ## The greatest double -/

/-- The last place of the doubles of the greatest exponent. It is never to be computed. -/
@[irreducible]
def topPlace : ℚ :=
  2 ^ (971 : ℤ)

theorem topPlace_pos : 0 < topPlace := by
  unfold topPlace
  exact zpow_pos (by norm_num) _

/-- The greatest finite double. -/
def greatest : ℚ :=
  (2 ^ 53 - 1) * topPlace

theorem greatest_representable : Representable greatest :=
  ⟨2 ^ 53 - 1, 971, by norm_num, by norm_num, by norm_num [greatest, topPlace]⟩

theorem two_pow_le_topPlace : 2 ^ 52 ≤ topPlace := by
  unfold topPlace
  rw [← zpow_natCast]
  exact zpow_le_zpow_right₀ (by norm_num) (by norm_num)

/-- What is representable beyond the greatest double is a whole place further away. -/
theorem next_le_of_greatest_lt {number : ℚ} (representable : Representable number)
    (beyond : greatest < number) : greatest + topPlace ≤ number := by
  have positive := topPlace_pos
  have topPower : (2 : ℚ) ^ (1023 : ℤ) = 2 ^ 52 * topPlace := by
    unfold topPlace
    rw [← zpow_natCast, ← zpow_add₀ (by norm_num)]
    norm_num only
  have atLeast : (2 : ℚ) ^ (1023 : ℤ) ≤ number := by
    calc
      (2 : ℚ) ^ (1023 : ℤ) = 2 ^ 52 * topPlace := topPower
      _ ≤ greatest := mul_le_mul_of_nonneg_right (by norm_num) positive.le
      _ ≤ number := beyond.le
  obtain ⟨count, numberEq⟩ := representable.exists_multiple atLeast
  have placeEq : (2 : ℚ) ^ ((1023 : ℤ) - 52) = topPlace := by
    unfold topPlace
    norm_num only
  rw [placeEq] at numberEq
  subst numberEq
  have moreRat : (2 ^ 53 - 1 : ℚ) < count := lt_of_mul_lt_mul_right beyond positive.le
  have more : (2 ^ 53 - 1 : ℤ) < count := by
    exact_mod_cast moreRat
  have nextCount : (2 ^ 53 : ℚ) ≤ count := by
    exact_mod_cast (by omega : 2 ^ 53 ≤ count)
  calc
    greatest + topPlace = 2 ^ 53 * topPlace := by
      unfold greatest
      ring
    _ ≤ count * topPlace := mul_le_mul_of_nonneg_right nextCount positive.le

namespace Nearest

variable {number small nearest : ℚ}

/-- A summand of less than half a place does not carry a sum beyond the greatest double. -/
theorem le_greatest_of_add (isNearest : Nearest (number + small) nearest)
    (within : number ≤ greatest) (isSmall : 4 * small ≤ topPlace) : nearest ≤ greatest := by
  by_contra beyond
  have next := next_le_of_greatest_lt isNearest.representable (lt_of_not_ge beyond)
  have closer := isNearest.closest _ greatest_representable
  have positive := topPlace_pos
  rw [abs_of_nonneg (by linarith)] at closer
  rcases abs_cases (greatest - (number + small)) with second | second <;> linarith

theorem abs_le_greatest_of_add (isNearest : Nearest (number + small) nearest)
    (within : |number| ≤ greatest) (isSmall : 4 * |small| ≤ topPlace) : |nearest| ≤ greatest := by
  obtain ⟨lower, upper⟩ := abs_le.mp within
  have mirrored : Nearest (-number + -small) (-nearest) := by
    rw [← neg_add]
    exact isNearest.neg
  rw [abs_le]
  constructor
  · have smallBound : 4 * -small ≤ topPlace := by
      linarith [neg_le_abs small]
    linarith [mirrored.le_greatest_of_add (by linarith) smallBound]
  · refine isNearest.le_greatest_of_add upper ?_
    linarith [le_abs_self small]

end Nearest

end FuzzyRating.Rounding
