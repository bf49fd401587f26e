import FuzzyRating.Proofs.Curve.Segment

/-!
Cubics of doubles. Between heights in the unit interval only the slopes at the ends of a segment can
make a cubic a value that is not a number, and only if something in their computation is infinite.
-/

namespace FuzzyRating.Curve

open Float.Model Float.Model.UnpackedFloat Rounding

section

variable {num : Type} [Arith num]

/-- What the slopes at the ends of a segment contribute to its cubic. -/
def slopePart (lower upper : Point num) (slope₀ slope₁ x : num) : num :=
  let two : num := Arith.ofNat 2
  let h := upper.x - lower.x
  let t := (x - lower.x) / h
  let t2 := t * t
  let t3 := t2 * t
  (t3 - two * t2 + t) * h * slope₀ + (t3 - t2) * h * slope₁

end

/-! ## The weights of the heights -/

section Weights

variable {t y : Float} (unit : Within 0 1 t) (height : Within 0 1 y)

include unit

theorem square_within : Within 0 (number t) (t * t) :=
  (rounded_mul unit.isFinite unit.isFinite).within .zero (isDouble_number unit.isFinite)
    (mul_nonneg unit.atLeast unit.atLeast) (mul_le_of_le_one_right unit.atLeast unit.atMost)

theorem cube_within : Within 0 (number (t * t)) (t * t * t) := by
  have square := square_within unit
  exact (rounded_mul square.isFinite unit.isFinite).within .zero (isDouble_number square.isFinite)
    (mul_nonneg square.atLeast unit.atLeast) (mul_le_of_le_one_right square.atLeast unit.atMost)

theorem square_unit : Within 0 1 (t * t) :=
  (square_within unit).mono le_rfl unit.atMost

theorem cube_unit : Within 0 1 (t * t * t) :=
  (cube_within unit).mono le_rfl (square_unit unit).atMost

include height

/-- The weighted lower height, by a rough bound. -/
theorem lowerHeight_within :
    Within (-6) 6 ((Arith.ofNat 2 * (t * t * t) - Arith.ofNat 3 * (t * t) + Arith.one) * y) := by
  have cubes : Within (-2) 2 (Arith.ofNat 2 * (t * t * t)) :=
    (within_two.mono (by norm_num) le_rfl).mul_unit (cube_unit unit)
      (.ofInt 2 (by norm_num) (by norm_num))
  have squares : Within (-3) 3 (Arith.ofNat 3 * (t * t)) :=
    (within_three.mono (by norm_num) le_rfl).mul_unit (square_unit unit)
      (.ofInt 3 (by norm_num) (by norm_num))
  have difference : Within (-5) 5 (Arith.ofNat 2 * (t * t * t) - Arith.ofNat 3 * (t * t)) :=
    (rounded_sub cubes.isFinite squares.isFinite).within
      (.ofInt (-5) (by norm_num) (by norm_num))
      (.ofInt 5 (by norm_num) (by norm_num))
      (by linarith [cubes.atLeast, squares.atMost]) (by linarith [cubes.atMost, squares.atLeast])
  have weight : Within (-6) 6
      (Arith.ofNat 2 * (t * t * t) - Arith.ofNat 3 * (t * t) + Arith.one) :=
    (rounded_add difference.isFinite within_one.isFinite).within
      (.ofInt (-6) (by norm_num) (by norm_num))
      (.ofInt 6 (by norm_num) (by norm_num))
      (by linarith [difference.atLeast, within_one.atLeast])
      (by linarith [difference.atMost, within_one.atMost])
  exact weight.mul_unit height (.ofInt 6 (by norm_num) (by norm_num))

/-- The weighted upper height, by a rough bound. -/
theorem upperHeight_within :
    Within (-5) 5 ((-Arith.ofNat 2 * (t * t * t) + Arith.ofNat 3 * (t * t)) * y) := by
  have cubes : Within (-2) 2 (-Arith.ofNat 2 * (t * t * t)) :=
    (within_two.neg.mono le_rfl (by norm_num)).mul_unit (cube_unit unit)
      (.ofInt 2 (by norm_num) (by norm_num))
  have squares : Within (-3) 3 (Arith.ofNat 3 * (t * t)) :=
    (within_three.mono (by norm_num) le_rfl).mul_unit (square_unit unit)
      (.ofInt 3 (by norm_num) (by norm_num))
  have weight : Within (-5) 5 (-Arith.ofNat 2 * (t * t * t) + Arith.ofNat 3 * (t * t)) :=
    (rounded_add cubes.isFinite squares.isFinite).within
      (.ofInt (-5) (by norm_num) (by norm_num))
      (.ofInt 5 (by norm_num) (by norm_num))
      (by linarith [cubes.atLeast, squares.atLeast]) (by linarith [cubes.atMost, squares.atMost])
  exact weight.mul_unit height (.ofInt 5 (by norm_num) (by norm_num))

end Weights

/-! ## Finite slopes -/

section Slopes

variable {t h slope : Float} (unit : Within 0 1 t)

include unit

theorem lowerSlopeWeight_within : Within (-1) 1 (t * t * t - Arith.ofNat 2 * (t * t) + t) := by
  have square := square_within unit
  have cube := cube_within unit
  have squaresDouble : IsDouble (2 * number (t * t)) := by
    refine ⟨(isDouble_number square.isFinite).representable.two_mul, ?_⟩
    have two : IsDouble 2 := .ofInt 2 (by norm_num) (by norm_num)
    rw [abs_of_nonneg (by linarith [square.atLeast])]
    linarith [(square_unit unit).atMost, le_abs_self (2 : ℚ), two.within]
  have squares : Within (2 * number (t * t)) (2 * number (t * t)) (Arith.ofNat 2 * (t * t)) :=
    (rounded_mul within_two.isFinite square.isFinite).within squaresDouble squaresDouble
      (by rw [within_two.eq]) (by rw [within_two.eq])
  have difference : Within (-(2 * number (t * t))) 0 (t * t * t - Arith.ofNat 2 * (t * t)) := by
    refine (rounded_sub cube.isFinite squares.isFinite).within squaresDouble.neg .zero ?_ ?_
    · linarith [cube.atLeast, squares.atMost]
    · linarith [cube.atMost, squares.atLeast, square.atLeast]
  refine (rounded_add difference.isFinite unit.isFinite).within IsDouble.one.neg .one ?_ ?_
  · linarith [difference.atLeast, square.atMost, unit.atMost]
  · linarith [difference.atMost, unit.atMost]

theorem upperSlopeWeight_within : Within (-1) 1 (t * t * t - t * t) := by
  have square := square_unit unit
  have cube := cube_unit unit
  refine (rounded_sub cube.isFinite square.isFinite).within IsDouble.one.neg .one ?_ ?_
  · linarith [cube.atLeast, square.atMost]
  · linarith [cube.atMost, square.atLeast]

omit unit

/-- A slope of more than one is met by a width of less, so that their weighted product is finite. -/
theorem isFinite_slopeTerm {weight : Float} (small : Within (-1) 1 weight)
    (hFinite : h.isFinite = true) (hNonneg : 0 ≤ number h) (slopeFinite : slope.isFinite = true)
    (narrow : 1 < |number slope| → number h ≤ 1) : (weight * h * slope).isFinite = true := by
  have magnitude : |number weight| ≤ 1 := abs_le.mpr ⟨small.atLeast, small.atMost⟩
  have weighted : |number weight * number h| ≤ number h := by
    rw [abs_mul, abs_of_nonneg hNonneg]
    exact mul_le_of_le_one_left hNonneg magnitude
  obtain ⟨weightedAtLeast, weightedAtMost⟩ := abs_le.mp weighted
  have part : Within (-number h) (number h) (weight * h) :=
    (rounded_mul small.isFinite hFinite).within (isDouble_number hFinite).neg
      (isDouble_number hFinite) weightedAtLeast weightedAtMost
  have partMagnitude : |number (weight * h)| ≤ number h := abs_le.mpr ⟨part.atLeast, part.atMost⟩
  have product := rounded_mul part.isFinite slopeFinite
  refine product.isFinite_of_nearest fun nearest isNearest => ?_
  by_cases steep : 1 < |number slope|
  · have bound : |number (weight * h) * number slope| ≤ |number slope| := by
      rw [abs_mul]
      exact mul_le_of_le_one_left (abs_nonneg _) (partMagnitude.trans (narrow steep))
    have slopeDouble := isDouble_number slopeFinite
    exact (isNearest.abs_le_of_abs_le slopeDouble.representable.abs bound).trans slopeDouble.within
  · have bound : |number (weight * h) * number slope| ≤ number h := by
      rw [abs_mul]
      exact (mul_le_of_le_one_right (abs_nonneg _) (le_of_not_gt steep)).trans partMagnitude
    have hDouble := isDouble_number hFinite
    exact (isNearest.abs_le_of_abs_le hDouble.representable bound).trans
      ((le_abs_self _).trans hDouble.within)

end Slopes

/-! ## An infinite width -/

/-- A fraction of an infinite width weights the lower slope with zero, or is not a number itself. -/
theorem isNaN_slopeWeight {t h : Float} {sign : Sign} (fraction : t.isNaN = true ∨ Within 0 0 t)
    (isInfinite : h.toModel.unpack = .infinity sign) :
    ((t * t * t - Arith.ofNat 2 * (t * t) + t) * h).isNaN = true := by
  rcases fraction with isNaN | isZero
  · exact isNaN_mul_left (isNaN_add_right _ isNaN) h
  · have unit : Within 0 1 t := isZero.mono le_rfl zero_le_one
    have square : Within 0 0 (t * t) := (square_within unit).mono le_rfl isZero.atMost
    have cube : Within 0 0 (t * t * t) := (cube_within unit).mono le_rfl square.atMost
    have squares : Within 0 0 (Arith.ofNat 2 * (t * t)) :=
      (rounded_mul within_two.isFinite square.isFinite).within .zero .zero
        (by rw [square.eq, mul_zero]) (by rw [square.eq, mul_zero])
    have difference : Within 0 0 (t * t * t - Arith.ofNat 2 * (t * t)) :=
      (rounded_sub cube.isFinite squares.isFinite).within .zero .zero
        (by rw [cube.eq, squares.eq, sub_zero]) (by rw [cube.eq, squares.eq, sub_zero])
    have weight : Within 0 0 (t * t * t - Arith.ofNat 2 * (t * t) + t) :=
      (rounded_add difference.isFinite isZero.isFinite).within .zero .zero
        (by rw [difference.eq, isZero.eq, add_zero]) (by rw [difference.eq, isZero.eq, add_zero])
    exact isNaN_zero_mul_infinite weight isInfinite

namespace Segment

variable {lower upper : Point Float} {x : Float} (segment : Segment lower upper x)

include segment

theorem fraction_of_infinite {sign : Sign}
    (isInfinite : (upper.x - lower.x).toModel.unpack = .infinity sign) :
    ((x - lower.x) / (upper.x - lower.x)).isNaN = true ∨
      Within 0 0 ((x - lower.x) / (upper.x - lower.x)) := by
  cases finite : (x - lower.x).isFinite with
  | false => exact Or.inl (segment.isNaN_fraction finite)
  | true => exact Or.inr (zero_of_div_infinite finite isInfinite)

/-- The heights at the ends do not decide whether the cubic is a number. -/
theorem isNaN_hermite (slope₀ slope₁ : Float) :
    (hermite lower upper slope₀ slope₁ x).isNaN =
      (slopePart lower upper slope₀ slope₁ x).isNaN := by
  unfold hermite slopePart
  dsimp only
  cases wideFinite : (upper.x - lower.x).isFinite with
  | false =>
      obtain ⟨sign, isInfinite⟩ := segment.infinite_of_not_isFinite wideFinite
      have isNaN := isNaN_mul_left
        (isNaN_slopeWeight (segment.fraction_of_infinite isInfinite) isInfinite) slope₀
      rw [isNaN_add_left isNaN, isNaN_add_left (isNaN_add_left (isNaN_add_right _ isNaN) _)]
  | true =>
      have unit := segment.fraction_within (segment.near_le_wide wideFinite).1
      have enough := two_pow_le_topPlace
      have lowerHeight := lowerHeight_within unit segment.lowerFinite.height
      have upperHeight := upperHeight_within unit segment.upperFinite.height
      refine ((alike_add_small upperHeight.isFinite ?_ _).trans
        (alike_small_add lowerHeight.isFinite ?_ _)).isNaN_add _
      · linarith [abs_le.mpr ⟨upperHeight.atLeast, upperHeight.atMost⟩]
      · linarith [abs_le.mpr ⟨lowerHeight.atLeast, lowerHeight.atMost⟩]

/-- Finite slopes that are steep over narrow segments only leave the cubic a number. -/
theorem slopePart_isNumber {slope₀ slope₁ : Float}
    (wideFinite : (upper.x - lower.x).isFinite = true) (finite₀ : slope₀.isFinite = true)
    (finite₁ : slope₁.isFinite = true)
    (narrow₀ : 1 < |number slope₀| → number (upper.x - lower.x) ≤ 1)
    (narrow₁ : 1 < |number slope₁| → number (upper.x - lower.x) ≤ 1) :
    (slopePart lower upper slope₀ slope₁ x).isNaN = false := by
  have unit := segment.fraction_within (segment.near_le_wide wideFinite).1
  have positive := segment.wide_pos wideFinite
  exact (rounded_add
    (isFinite_slopeTerm (lowerSlopeWeight_within unit) wideFinite positive.le finite₀ narrow₀)
    (isFinite_slopeTerm (upperSlopeWeight_within unit) wideFinite positive.le finite₁
      narrow₁)).not_isNaN

/-- The slope between two points around a segment is only greater than one if the segment is
narrow. -/
theorem narrow_of_steep {before after : Point Float} (beforeFinite : FinitePoint before)
    (afterFinite : FinitePoint after) (atOrBefore : number before.x ≤ number lower.x)
    (atOrAfter : number upper.x ≤ number after.x)
    (wideFinite : (upper.x - lower.x).isFinite = true)
    (slopeFinite : ((after.y - before.y) / (after.x - before.x)).isFinite = true)
    (steep : 1 < |number ((after.y - before.y) / (after.x - before.x))|) :
    number (upper.x - lower.x) ≤ 1 := by
  have around : Segment before after x :=
    ⟨beforeFinite, afterFinite, segment.isFinite, atOrBefore.trans segment.atOrAbove,
      segment.below.trans_le atOrAfter⟩
  have rise := around.rise_within
  have riseMagnitude : |number (after.y - before.y)| ≤ 1 := by
    refine abs_le.mpr ⟨?_, rise.atMost⟩
    linarith [rise.atLeast, beforeFinite.height.atMost]
  cases distanceFinite : (after.x - before.x).isFinite with
  | false =>
      obtain ⟨sign, isInfinite⟩ := around.infinite_of_not_isFinite distanceFinite
      rw [(zero_of_div_infinite rise.isFinite isInfinite).eq, abs_zero] at steep
      exact absurd steep (by norm_num)
  | true =>
      have positive := around.wide_pos distanceFinite
      have distanceNearest := around.rounded_wide.isNearest_of_isFinite distanceFinite
      have slopeNearest :=
        (rounded_div rise.isFinite distanceFinite positive.ne').isNearest_of_isFinite slopeFinite
      -- a distance of one or more would make the slope flat
      have near : number after.x - number before.x ≤ 1 := by
        by_contra far
        have distance : 1 ≤ number (after.x - before.x) :=
          distanceNearest.le_of_ge .one (le_of_not_ge far)
        have flat : |number (after.y - before.y) / number (after.x - before.x)| ≤ 1 := by
          rw [abs_div, abs_of_pos positive]
          exact (div_le_one positive).mpr (riseMagnitude.trans distance)
        exact absurd (slopeNearest.abs_le_of_abs_le .one flat) (not_le.mpr steep)
      refine (segment.rounded_wide.isNearest_of_isFinite wideFinite).le_of_le .one ?_
      linarith

end Segment

end FuzzyRating.Curve
