import FuzzyRating.Proofs.Curve
import FuzzyRating.Proofs.Rounding.Order

/-!
Segments of curves of doubles: where a query lies between two points, and the line between them.
Points may lie so far apart that their distance is infinite.
-/

namespace FuzzyRating.Curve

open Float.Model Float.Model.UnpackedFloat Rounding

/-- A point of doubles that a curve may have: finite, with a height between zero and one. -/
structure FinitePoint (point : Point Float) : Prop where
  isFinite : point.x.isFinite = true
  height : Within 0 1 point.y

/-- Two points with a finite query between them, at or above the lower and below the upper one. -/
structure Segment (lower upper : Point Float) (x : Float) : Prop where
  lowerFinite : FinitePoint lower
  upperFinite : FinitePoint upper
  isFinite : x.isFinite = true
  atOrAbove : number lower.x ≤ number x
  below : number x < number upper.x

namespace Segment

variable {lower upper : Point Float} {x : Float} (segment : Segment lower upper x)

include segment

/-! ## The fraction of a segment up to the query -/

theorem rounded_near : Rounded (number x - number lower.x) (x - lower.x) :=
  rounded_sub segment.isFinite segment.lowerFinite.isFinite

theorem rounded_wide : Rounded (number upper.x - number lower.x) (upper.x - lower.x) :=
  rounded_sub segment.upperFinite.isFinite segment.lowerFinite.isFinite

theorem near_nonneg {near : ℚ} (isNearest : Nearest (number x - number lower.x) near) :
    0 ≤ near :=
  isNearest.le_of_ge .zero (sub_nonneg.mpr segment.atOrAbove)

/-- The width of a segment is positive, however small it is. -/
theorem wide_pos (finite : (upper.x - lower.x).isFinite = true) :
    0 < number (upper.x - lower.x) := by
  have isNearest := segment.rounded_wide.isNearest_of_isFinite finite
  have least : Representable ((2 : ℚ) ^ (-1074 : ℤ)) := by
    refine ⟨1, -1074, by norm_num, le_rfl, ?_⟩
    rw [Int.cast_one, one_mul]
  have atLeast := Representable.least_le_sub
    (isDouble_number segment.lowerFinite.isFinite).representable
    (isDouble_number segment.upperFinite.isFinite).representable
    (segment.atOrAbove.trans_lt segment.below)
  exact (zpow_pos (by norm_num) _).trans_le (isNearest.le_of_ge least atLeast)

/-- If the width is finite, so is the distance up to the query, which is not longer. -/
theorem near_le_wide (wideFinite : (upper.x - lower.x).isFinite = true) :
    (x - lower.x).isFinite = true ∧ number (x - lower.x) ≤ number (upper.x - lower.x) := by
  have wideNearest := segment.rounded_wide.isNearest_of_isFinite wideFinite
  have shorter {near : ℚ} (isNearest : Nearest (number x - number lower.x) near) :
      near ≤ number (upper.x - lower.x) :=
    isNearest.mono wideNearest (sub_lt_sub_right segment.below _)
  have finite : (x - lower.x).isFinite = true := by
    refine segment.rounded_near.isFinite_of_nearest fun near isNearest => ?_
    rw [abs_of_nonneg (segment.near_nonneg isNearest)]
    exact (shorter isNearest).trans ((le_abs_self _).trans (isDouble_number wideFinite).within)
  exact ⟨finite, shorter (segment.rounded_near.isNearest_of_isFinite finite)⟩

theorem infinite_of_not_isFinite (notFinite : (upper.x - lower.x).isFinite = false) :
    ∃ sign, (upper.x - lower.x).toModel.unpack = .infinity sign := by
  cases segment.rounded_wide with
  | finite isFinite =>
      rw [notFinite] at isFinite
      cases isFinite
  | infinite isInfinite => exact ⟨_, isInfinite⟩

theorem fraction_within (finite : (x - lower.x).isFinite = true) :
    Within 0 1 ((x - lower.x) / (upper.x - lower.x)) := by
  cases wideFinite : (upper.x - lower.x).isFinite with
  | false =>
      obtain ⟨sign, isInfinite⟩ := segment.infinite_of_not_isFinite wideFinite
      exact (zero_of_div_infinite finite isInfinite).mono le_rfl zero_le_one
  | true =>
      have positive := segment.wide_pos wideFinite
      have nonneg : 0 ≤ number (x - lower.x) :=
        segment.near_nonneg (segment.rounded_near.isNearest_of_isFinite finite)
      exact (rounded_div finite wideFinite positive.ne').within .zero .one
        (div_nonneg nonneg positive.le)
        ((div_le_one positive).mpr (segment.near_le_wide wideFinite).2)

/-- An infinite distance is only divided by an infinite width. -/
theorem isNaN_fraction (notFinite : (x - lower.x).isFinite = false) :
    ((x - lower.x) / (upper.x - lower.x)).isNaN = true := by
  have wideNotFinite : (upper.x - lower.x).isFinite = false := by
    rw [Bool.eq_false_iff] at notFinite ⊢
    exact fun wideFinite => notFinite (segment.near_le_wide wideFinite).1
  obtain ⟨wideSign, wideInfinite⟩ := segment.infinite_of_not_isFinite wideNotFinite
  cases segment.rounded_near with
  | finite isFinite =>
      rw [notFinite] at isFinite
      cases isFinite
  | infinite isInfinite => exact isNaN_infinite_div_infinite isInfinite wideInfinite

/-! ## The line between the points -/

theorem rise_within : Within (-number lower.y) 1 (upper.y - lower.y) := by
  have lowerUnit := segment.lowerFinite.height
  have upperUnit := segment.upperFinite.height
  refine (rounded_sub upperUnit.isFinite lowerUnit.isFinite).within
    (isDouble_number lowerUnit.isFinite).neg .one ?_ ?_
  · linarith [upperUnit.atLeast]
  · linarith [upperUnit.atMost, lowerUnit.atLeast]

/-- A positive rise exceeds the exact one by at most half the last place of a half. -/
theorem rise_le (rises : 0 < number (upper.y - lower.y)) :
    number lower.y + number (upper.y - lower.y) ≤ 1 + 2 ^ (-54 : ℤ) := by
  have lowerUnit := segment.lowerFinite.height
  have upperUnit := segment.upperFinite.height
  have isNearest := (rounded_sub upperUnit.isFinite lowerUnit.isFinite).isNearest_of_isFinite
    segment.rise_within.isFinite
  have exactRises : 0 ≤ number upper.y - number lower.y := by
    by_contra falls
    exact absurd (isNearest.le_of_le .zero (le_of_not_ge falls)) (not_le.mpr rises)
  have error := isNearest.abs_sub_le_of_unit exactRises
    (by linarith [upperUnit.atMost, lowerUnit.atLeast])
  linarith [le_abs_self (number (upper.y - lower.y) - (number upper.y - number lower.y)),
    upperUnit.atMost]

/-- The rounded line does not leave the unit interval. -/
theorem line_within {part : Float} (partUnit : Within 0 1 part) :
    Within 0 1 (lower.y + (upper.y - lower.y) * part) := by
  have lowerUnit := segment.lowerFinite.height
  have rise := segment.rise_within
  have product := rounded_mul rise.isFinite partUnit.isFinite
  by_cases rises : 0 < number (upper.y - lower.y)
  · have productWithin : Within 0 (number (upper.y - lower.y)) ((upper.y - lower.y) * part) :=
      product.within .zero (isDouble_number rise.isFinite)
        (mul_nonneg rises.le partUnit.atLeast) (mul_le_of_le_one_right rises.le partUnit.atMost)
    have sum := rounded_add lowerUnit.isFinite productWithin.isFinite
    have near : number lower.y + number ((upper.y - lower.y) * part) ≤ 1 + 2 ^ (-54 : ℤ) := by
      linarith [segment.rise_le rises, productWithin.atMost]
    have sumWithin : Within 0 2 (lower.y + (upper.y - lower.y) * part) := by
      refine sum.within .zero (.ofInt 2 (by norm_num) (by norm_num)) ?_ (near.trans (by norm_num))
      linarith [lowerUnit.atLeast, productWithin.atLeast]
    exact ⟨sumWithin.isFinite, sumWithin.atLeast,
      (sum.isNearest_of_isFinite sumWithin.isFinite).le_one near⟩
  · -- a fall is at most the lower height
    have falls := le_of_not_gt rises
    have productWithin : Within (-number lower.y) 0 ((upper.y - lower.y) * part) := by
      refine product.within (isDouble_number lowerUnit.isFinite).neg .zero ?_
        (mul_nonpos_of_nonpos_of_nonneg falls partUnit.atLeast)
      exact rise.atLeast.trans (le_mul_of_le_one_right falls partUnit.atMost)
    refine (rounded_add lowerUnit.isFinite productWithin.isFinite).within .zero .one ?_ ?_
    · linarith [productWithin.atLeast]
    · linarith [productWithin.atMost, lowerUnit.atMost]

end Segment

end FuzzyRating.Curve
