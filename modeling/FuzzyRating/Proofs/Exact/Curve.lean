import FuzzyRating.Proofs.Curve
import FuzzyRating.Proofs.Exact.Number
import Mathlib.Tactic.Ring

/-!
Curves computed exactly. Where they are drawn through points between zero and one, and splines are
bounded, they stay there.
-/

namespace FuzzyRating

open Exact

variable {scalar : Type} [Field scalar] [LinearOrder scalar] {power : scalar → scalar → scalar}

namespace Curve

/-! ## Sorted points -/

theorem sortPoints_pairwise (points : List (Point (Exact power))) :
    (sortPoints points).Pairwise fun a b => Arith.totalLe a.x b.x = true :=
  List.pairwise_mergeSort (fun a b c => totalLe_trans a.x b.x c.x)
    (fun a b => totalLe_total a.x b.x) points

theorem ascends_of_pairwise {points : List (Point (Exact power))}
    (sorted : points.Pairwise fun a b => Arith.totalLe a.x b.x = true) :
    Ascends points := by
  refine sorted.imp fun {a b} inOrder x atOrBelow => ?_
  obtain ⟨bx, bxEq⟩ : ∃ value, b.x = number value := by
    cases isX : b.x with
    | number value => exact ⟨value, rfl⟩
    | notANumber =>
        rw [isX] at atOrBelow
        cases x <;> cases atOrBelow
  rw [bxEq] at inOrder atOrBelow
  cases isX : a.x with
  | notANumber =>
      rw [isX] at inOrder
      cases inOrder
  | number ax =>
      rw [isX, totalLe_number, decide_eq_true_eq] at inOrder
      cases x with
      | notANumber => cases atOrBelow
      | number x =>
          rw [le_number, decide_eq_true_eq] at atOrBelow ⊢
          exact inOrder.trans atOrBelow

/-! ## Segments -/

/-- The broken line between two points at different places. -/
theorem number_segment {lowerX upperX : scalar} (less : lowerX < upperX)
    (lowerY upperY x : scalar) :
    (number lowerY + (number upperY - number lowerY) *
        ((number x - number lowerX) / (number upperX - number lowerX)) : Exact power) =
      number (lowerY + (upperY - lowerY) * ((x - lowerX) / (upperX - lowerX))) := by
  simp only [number_sub]
  rw [number_div _ (sub_ne_zero.mpr less.ne'), number_mul, number_add]

/-- The cubic between two points at different places. -/
theorem exists_hermite {lowerX upperX : scalar} (less : lowerX < upperX)
    (lowerY upperY slope₀ slope₁ x : scalar) :
    ∃ height : scalar,
      hermite ⟨number lowerX, number lowerY⟩ ⟨number upperX, number upperY⟩ (number slope₀)
        (number slope₁) (number x) = (number height : Exact power) := by
  unfold hermite
  simp only [number_sub, ofNat_eq, one_eq, number_neg]
  rw [number_div _ (sub_ne_zero.mpr less.ne')]
  simp only [number_add, number_sub, number_mul]
  exact ⟨_, rfl⟩

theorem mem_of_getElem?_or {alpha : Type} {entries : List alpha} {first second : Nat} {entry : alpha}
    (found : entries[first]?.or entries[second]? = some entry) :
    entry ∈ entries := by
  rcases Option.or_eq_some_iff.mp found with isFirst | ⟨_, isSecond⟩
  · exact List.mem_of_getElem? isFirst
  · exact List.mem_of_getElem? isSecond

/-- The slope at a point is a number, for it is only divided by a distance that is not zero. -/
theorem exists_tangent {points : List (Point (Exact power))}
    (usable : ∀ point ∈ points, ∃ x y : scalar, point = ⟨number x, number y⟩) (index : Nat) :
    ∃ slope : scalar, tangent points index = number slope := by
  unfold tangent
  split
  · next before after beforeEq afterEq =>
      obtain ⟨beforeX, beforeY, rfl⟩ := usable before (List.mem_of_getElem? beforeEq)
      obtain ⟨afterX, afterY, rfl⟩ := usable after (mem_of_getElem?_or afterEq)
      dsimp only
      split
      · next less =>
          have notZero : afterX - beforeX ≠ 0 :=
            sub_ne_zero.mpr (of_decide_eq_true less).ne'
          exact ⟨_, number_div _ notZero⟩
      · exact ⟨0, zero_eq⟩
  · exact ⟨0, zero_eq⟩

/-! ## Curves through points between zero and one -/

/-- A point with numbers for its place and its height, which lies between zero and one. -/
inductive Usable : Point (Exact power) → Prop
  | intro {x y : scalar} (nonneg : 0 ≤ y) (atMostOne : y ≤ 1) : Usable ⟨number x, number y⟩

theorem Usable.inUnit {point : Point (Exact power)} (usable : Usable point) : point.y.InUnit := by
  obtain ⟨nonneg, atMostOne⟩ := usable
  exact .number nonneg atMostOne

theorem Usable.exists_numbers {point : Point (Exact power)} (usable : Usable point) :
    ∃ x y : scalar, point = ⟨number x, number y⟩ := by
  obtain ⟨_, _⟩ := usable
  exact ⟨_, _, rfl⟩

variable {points : List (Point (Exact power))} {x : scalar} {height : Exact power}

/-- The ends of a segment stand at different places, between which the query lies. -/
theorem exists_ends (ascends : Ascends points) (usable : ∀ point ∈ points, Usable point)
    {index : Nat} {lower upper : Point (Exact power)}
    (between : bracket points (number x) = some (.between index lower upper)) :
    ∃ lowerX lowerY upperX upperY : scalar, lower = ⟨number lowerX, number lowerY⟩ ∧
      upper = ⟨number upperX, number upperY⟩ ∧ lowerX ≤ x ∧ x < upperX ∧
      (0 ≤ lowerY ∧ lowerY ≤ 1) ∧ (0 ≤ upperY ∧ upperY ≤ 1) := by
  obtain ⟨_, lowerEq, upperEq, atOrAbove, below⟩ := bracket_eq_between ascends between
  obtain ⟨lowerNonneg, lowerAtMost⟩ := usable lower (List.mem_of_getElem? lowerEq)
  obtain ⟨upperNonneg, upperAtMost⟩ := usable upper (List.mem_of_getElem? upperEq)
  exact ⟨_, _, _, _, rfl, rfl, of_decide_eq_true atOrAbove,
    lt_of_not_ge (of_decide_eq_false below), ⟨lowerNonneg, lowerAtMost⟩,
    ⟨upperNonneg, upperAtMost⟩⟩

variable [IsStrictOrderedRing scalar]

/-- Between two heights in the unit interval a line stays there. -/
theorem segment_mem_unit {lower upper t : scalar} (lowerNonneg : 0 ≤ lower)
    (lowerAtMost : lower ≤ 1) (upperNonneg : 0 ≤ upper) (upperAtMost : upper ≤ 1)
    (tNonneg : 0 ≤ t) (tAtMost : t ≤ 1) :
    0 ≤ lower + (upper - lower) * t ∧ lower + (upper - lower) * t ≤ 1 := by
  have blend : lower + (upper - lower) * t = lower * (1 - t) + upper * t := by ring
  have rest : 0 ≤ 1 - t := sub_nonneg.mpr tAtMost
  rw [blend]
  constructor
  · exact add_nonneg (mul_nonneg lowerNonneg rest) (mul_nonneg upperNonneg tNonneg)
  · calc
      lower * (1 - t) + upper * t ≤ 1 * (1 - t) + 1 * t := by gcongr
      _ = 1 := by ring

theorem linear_inUnit (ascends : Ascends points) (usable : ∀ point ∈ points, Usable point)
    (isValue : linear points (number x) = some height) : height.InUnit := by
  unfold linear at isValue
  split at isValue
  · cases isValue
  · next clamped =>
      cases isValue
      obtain ⟨point, member, rfl⟩ := bracket_eq_clamped clamped
      exact (usable point member).inUnit
  · next lower upper between =>
      cases isValue
      obtain ⟨lowerX, lowerY, upperX, upperY, rfl, rfl, atOrAbove, below, lowerUnit, upperUnit⟩ :=
        exists_ends ascends usable between
      have less : 0 < upperX - lowerX := sub_pos.mpr (atOrAbove.trans_lt below)
      obtain ⟨nonneg, atMostOne⟩ := segment_mem_unit lowerUnit.1 lowerUnit.2 upperUnit.1 upperUnit.2
        (div_nonneg (sub_nonneg.mpr atOrAbove) less.le)
        ((div_le_one less).mpr (sub_le_sub_right below.le lowerX))
      dsimp only
      rw [number_segment (atOrAbove.trans_lt below)]
      exact .number nonneg atMostOne

omit [IsStrictOrderedRing scalar] in
theorem step_inUnit (usable : ∀ point ∈ points, Usable point)
    (isValue : step points (number x) = some height) : height.InUnit := by
  unfold step at isValue
  split at isValue
  · cases isValue
  · next first firstEq _ =>
      cases isValue
      exact (usable first (List.mem_of_mem_head? firstEq)).inUnit
  · obtain ⟨point, pointEq, rfl⟩ := Option.map_eq_some_iff.mp isValue
    exact (usable point (List.mem_of_getElem? pointEq)).inUnit

theorem spline_inUnit (ascends : Ascends points) (usable : ∀ point ∈ points, Usable point)
    (isValue : spline true points (number x) = some height) : height.InUnit := by
  unfold spline at isValue
  split at isValue
  · cases isValue
  · next clamped =>
      cases isValue
      obtain ⟨point, member, rfl⟩ := bracket_eq_clamped clamped
      exact (usable point member).inUnit
  · next index lower upper between =>
      obtain ⟨lowerX, lowerY, upperX, upperY, rfl, rfl, atOrAbove, below, _, _⟩ :=
        exists_ends ascends usable between
      have numbers := fun point member => (usable point member).exists_numbers
      obtain ⟨slope₀, slope₀Eq⟩ := exists_tangent numbers (index - 1)
      obtain ⟨slope₁, slope₁Eq⟩ := exists_tangent numbers index
      obtain ⟨cubic, cubicEq⟩ := exists_hermite (atOrAbove.trans_lt below) lowerY upperY slope₀
        slope₁ x
      rw [slope₀Eq, slope₁Eq, cubicEq] at isValue
      cases isValue
      exact clampUnit_inUnit cubic

theorem value_inUnit {method : Interpolation} (ascends : Ascends points)
    (usable : ∀ point ∈ points, Usable point)
    (isValue : value method true points (number x) = some height) : height.InUnit := by
  cases method with
  | linear => exact linear_inUnit ascends usable isValue
  | sigmoid => exact linear_inUnit ascends usable isValue
  | step => exact step_inUnit usable isValue
  | spline => exact spline_inUnit ascends usable isValue

end Curve

/-! ## Compiled evaluations -/

namespace Evaluation

theorem usable_of_isUsable {point : Point (Exact power)} (isUsable : isUsable point = true) :
    Curve.Usable point := by
  simp only [Evaluation.isUsable, Bool.and_eq_true] at isUsable
  obtain ⟨⟨xFinite, yFinite⟩, yInUnit⟩ := isUsable
  obtain ⟨x, y⟩ := point
  obtain ⟨x, rfl⟩ := isFinite_iff.mp xFinite
  obtain ⟨nonneg, atMostOne⟩ := inUnit_iff.mp yInUnit
  exact ⟨nonneg, atMostOne⟩

theorem compilePoints_usable {definition : EvaluationDefinition (Exact power)}
    {method : Interpolation} {points : List (Point (Exact power))}
    (compiled : compilePoints definition method = .ok points) :
    Curve.Ascends points ∧ ∀ point ∈ points, Curve.Usable point := by
  obtain ⟨given, _, _, allUsable, rfl⟩ := compilePoints_eq_ok compiled
  refine ⟨Curve.ascends_of_pairwise (Curve.sortPoints_pairwise given), fun point member => ?_⟩
  exact usable_of_isUsable (allUsable point ((List.mergeSort_perm _ _).mem_iff.mp member))

variable [IsStrictOrderedRing scalar]

/-- An expression rates by zero and one. -/
theorem crispMembership_inUnit {source : String} {expression : Crisp.Expr (Exact power)}
    {clamp : Bool} {subject : PropertyValue (Exact power)} {rating : Option (Exact power)}
    (rated : shapeMembership (.crisp source expression) clamp subject = .ok rating) :
    ∀ value ∈ rating, value.InUnit := by
  have verdict (holds : Bool) :
      (if holds then Arith.one else Arith.zero : Exact power).InUnit := by
    split
    · exact inUnit_one
    · exact inUnit_zero
  cases subject with
  | null =>
      cases rated
      rintro value ⟨⟩
  | text =>
      cases rated
      rintro value ⟨⟩
      exact verdict _
  | number x =>
      unfold shapeMembership at rated
      dsimp only at rated
      split at rated
      · cases rated
        rintro value ⟨⟩
        exact verdict _
      · cases rated

theorem curveMembership_inUnit {method : Interpolation} {points : List (Point (Exact power))}
    (ascends : Curve.Ascends points) (usable : ∀ point ∈ points, Curve.Usable point)
    {subject : PropertyValue (Exact power)} {rating : Option (Exact power)}
    (rated : shapeMembership (.curve method points) true subject = .ok rating) :
    ∀ value ∈ rating, value.InUnit := by
  cases subject with
  | null =>
      cases rated
      rintro value ⟨⟩
  | text => cases rated
  | number x =>
      unfold shapeMembership at rated
      dsimp only at rated
      split at rated
      · next finite =>
          obtain ⟨x, rfl⟩ := isFinite_iff.mp finite
          split at rated
          · next height isValue =>
              cases rated
              rintro value ⟨⟩
              exact Curve.value_inUnit ascends usable isValue
          · cases rated
      · cases rated

/-- Where splines are bounded, a compiled evaluation rates between zero and one. -/
theorem membership_inUnit {definition : EvaluationDefinition (Exact power)}
    {evaluation : Evaluation (Exact power)} (compiled : ofDefinition definition = .ok evaluation)
    {subject : PropertyValue (Exact power)} {rating : Option (Exact power)}
    (rated : evaluation.membership true subject = .ok rating) :
    ∀ value ∈ rating, value.InUnit := by
  obtain ⟨own, ownRated, inverted⟩ := bind_eq_ok_iff.mp rated
  have ownInUnit : ∀ value ∈ own, value.InUnit := by
    rcases ofDefinition_eq_ok compiled with ⟨_, _, shape⟩ | ⟨_, _, shape, pointsEq⟩
    · rw [shape] at ownRated
      exact crispMembership_inUnit ownRated
    · rw [shape] at ownRated
      obtain ⟨ascends, usable⟩ := compilePoints_usable pointsEq
      exact curveMembership_inUnit ascends usable ownRated
  cases inverted
  split
  · intro value isInverted
    obtain ⟨before, isOwn, rfl⟩ := Option.map_eq_some_iff.mp isInverted
    exact (ownInUnit before isOwn).complement
  · exact ownInUnit

end Evaluation

end FuzzyRating
