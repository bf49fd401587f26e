import FuzzyRating.Proofs.Exact.Place
import FuzzyRating.Proofs.Exact.Rating
import Mathlib.Algebra.Polynomial.Derivative
import Mathlib.Tactic.ComputeDegree
import Mathlib.Tactic.FieldSimp

/-!
Splines computed exactly. Each segment is the cubic with the heights of its ends and the slopes given
there, so that the curve is smooth where segments meet.
-/

namespace FuzzyRating

open Exact

variable {scalar : Type} [Field scalar] [LinearOrder scalar] {power : scalar → scalar → scalar}

namespace Curve

/-! ## The cubic of a segment -/

/-- The slope of the line through two points. -/
def chord (a b : Point scalar) : scalar :=
  (b.y - a.y) / (b.x - a.x)

/-- The cubic with the heights of two points and slopes given there. -/
noncomputable def cubic (lower upper : Point scalar) (slope₀ slope₁ : scalar) :
    Polynomial scalar :=
  let h := upper.x - lower.x
  let part := Polynomial.X - Polynomial.C lower.x
  Polynomial.C lower.y + Polynomial.C slope₀ * part +
    Polynomial.C ((3 * chord lower upper - 2 * slope₀ - slope₁) / h) * part ^ 2 +
    Polynomial.C ((slope₀ + slope₁ - 2 * chord lower upper) / h ^ 2) * part ^ 3

section Cubic

variable (lower upper : Point scalar) (slope₀ slope₁ : scalar)

omit [LinearOrder scalar]

theorem natDegree_cubic_le : (cubic lower upper slope₀ slope₁).natDegree ≤ 3 := by
  dsimp only [cubic]
  compute_degree

theorem eval_cubic (x : scalar) :
    (cubic lower upper slope₀ slope₁).eval x =
      lower.y + slope₀ * (x - lower.x) +
        (3 * chord lower upper - 2 * slope₀ - slope₁) / (upper.x - lower.x) *
          (x - lower.x) ^ 2 +
        (slope₀ + slope₁ - 2 * chord lower upper) / (upper.x - lower.x) ^ 2 *
          (x - lower.x) ^ 3 := by
  simp [cubic]

theorem eval_derivative_cubic (x : scalar) :
    (cubic lower upper slope₀ slope₁).derivative.eval x =
      slope₀ +
        2 * ((3 * chord lower upper - 2 * slope₀ - slope₁) / (upper.x - lower.x)) *
          (x - lower.x) +
        3 * ((slope₀ + slope₁ - 2 * chord lower upper) / (upper.x - lower.x) ^ 2) *
          (x - lower.x) ^ 2 := by
  simp [cubic, Polynomial.derivative_pow]
  ring

theorem eval_cubic_lower : (cubic lower upper slope₀ slope₁).eval lower.x = lower.y := by
  rw [eval_cubic]
  ring

theorem eval_derivative_cubic_lower :
    (cubic lower upper slope₀ slope₁).derivative.eval lower.x = slope₀ := by
  rw [eval_derivative_cubic]
  ring

variable {lower upper} (apart : lower.x ≠ upper.x)

include apart

theorem eval_cubic_upper : (cubic lower upper slope₀ slope₁).eval upper.x = upper.y := by
  have notZero : upper.x - lower.x ≠ 0 := sub_ne_zero.mpr apart.symm
  rw [eval_cubic, chord]
  field_simp
  ring

theorem eval_derivative_cubic_upper :
    (cubic lower upper slope₀ slope₁).derivative.eval upper.x = slope₁ := by
  have notZero : upper.x - lower.x ≠ 0 := sub_ne_zero.mpr apart.symm
  rw [eval_derivative_cubic]
  field_simp
  ring

/-- Two points on a line have its slope between them. -/
theorem chord_of_straight {a b : scalar} (lowerOn : lower.y = a + b * lower.x)
    (upperOn : upper.y = a + b * upper.x) : chord lower upper = b := by
  have notZero : upper.x - lower.x ≠ 0 := sub_ne_zero.mpr apart.symm
  rw [chord, lowerOn, upperOn, div_eq_iff notZero]
  ring

/-- With the slope of its chord at both ends, a cubic is straight. -/
theorem eval_cubic_of_straight {a b : scalar} (lowerOn : lower.y = a + b * lower.x)
    (upperOn : upper.y = a + b * upper.x) (x : scalar) :
    (cubic lower upper b b).eval x = a + b * x := by
  rw [eval_cubic, chord_of_straight apart lowerOn upperOn, lowerOn]
  ring

end Cubic

/-- The blend of heights and slopes at the ends of a segment is its cubic. -/
theorem number_hermite {lower upper : Point scalar} (apart : lower.x ≠ upper.x)
    (slope₀ slope₁ x : scalar) :
    hermite lower.exact upper.exact (number slope₀) (number slope₁) (number x) =
      (number ((cubic lower upper slope₀ slope₁).eval x) : Exact power) := by
  have notZero : upper.x - lower.x ≠ 0 := sub_ne_zero.mpr apart.symm
  unfold hermite
  simp only [Point.exact, number_sub, ofNat_eq, one_eq, number_neg]
  rw [number_div _ notZero, eval_cubic, chord]
  simp only [number_add, number_sub, number_mul]
  congr 1
  push_cast
  field_simp
  ring

/-! ## Slopes at points -/

/-- The slope at a point: that of the line through its neighbours, or through itself and its only
neighbour at an end. -/
def slopeAt (points : List (Point scalar)) (index : Nat) : scalar :=
  match points[index - 1]?, points[index + 1]?.or points[index]? with
  | some before, some after => chord before after
  | _, _ => 0

omit [LinearOrder scalar] in
theorem slopeAt_eq {points : List (Point scalar)} {index : Nat} {before after : Point scalar}
    (isBefore : points[index - 1]? = some before)
    (isAfter : points[index + 1]?.or points[index]? = some after) :
    slopeAt points index = chord before after := by
  unfold slopeAt
  rw [isBefore, isAfter]

section Slopes

variable {points : List (Point scalar)} (enough : 2 ≤ points.length)
  (ascending : StrictlyAscending points)

include enough ascending

omit [Field scalar] in
/-- The points that give a point its slope are not at the same place, at the ends either. -/
theorem exists_sides {index : Nat} (within : index < points.length) :
    ∃ before after, points[index - 1]? = some before ∧
      points[index + 1]?.or points[index]? = some after ∧ before.x < after.x := by
  have isBefore : points[index - 1]? = some points[index - 1] :=
    List.getElem?_eq_getElem (by omega)
  by_cases isInner : index + 1 < points.length
  · have isAfter : points[index + 1]? = some points[index + 1] := List.getElem?_eq_getElem isInner
    exact ⟨_, _, isBefore, Option.or_eq_some_iff.mpr (Or.inl isAfter),
      related_of_getElem? ascending isBefore isAfter (by omega)⟩
  · have isAfter : points[index]? = some points[index] := List.getElem?_eq_getElem within
    refine ⟨_, _, isBefore, ?_, related_of_getElem? ascending isBefore isAfter (by omega)⟩
    rw [List.getElem?_eq_none (by omega), Option.none_or]
    exact isAfter

theorem tangent_exact {index : Nat} (within : index < points.length) :
    tangent (points.map Point.exact) index = (number (slopeAt points index) : Exact power) := by
  obtain ⟨before, after, isBefore, isAfter, less⟩ := exists_sides enough ascending within
  rw [slopeAt_eq isBefore isAfter]
  unfold tangent
  simp only [List.getElem?_map, ← Option.map_or, isBefore, isAfter, Option.map_some]
  have inOrder : Arith.lt (before.exact : Point (Exact power)).x after.exact.x = true :=
    decide_eq_true less
  rw [if_pos inOrder]
  exact number_div _ (sub_ne_zero.mpr less.ne')

theorem slopeAt_of_straight {a b : scalar} (straight : ∀ point ∈ points, point.y = a + b * point.x)
    {index : Nat} (within : index < points.length) : slopeAt points index = b := by
  obtain ⟨before, after, isBefore, isAfter, less⟩ := exists_sides enough ascending within
  rw [slopeAt_eq isBefore isAfter]
  exact chord_of_straight less.ne (straight before (List.mem_of_getElem? isBefore))
    (straight after (mem_of_getElem?_or isAfter))

end Slopes

/-! ## The spline through points -/

/-- The segments of the spline through points. -/
noncomputable def cubicSegment (points : List (Point scalar)) (index : Nat)
    (lower upper : Point scalar) (x : scalar) : scalar :=
  (cubic lower upper (slopeAt points (index - 1)) (slopeAt points index)).eval x

theorem meets_cubicSegment (points : List (Point scalar)) : Meets (cubicSegment points) :=
  fun _ lower upper less => ⟨eval_cubic_lower lower upper _ _, eval_cubic_upper _ _ less.ne⟩

/-- The cubic from a point to the next. -/
noncomputable def pieceAt (points : List (Point scalar)) (index : Nat) : Polynomial scalar :=
  match points[index]?, points[index + 1]? with
  | some lower, some upper => cubic lower upper (slopeAt points index) (slopeAt points (index + 1))
  | _, _ => 0

omit [LinearOrder scalar] in
theorem pieceAt_eq {points : List (Point scalar)} {index : Nat} {lower upper : Point scalar}
    (isLower : points[index]? = some lower) (isUpper : points[index + 1]? = some upper) :
    pieceAt points index =
      cubic lower upper (slopeAt points index) (slopeAt points (index + 1)) := by
  unfold pieceAt
  rw [isLower, isUpper]

omit [LinearOrder scalar] in
theorem pieceAt_lower {points : List (Point scalar)} {index : Nat} {lower upper : Point scalar}
    (isLower : points[index]? = some lower) (isUpper : points[index + 1]? = some upper) :
    (pieceAt points index).eval lower.x = lower.y ∧
      (pieceAt points index).derivative.eval lower.x = slopeAt points index := by
  rw [pieceAt_eq isLower isUpper]
  exact ⟨eval_cubic_lower lower upper _ _, eval_derivative_cubic_lower lower upper _ _⟩

theorem pieceAt_upper {points : List (Point scalar)} (ascending : StrictlyAscending points)
    {index : Nat} {lower upper : Point scalar} (isLower : points[index]? = some lower)
    (isUpper : points[index + 1]? = some upper) :
    (pieceAt points index).eval upper.x = upper.y ∧
      (pieceAt points index).derivative.eval upper.x = slopeAt points (index + 1) := by
  have less := related_of_getElem? ascending isLower isUpper (Nat.lt_succ_self index)
  rw [pieceAt_eq isLower isUpper]
  exact ⟨eval_cubic_upper _ _ less.ne, eval_derivative_cubic_upper _ _ less.ne⟩

omit [LinearOrder scalar] in
theorem natDegree_pieceAt_le (points : List (Point scalar)) (index : Nat) :
    (pieceAt points index).natDegree ≤ 3 := by
  unfold pieceAt
  split
  · exact natDegree_cubic_le _ _ _ _
  · rw [Polynomial.natDegree_zero]
    exact Nat.zero_le 3

/-- The smooth curve of cubics through points, one for each segment, with a slope for each point. -/
structure IsSpline (points : List (Point scalar)) (slope : Nat → scalar)
    (piece : Nat → Polynomial scalar) (height : scalar → scalar) : Prop extends
    Interpolates points height where
  firstSlope : ∀ first second, points[0]? = some first → points[1]? = some second →
    slope 0 = chord first second
  innerSlope : ∀ index before after, points[index]? = some before →
    points[index + 2]? = some after → slope (index + 1) = chord before after
  lastSlope : ∀ index before last, points[index]? = some before →
    points[index + 1]? = some last → points.length = index + 2 →
    slope (index + 1) = chord before last
  isCubic : ∀ index, (piece index).natDegree ≤ 3
  onPiece : ∀ index lower upper, points[index]? = some lower → points[index + 1]? = some upper →
    ∀ x, lower.x ≤ x → x ≤ upper.x → height x = (piece index).eval x
  atLower : ∀ index lower upper, points[index]? = some lower → points[index + 1]? = some upper →
    (piece index).eval lower.x = lower.y ∧ (piece index).derivative.eval lower.x = slope index
  atUpper : ∀ index lower upper, points[index]? = some lower → points[index + 1]? = some upper →
    (piece index).eval upper.x = upper.y ∧
      (piece index).derivative.eval upper.x = slope (index + 1)
  smooth : ∀ index lower middle upper, points[index]? = some lower →
    points[index + 1]? = some middle → points[index + 2]? = some upper →
    (piece index).eval middle.x = (piece (index + 1)).eval middle.x ∧
      (piece index).derivative.eval middle.x = (piece (index + 1)).derivative.eval middle.x
  straight : ∀ a b, (∀ point ∈ points, point.y = a + b * point.x) →
    ∀ first ∈ points, ∀ last ∈ points, ∀ x, first.x ≤ x → x ≤ last.x → height x = a + b * x

section Spline

variable {points : List (Point scalar)} (enough : 2 ≤ points.length)
  (ascending : StrictlyAscending points)

include enough ascending

variable (power) in
theorem exists_spline :
    ∃ height : scalar → scalar, Follows points (cubicSegment points) height ∧
      ∀ x, spline false (points.map Point.exact) (number x : Exact power) =
        some (number (height x)) := by
  have nonempty : points ≠ [] := by
    rintro rfl
    exact absurd enough (Nat.not_succ_le_zero 1)
  refine exists_follows nonempty ascending.ascending fun x place found lies => ?_
  unfold spline
  rw [found]
  cases lies with
  | before => rfl
  | beyond => rfl
  | @between index lower upper _ _ isUpper atOrAbove below =>
      have within := (List.getElem?_eq_some_iff.mp isUpper).1
      have atLower : tangent (points.map Point.exact) (index + 1 - 1) =
          (number (slopeAt points index) : Exact power) :=
        tangent_exact enough ascending (Nat.lt_of_succ_lt within)
      have atUpper : tangent (points.map Point.exact) (index + 1) =
          (number (slopeAt points (index + 1)) : Exact power) :=
        tangent_exact enough ascending within
      have apart := (atOrAbove.trans_lt below).ne
      simp only [Bracket.exact, atLower, atUpper, Bool.false_eq_true, if_false]
      exact congrArg some (number_hermite apart _ _ x)

/-- Through points on a line, a spline is the line as far as they reach. -/
theorem Follows.eq_line {height : scalar → scalar}
    (follows : Follows points (cubicSegment points) height) {a b : scalar}
    (straight : ∀ point ∈ points, point.y = a + b * point.x) {first last : Point scalar}
    (firstMember : first ∈ points) (lastMember : last ∈ points) {x : scalar}
    (behindFirst : first.x ≤ x) (beforeLast : x ≤ last.x) : height x = a + b * x := by
  obtain ⟨place, lies, heightEq⟩ := follows x
  rw [heightEq]
  obtain ⟨i, isFirst⟩ := List.mem_iff_getElem?.mp firstMember
  obtain ⟨j, isLast⟩ := List.mem_iff_getElem?.mp lastMember
  cases lies with
  | @before head isHead atOrBefore =>
      have headAtMost := le_of_getElem? ascending.ascending isHead isFirst (Nat.zero_le i)
      rw [atOrBefore.antisymm (headAtMost.trans behindFirst)]
      exact straight head (List.mem_of_getElem? isHead)
  | @beyond final _ isFinal atOrBeyond =>
      have within := (List.getElem?_eq_some_iff.mp isLast).1
      have finalAtLeast := le_of_getElem? ascending.ascending isLast isFinal (by omega)
      rw [(beforeLast.trans finalAtLeast).antisymm atOrBeyond]
      exact straight final (List.mem_of_getElem? isFinal)
  | @between index lower upper _ isLower isUpper atOrAbove below =>
      have within := (List.getElem?_eq_some_iff.mp isUpper).1
      have lowerSlope : slopeAt points (index + 1 - 1) = b :=
        slopeAt_of_straight enough ascending straight (Nat.lt_of_succ_lt within)
      have upperSlope := slopeAt_of_straight enough ascending straight within
      simp only [Bracket.height, cubicSegment, lowerSlope, upperSlope]
      exact eval_cubic_of_straight (atOrAbove.trans_lt below).ne
        (straight lower (List.mem_of_getElem? isLower))
        (straight upper (List.mem_of_getElem? isUpper)) x

theorem Follows.isSpline {height : scalar → scalar}
    (follows : Follows points (cubicSegment points) height) :
    IsSpline points (slopeAt points) (pieceAt points) height := by
  have meets := meets_cubicSegment points
  exact {
    toInterpolates := follows.interpolates meets ascending
    firstSlope := fun first second isFirst isSecond =>
      slopeAt_eq isFirst (Option.or_eq_some_iff.mpr (Or.inl isSecond))
    innerSlope := fun index before after isBefore isAfter =>
      slopeAt_eq isBefore (Option.or_eq_some_iff.mpr (Or.inl isAfter))
    lastSlope := fun index before last isBefore isLast isEnd =>
      slopeAt_eq isBefore (Option.or_eq_some_iff.mpr
        (Or.inr ⟨List.getElem?_eq_none (by omega), isLast⟩))
    isCubic := natDegree_pieceAt_le points
    onPiece := by
      intro index lower upper isLower isUpper x atOrAbove atOrBelow
      rw [pieceAt_eq isLower isUpper]
      exact follows.eq_of_segment meets ascending isLower isUpper atOrAbove atOrBelow
    atLower := fun _ _ _ isLower isUpper => pieceAt_lower isLower isUpper
    atUpper := fun _ _ _ isLower isUpper => pieceAt_upper ascending isLower isUpper
    smooth := by
      intro index lower middle upper isLower isMiddle isUpper
      obtain ⟨heightBelow, slopeBelow⟩ := pieceAt_upper ascending isLower isMiddle
      obtain ⟨heightAbove, slopeAbove⟩ := pieceAt_lower isMiddle isUpper
      exact ⟨heightBelow.trans heightAbove.symm, slopeBelow.trans slopeAbove.symm⟩
    straight := by
      intro a b straight first firstMember last lastMember x behindFirst beforeLast
      exact follows.eq_line enough ascending straight firstMember lastMember behindFirst
        beforeLast }

end Spline

/-! ## Bounded splines -/

/-- Beyond the outermost points nothing is bounded, which makes no difference where they lie between
zero and one. -/
theorem spline_bounded {points : List (Point (Exact power))}
    (inUnit : ∀ point ∈ points, point.y.InUnit) (x : Exact power) :
    spline true points x = (spline false points x).map Arith.clampUnit := by
  unfold spline
  cases found : bracket points x with
  | none => rfl
  | some place =>
      cases place with
      | clamped y =>
          obtain ⟨point, member, rfl⟩ := bracket_eq_clamped found
          exact congrArg some (inUnit point member).clampUnit.symm
      | between index lower upper => rfl

variable [IsStrictOrderedRing scalar]

variable (power) in
/-- Through ascending points, the curve drawn is a spline with the slopes computed at its points,
and bounding it to the unit interval does so to each of its heights. -/
theorem spline_isSpline {points : List (Point scalar)} (enough : 2 ≤ points.length)
    (ascending : StrictlyAscending points) :
    ∃ (slope : Nat → scalar) (piece : Nat → Polynomial scalar) (height : scalar → scalar),
      (∀ index, index < points.length →
        tangent (points.map Point.exact) index = (number (slope index) : Exact power)) ∧
      (∀ x, spline false (points.map Point.exact) (number x : Exact power) =
        some (number (height x))) ∧
      IsSpline points slope piece height ∧
      ((∀ point ∈ points, 0 ≤ point.y ∧ point.y ≤ 1) →
        ∀ x, spline true (points.map Point.exact) (number x : Exact power) =
          some (number (max 0 (min (height x) 1)))) := by
  obtain ⟨height, follows, drawn⟩ := exists_spline power enough ascending
  refine ⟨slopeAt points, pieceAt points, height,
    fun index within => tangent_exact enough ascending within, drawn,
    follows.isSpline enough ascending, fun unit x => ?_⟩
  have inUnit : ∀ point ∈ (points.map Point.exact : List (Point (Exact power))),
      point.y.InUnit := by
    intro point member
    obtain ⟨own, ownMember, rfl⟩ := List.mem_map.mp member
    obtain ⟨nonneg, atMostOne⟩ := unit own ownMember
    exact .number nonneg atMostOne
  rw [spline_bounded inUnit, drawn, Option.map_some, clampUnit_number]

/-- A steep rise to a plateau, which the spline through its points overshoots. -/
def plateauPoints : List (Point ℚ) :=
  [⟨0, 0⟩, ⟨10, 1⟩, ⟨30, 1⟩]

theorem spline_isSpline_plateau :
    ∃ slope piece height, IsSpline plateauPoints slope piece height ∧
      slope 1 = 1 / 30 ∧ height 20 = 13 / 12 ∧
      spline true (plateauPoints.map Point.exact) (number 20 : Exact wholePower) =
        some (number 1) := by
  have enough : 2 ≤ plateauPoints.length := by decide
  have ascending : StrictlyAscending plateauPoints := by decide +kernel
  obtain ⟨slope, piece, height, _, drawn, isSpline, bounded⟩ :=
    spline_isSpline wholePower enough ascending
  have overshoots : height 20 = 13 / 12 := by
    have value : spline false (plateauPoints.map Point.exact) (number 20 : Exact wholePower) =
        some (number (13 / 12)) := by
      decide +kernel
    rw [drawn 20] at value
    exact number.inj (Option.some.inj value)
  refine ⟨slope, piece, height, isSpline, ?_, overshoots, ?_⟩
  · rw [isSpline.innerSlope 0 ⟨0, 0⟩ ⟨30, 1⟩ rfl rfl]
    decide +kernel
  · rw [bounded (by decide +kernel), overshoots]
    decide +kernel

end Curve

end FuzzyRating
