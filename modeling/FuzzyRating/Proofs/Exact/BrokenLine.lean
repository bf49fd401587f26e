import FuzzyRating.Proofs.Exact.Place
import FuzzyRating.Proofs.Exact.Rating
import FuzzyRating.Proofs.Keyed

/-!
Broken lines computed exactly. Through points at different places a linear evaluation is the broken
line that the points describe, in whatever order they are given.
-/

namespace FuzzyRating

open Exact

variable {scalar : Type} [Field scalar] [LinearOrder scalar] {power : scalar → scalar → scalar}

namespace Curve

/-! ## The line through two points -/

/-- The height at `x` of the line through two points. -/
def lineThrough (lower upper : Point scalar) (x : scalar) : scalar :=
  lower.y + (upper.y - lower.y) * ((x - lower.x) / (upper.x - lower.x))

section Line

variable {lower upper : Point scalar} (less : lower.x < upper.x)

omit [LinearOrder scalar] in
@[simp]
theorem lineThrough_lower (lower upper : Point scalar) :
    lineThrough lower upper lower.x = lower.y := by
  simp [lineThrough]

include less

theorem lineThrough_upper : lineThrough lower upper upper.x = upper.y := by
  rw [lineThrough, div_self (sub_ne_zero.mpr less.ne'), mul_one, add_sub_cancel]

variable [IsStrictOrderedRing scalar]

theorem lineThrough_monotone (rises : lower.y ≤ upper.y) : Monotone (lineThrough lower upper) := by
  intro x x' atMost
  have wide : 0 < upper.x - lower.x := sub_pos.mpr less
  have rise : 0 ≤ upper.y - lower.y := sub_nonneg.mpr rises
  unfold lineThrough
  gcongr

theorem lineThrough_antitone (falls : upper.y ≤ lower.y) : Antitone (lineThrough lower upper) := by
  intro x x' atMost
  have wide : 0 < upper.x - lower.x := sub_pos.mpr less
  have fall : upper.y - lower.y ≤ 0 := sub_nonpos.mpr falls
  have parts : (x - lower.x) / (upper.x - lower.x) ≤ (x' - lower.x) / (upper.x - lower.x) := by
    gcongr
  exact add_le_add_right (mul_le_mul_of_nonpos_left parts fall) lower.y

/-- Between two points their line has no height beyond theirs. -/
theorem lineThrough_between {x : scalar} (atOrAbove : lower.x ≤ x) (atOrBelow : x ≤ upper.x) :
    min lower.y upper.y ≤ lineThrough lower upper x ∧
      lineThrough lower upper x ≤ max lower.y upper.y := by
  rcases le_total lower.y upper.y with rises | falls
  · have monotone := lineThrough_monotone less rises
    have atLeast := monotone atOrAbove
    have atMost := monotone atOrBelow
    rw [lineThrough_lower] at atLeast
    rw [lineThrough_upper less] at atMost
    exact ⟨(min_le_left _ _).trans atLeast, atMost.trans (le_max_right _ _)⟩
  · have antitone := lineThrough_antitone less falls
    have atMost := antitone atOrAbove
    have atLeast := antitone atOrBelow
    rw [lineThrough_lower] at atMost
    rw [lineThrough_upper less] at atLeast
    exact ⟨(min_le_right _ _).trans atLeast, atMost.trans (le_max_left _ _)⟩

end Line

/-! ## The broken line through ascending points -/

/-- The segments of a broken line. -/
def lineSegment (_ : Nat) (lower upper : Point scalar) (x : scalar) : scalar :=
  lineThrough lower upper x

theorem meets_lineSegment : Meets (lineSegment : Nat → Point scalar → Point scalar → _) :=
  fun _ lower upper less => ⟨lineThrough_lower lower upper, lineThrough_upper less⟩

variable (power) in
/-- Through ascending points a linear curve is the broken line, whichever share a place. -/
theorem exists_line {points : List (Point scalar)} (nonempty : points ≠ [])
    (ascending : Ascending points) :
    ∃ height : scalar → scalar, Follows points lineSegment height ∧
      ∀ x, linear (points.map Point.exact) (number x : Exact power) = some (number (height x)) := by
  refine exists_follows nonempty ascending fun x place found lies => ?_
  unfold linear
  rw [found]
  cases lies with
  | before => rfl
  | beyond => rfl
  | between _ _ _ atOrAbove below =>
      exact congrArg some (number_segment (atOrAbove.trans_lt below) _ _ x)

variable [IsStrictOrderedRing scalar]

section Rising

variable {points : List (Point scalar)} (ascending : Ascending points)
  (rising : points.Pairwise fun a b => a.y ≤ b.y)

include ascending rising

/-- Behind the first point, a rising broken line is not below a point it has passed. -/
theorem Lies.le_height {x : scalar} {place : Bracket scalar} (lies : Lies points x place)
    (after : ∀ first, points[0]? = some first → first.x < x) {index : Nat} {point : Point scalar}
    (isPoint : points[index]? = some point) (passed : point.x ≤ x) :
    point.y ≤ place.height lineSegment x := by
  cases lies with
  | before isFirst atOrBefore => exact absurd (after _ isFirst) (not_lt.mpr atOrBefore)
  | beyond _ isLast _ =>
      have within := (List.getElem?_eq_some_iff.mp isPoint).1
      exact le_of_getElem? rising isPoint isLast (by omega)
  | @between own lower upper _ isLower isUpper atOrAbove below =>
      have notBehind : index ≤ own := by
        by_contra behind
        have upperAtMost := le_of_getElem? ascending isUpper isPoint (by omega)
        exact absurd (upperAtMost.trans passed) (not_le.mpr below)
      have rises := le_of_getElem? rising isLower isUpper (Nat.le_succ own)
      calc
        point.y ≤ lower.y := le_of_getElem? rising isPoint isLower notBehind
        _ = lineThrough lower upper lower.x := (lineThrough_lower lower upper).symm
        _ ≤ lineThrough lower upper x :=
          lineThrough_monotone (atOrAbove.trans_lt below) rises atOrAbove

/-- A broken line through points of ascending heights never falls, whichever share a place. -/
theorem Follows.monotone {height : scalar → scalar} (follows : Follows points lineSegment height) :
    Monotone height := by
  intro x x' atMost
  rcases atMost.eq_or_lt with rfl | less
  · exact le_rfl
  · obtain ⟨place, lies, heightEq⟩ := follows x
    obtain ⟨place', lies', heightEq'⟩ := follows x'
    rw [heightEq, heightEq']
    cases lies with
    | @before first isFirst atOrBefore =>
        by_cases stillBefore : x' ≤ first.x
        · rw [lies'.of_atOrBefore isFirst stillBefore]
          exact le_rfl
        · have after : ∀ other, points[0]? = some other → other.x < x' := by
            intro other isOther
            rw [isFirst] at isOther
            cases isOther
            exact lt_of_not_ge stillBefore
          exact lies'.le_height ascending rising after isFirst (le_of_not_ge stillBefore)
    | beyond after isLast atOrBeyond =>
        exact lies'.le_height ascending rising
          (fun first isFirst => (after first isFirst).trans less) isLast (atOrBeyond.trans less.le)
    | @between index lower upper after isLower isUpper atOrAbove below =>
        have wide := atOrAbove.trans_lt below
        have line := lineThrough_monotone wide
          (le_of_getElem? rising isLower isUpper (Nat.le_succ index))
        by_cases passed : upper.x ≤ x'
        · calc
            lineThrough lower upper x ≤ lineThrough lower upper upper.x := line below.le
            _ = upper.y := lineThrough_upper wide
            _ ≤ place'.height lineSegment x' :=
              lies'.le_height ascending rising
                (fun first isFirst => (after first isFirst).trans less) isUpper passed
        · rw [lies'.of_inside ascending isLower isUpper (atOrAbove.trans_lt less)
            (lt_of_not_ge passed)]
          exact line less.le

end Rising

/-! ## The broken line that points describe -/

/-- Two points with no other in between. -/
structure Neighbours (points : List (Point scalar)) (lower upper : Point scalar) : Prop where
  lowerMember : lower ∈ points
  upperMember : upper ∈ points
  less : lower.x < upper.x
  nothingBetween : ∀ point ∈ points, point.x ≤ lower.x ∨ upper.x ≤ point.x

/-- The broken line through points, in whatever order they stand. -/
structure IsBrokenLine (points : List (Point scalar)) (height : scalar → scalar) : Prop extends
    Interpolates points height where
  straight : ∀ lower upper, Neighbours points lower upper → ∀ x, lower.x ≤ x → x ≤ upper.x →
    height x = lineThrough lower upper x
  enclosed : ∀ lower upper, Neighbours points lower upper → ∀ x, lower.x ≤ x → x ≤ upper.x →
    min lower.y upper.y ≤ height x ∧ height x ≤ max lower.y upper.y
  monotone : (∀ a ∈ points, ∀ b ∈ points, a.x ≤ b.x → a.y ≤ b.y) → Monotone height

omit [Field scalar] [IsStrictOrderedRing scalar] in
/-- In order, neighbours stand next to each other. -/
theorem Neighbours.exists_index {points : List (Point scalar)}
    (ascending : StrictlyAscending points) {lower upper : Point scalar}
    (neighbours : Neighbours points lower upper) :
    ∃ index, points[index]? = some lower ∧ points[index + 1]? = some upper := by
  obtain ⟨i, isLower⟩ := List.mem_iff_getElem?.mp neighbours.lowerMember
  obtain ⟨j, isUpper⟩ := List.mem_iff_getElem?.mp neighbours.upperMember
  have inFront : i < j := by
    by_contra notInFront
    have atMost := le_of_getElem? ascending.ascending isUpper isLower (by omega)
    exact absurd neighbours.less (not_lt.mpr atMost)
  have adjacent : j = i + 1 := by
    by_contra apart
    obtain ⟨within, _⟩ := List.getElem?_eq_some_iff.mp isUpper
    have isMiddle : points[i + 1]? = some points[i + 1] := List.getElem?_eq_getElem (by omega)
    have above := related_of_getElem? ascending isLower isMiddle (by omega)
    have below := related_of_getElem? ascending isMiddle isUpper (by omega)
    rcases neighbours.nothingBetween _ (List.mem_of_getElem? isMiddle) with atLower | atUpper
    · exact absurd above (not_lt.mpr atLower)
    · exact absurd below (not_lt.mpr atUpper)
  rw [adjacent] at isUpper
  exact ⟨i, isLower, isUpper⟩

theorem Follows.isBrokenLine {points : List (Point scalar)} (ascending : StrictlyAscending points)
    {height : scalar → scalar} (follows : Follows points lineSegment height) :
    IsBrokenLine points height := by
  have straight : ∀ lower upper, Neighbours points lower upper → ∀ x, lower.x ≤ x →
      x ≤ upper.x → height x = lineThrough lower upper x := by
    intro lower upper neighbours x atOrAbove atOrBelow
    obtain ⟨index, isLower, isUpper⟩ := neighbours.exists_index ascending
    exact follows.eq_of_segment meets_lineSegment ascending isLower isUpper atOrAbove atOrBelow
  refine ⟨follows.interpolates meets_lineSegment ascending, straight, ?_, ?_⟩
  · intro lower upper neighbours x atOrAbove atOrBelow
    rw [straight lower upper neighbours x atOrAbove atOrBelow]
    exact lineThrough_between neighbours.less atOrAbove atOrBelow
  · intro rises
    refine follows.monotone ascending.ascending (List.Pairwise.imp_of_mem ?_ ascending)
    intro a b aMember bMember less
    exact rises a aMember b bMember less.le

omit [IsStrictOrderedRing scalar] in
/-- The order of points plays no part in the broken line through them. -/
theorem IsBrokenLine.perm {points reordered : List (Point scalar)} {height : scalar → scalar}
    (same : points.Perm reordered) (isLine : IsBrokenLine points height) :
    IsBrokenLine reordered height := by
  have neighbours {lower upper : Point scalar} (are : Neighbours reordered lower upper) :
      Neighbours points lower upper :=
    ⟨same.mem_iff.mpr are.lowerMember, same.mem_iff.mpr are.upperMember, are.less,
      fun point member => are.nothingBetween point (same.mem_iff.mp member)⟩
  refine ⟨isLine.toInterpolates.perm same, ?_, ?_, ?_⟩
  · exact fun lower upper are => isLine.straight lower upper (neighbours are)
  · exact fun lower upper are => isLine.enclosed lower upper (neighbours are)
  · exact fun rises => isLine.monotone fun a aMember b bMember =>
      rises a (same.mem_iff.mp aMember) b (same.mem_iff.mp bMember)

/-! ## Sorting -/

omit [IsStrictOrderedRing scalar]

/-- Usable points have exact coordinates. -/
theorem exists_exact {points : List (Point (Exact power))}
    (usable : ∀ point ∈ points, Usable point) :
    ∃ places : List (Point scalar), points = places.map Point.exact := by
  have inRange : points ∈ Set.range (List.map (Point.exact : Point scalar → Point (Exact power))) := by
    rw [Set.range_list_map]
    intro point member
    obtain ⟨x, y, rfl⟩ := (usable point member).exists_numbers
    exact ⟨⟨x, y⟩, rfl⟩
  obtain ⟨places, placesEq⟩ := inRange
  exact ⟨places, placesEq.symm⟩

/-- Points at different places have one order only. -/
theorem sortPoints_perm {points reordered : List (Point (Exact power))}
    (distinct : (points.map Point.x).Nodup) (same : reordered.Perm points) :
    sortPoints reordered = sortPoints points := by
  refine mergeSort_eq_of_perm (fun a b c => totalLe_trans a.x b.x c.x)
    (fun a b => totalLe_total a.x b.x) ?_ same
  intro a aMember b bMember first second
  exact List.inj_on_of_nodup_map distinct aMember bMember (totalLe_antisymm first second)

variable (power) in
/-- Exact points at different places are sorted to stand one behind the other. -/
theorem exists_sorted {places : List (Point scalar)} (distinct : (places.map Point.x).Nodup) :
    ∃ sorted : List (Point scalar), sorted.Perm places ∧ StrictlyAscending sorted ∧
      sortPoints (places.map Point.exact) =
        (sorted.map Point.exact : List (Point (Exact power))) := by
  let atOrBefore (a b : Point scalar) : Bool := decide (a.x ≤ b.x)
  have same : (places.mergeSort atOrBefore).Perm places := List.mergeSort_perm _ _
  refine ⟨places.mergeSort atOrBefore, same, ?_, ?_⟩
  · have ascending := pairwise_mergeSort_key Point.x places
    have apart : (places.mergeSort atOrBefore).Pairwise fun a b => a.x ≠ b.x :=
      List.pairwise_map.mp ((same.map Point.x).nodup_iff.mpr distinct)
    exact (ascending.and apart).imp fun both => lt_of_le_of_ne both.1 both.2
  · let exactAtOrBefore (a b : Point (Exact power)) : Bool := Arith.totalLe a.x b.x
    have samePlaces : ∀ a ∈ places, ∀ b ∈ places,
        atOrBefore a b = exactAtOrBefore a.exact b.exact :=
      fun _ _ _ _ => rfl
    exact (List.map_mergeSort samePlaces).symm

end Curve

/-! ## Linear evaluations -/

namespace Evaluation

/-- An evaluation that rates a number by the height there, or by its complement if it inverts. -/
def RatesBy (evaluation : Evaluation (Exact power)) (height : scalar → scalar) : Prop :=
  ∀ clamp x, evaluation.membership clamp (.number (number x)) =
    .ok (some (number (if evaluation.invert then 1 - height x else height x)))

theorem ratesBy_of_curve {evaluation : Evaluation (Exact power)} {method : Interpolation}
    {points : List (Point (Exact power))} (isCurve : evaluation.shape = .curve method points)
    {height : scalar → scalar}
    (drawn : ∀ clamp x, Curve.value method clamp points (number x) = some (number (height x))) :
    evaluation.RatesBy height := by
  intro clamp x
  have drawnHere : shapeMembership evaluation.shape clamp (.number (number x)) =
      .ok (some (number (height x))) := by
    rw [isCurve]
    simp only [shapeMembership, drawn clamp x]
    rfl
  unfold membership
  rw [drawnHere]
  cases evaluation.invert with
  | false => rfl
  | true =>
      change Except.ok (some (Arith.one - number (height x))) = _
      rw [one_eq, number_sub]
      rfl

variable [IsStrictOrderedRing scalar]

/-- Through points at different places, a linear evaluation rates by the broken line through them,
and their order plays no part. -/
theorem linear_isBrokenLine {definition : EvaluationDefinition (Exact power)}
    {evaluation : Evaluation (Exact power)} {points sorted : List (Point (Exact power))}
    (compiled : ofDefinition definition = .ok evaluation)
    (isLinear : evaluation.shape = .curve .linear sorted)
    (given : definition.points = some points) (distinct : (points.map Point.x).Nodup) :
    (∀ reordered, reordered.Perm points →
      ofDefinition { definition with points := some reordered } = .ok evaluation) ∧
    ∃ (places : List (Point scalar)) (height : scalar → scalar),
      points = places.map Point.exact ∧ evaluation.RatesBy height ∧
      Curve.IsBrokenLine places height := by
  obtain ⟨_, givenEq, enough, allUsable, sortedEq⟩ :=
    compilePoints_eq_ok (compilePoints_of_shape compiled isLinear)
  unfold givenPoints at givenEq
  rw [given] at givenEq
  cases givenEq
  constructor
  · intro reordered same
    have pointsEq : compilePoints { definition with points := some reordered } .linear =
        .ok (Curve.sortPoints reordered) :=
      compilePoints_of_usable rfl (by rwa [same.length_eq])
        fun point member => allUsable point (same.mem_iff.mp member)
    rw [Curve.sortPoints_perm distinct same, ← sortedEq] at pointsEq
    rw [ofDefinition_redrawn compiled isLinear pointsEq, ← invert_of_compiled compiled, ← isLinear]
  · obtain ⟨places, rfl⟩ := Curve.exists_exact fun point member =>
      usable_of_isUsable (allUsable point member)
    have placesDistinct : (places.map Point.x).Nodup := by
      rw [List.map_map] at distinct
      exact List.Nodup.of_map number (by rwa [List.map_map])
    obtain ⟨inOrder, same, ascending, inOrderEq⟩ := Curve.exists_sorted power placesDistinct
    have nonempty : inOrder ≠ [] := by
      rintro rfl
      rw [List.length_map, ← same.length_eq] at enough
      exact absurd enough (Nat.not_succ_le_zero 1)
    obtain ⟨height, follows, drawn⟩ := Curve.exists_line power nonempty ascending.ascending
    refine ⟨places, height, rfl, ratesBy_of_curve isLinear fun clamp x => ?_,
      (follows.isBrokenLine ascending).perm same⟩
    rw [sortedEq, inOrderEq]
    exact drawn x

/-- Points of steepness at slopes in no order. -/
def steepnessPoints : List (Point ℚ) :=
  [⟨10, 1⟩, ⟨0, 0⟩, ⟨5, 1 / 5⟩]

/-- How gentle a slope is, as the opposite of how steep. -/
def slopeGentle : EvaluationDefinition (Exact wholePower) where
  id := "e1"
  name := "Slope Gentle"
  propertyName := "slope"
  kind := "fuzzy"
  invert := true
  points := some (steepnessPoints.map Point.exact)
  domain := none
  interpolation := none
  crispExpression := none

theorem linear_isBrokenLine_slope :
    ∃ evaluation height, ofDefinition slopeGentle = .ok evaluation ∧
      ofDefinition { slopeGentle with
        points := some (steepnessPoints.reverse.map Point.exact) } = .ok evaluation ∧
      evaluation.RatesBy height ∧ Curve.IsBrokenLine steepnessPoints height ∧
      height 6 = 9 / 25 := by
  have kindName : (readKind slopeGentle.kind :
      Except (DefinitionError (Exact wholePower)) _).toOption = some .fuzzy := by
    decide +kernel
  have pointsEq : compilePoints slopeGentle .linear = .ok (Curve.sortPoints _) :=
    compilePoints_of_usable rfl (by decide) (by decide +kernel)
  have compiled : ofDefinition slopeGentle = .ok ⟨"e1", "Slope Gentle", "slope", .fuzzy, true,
      .curve .linear (Curve.sortPoints (steepnessPoints.map Point.exact))⟩ :=
    bind_eq_ok_iff.mpr ⟨_, eq_ok_of_toOption kindName,
      bind_eq_ok_iff.mpr ⟨_, bind_eq_ok_iff.mpr ⟨_, pointsEq, rfl⟩, rfl⟩⟩
  obtain ⟨sameEvaluation, places, height, placesEq, rates, isLine⟩ :=
    linear_isBrokenLine compiled rfl rfl (by decide +kernel)
  obtain rfl := List.map_injective_iff.mpr Point.exact_injective placesEq
  have reversed : (steepnessPoints.reverse.map Point.exact : List (Point (Exact wholePower))).Perm
      (steepnessPoints.map Point.exact) :=
    (List.reverse_perm steepnessPoints).map Point.exact
  have neighbours : Curve.Neighbours steepnessPoints ⟨5, 1 / 5⟩ ⟨10, 1⟩ :=
    ⟨by decide +kernel, by decide +kernel, by decide +kernel, by decide +kernel⟩
  refine ⟨_, height, compiled, sameEvaluation _ reversed, rates, isLine, ?_⟩
  rw [isLine.straight _ _ neighbours 6 (by decide +kernel) (by decide +kernel)]
  decide +kernel

end Evaluation

end FuzzyRating
