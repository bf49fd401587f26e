import FuzzyRating.Proofs.Curve.Cubic

/-!
The ratings of curves of doubles. They lie in the unit interval unless the points are so far apart,
or so close together, that infinities meet in the computation of a line or a cubic.
-/

namespace FuzzyRating

open Float.Model Float.Model.UnpackedFloat Rounding

namespace Curve

/-- Whether infinities meet in the value of a curve at a query: in a line if the distance up to the
query is infinite, in a cubic if what the slopes contribute is not a number. -/
def overflows {num : Type} [Arith num] (method : Interpolation) (points : List (Point num))
    (x : num) : Bool :=
  match bracket points x with
  | some (.between index lower upper) =>
      match method with
      | .step => false
      | .linear => !Arith.isFinite (x - lower.x)
      | .sigmoid => !Arith.isFinite (x - lower.x)
      | .spline =>
          Arith.isNaN (slopePart lower upper (tangent points (index - 1)) (tangent points index) x)
  | _ => false

/-! ## Sorted points -/

theorem pairwise_sortPoints (points : List (Point Float)) :
    (sortPoints points).Pairwise fun a b => Arith.totalLe a.x b.x = true := by
  have totalLe_iff (a b : Float) : Arith.totalLe a b = true ↔ floatRank a ≤ floatRank b :=
    decide_eq_true_iff
  refine List.pairwise_mergeSort (fun a b c => ?_) (fun a b => ?_) points
  · rw [totalLe_iff, totalLe_iff, totalLe_iff]
    exact le_trans
  · rw [Bool.or_eq_true, totalLe_iff, totalLe_iff]
    exact le_total _ _

theorem ascends_of_pairwise_doubles {points : List (Point Float)}
    (finitePoints : ∀ point ∈ points, FinitePoint point)
    (sorted : points.Pairwise fun a b => Arith.totalLe a.x b.x = true) : Ascends points := by
  refine sorted.imp_of_mem fun {a b} aMember bMember inOrder x atOrAbove => ?_
  have aFinite := (finitePoints a aMember).isFinite
  have bFinite := (finitePoints b bMember).isFinite
  exact le_of_number_le aFinite bFinite (number_le_of_totalLe aFinite bFinite inOrder) atOrAbove

section Value

variable {points : List (Point Float)} {x y : Float}

theorem segment_of_bracket (ascends : Ascends points)
    (finitePoints : ∀ point ∈ points, FinitePoint point) (finite : x.isFinite = true)
    {index : Nat} {lower upper : Point Float}
    (between : bracket points x = some (.between index lower upper)) : Segment lower upper x := by
  obtain ⟨_, lowerEq, upperEq, atOrAbove, below⟩ := bracket_eq_between ascends between
  have lowerFinite := finitePoints lower (List.mem_of_getElem? lowerEq)
  have upperFinite := finitePoints upper (List.mem_of_getElem? upperEq)
  refine ⟨lowerFinite, upperFinite, finite, ?_, ?_⟩
  · exact (le_iff lowerFinite.isFinite finite).mp atOrAbove
  · exact lt_of_not_ge fun reached =>
      Bool.eq_false_iff.mp below ((le_iff upperFinite.isFinite finite).mpr reached)

/-- A double that is a rating unless infinities have met. -/
structure RatingUnless (overflowed : Bool) (rating : Float) : Prop where
  within : overflowed = false → Within 0 1 rating
  isNaN : overflowed = true → rating.isNaN = true

theorem RatingUnless.ofHeight (within : Within 0 1 y) : RatingUnless false y :=
  ⟨fun _ => within, nofun⟩

theorem linear_rating (ascends : Ascends points)
    (finitePoints : ∀ point ∈ points, FinitePoint point) (finite : x.isFinite = true)
    (isValue : linear points x = some y) :
    RatingUnless (overflows .linear points x) y := by
  unfold linear at isValue
  unfold overflows
  split at isValue
  · cases isValue
  · next clamped =>
      cases isValue
      obtain ⟨point, member, rfl⟩ := bracket_eq_clamped clamped
      rw [clamped]
      exact .ofHeight (finitePoints point member).height
  · next index lower upper between =>
      cases isValue
      have segment := segment_of_bracket ascends finitePoints finite between
      rw [between]
      dsimp only
      change RatingUnless (!(x - lower.x).isFinite) _
      cases near : (x - lower.x).isFinite with
      | true => exact .ofHeight (segment.line_within (segment.fraction_within near))
      | false =>
          have isNaN := isNaN_mul_right (upper.y - lower.y) (segment.isNaN_fraction near)
          exact ⟨nofun, fun _ => isNaN_add_right lower.y isNaN⟩

theorem step_rating (finitePoints : ∀ point ∈ points, FinitePoint point)
    (isValue : step points x = some y) : RatingUnless (overflows .step points x) y := by
  have isHeight : ∃ point ∈ points, point.y = y := by
    unfold step at isValue
    split at isValue
    · cases isValue
    · next first firstEq _ =>
        cases isValue
        exact ⟨first, List.mem_of_mem_head? firstEq, rfl⟩
    · obtain ⟨point, pointEq, isHeight⟩ := Option.map_eq_some_iff.mp isValue
      exact ⟨point, List.mem_of_getElem? pointEq, isHeight⟩
  have noOverflow : overflows .step points x = false := by
    unfold overflows
    split <;> rfl
  obtain ⟨point, member, rfl⟩ := isHeight
  rw [noOverflow]
  exact .ofHeight (finitePoints point member).height

theorem spline_rating (ascends : Ascends points)
    (finitePoints : ∀ point ∈ points, FinitePoint point) (finite : x.isFinite = true)
    (isValue : spline true points x = some y) :
    RatingUnless (overflows .spline points x) y := by
  unfold spline at isValue
  unfold overflows
  split at isValue
  · cases isValue
  · next clamped =>
      cases isValue
      obtain ⟨point, member, rfl⟩ := bracket_eq_clamped clamped
      rw [clamped]
      exact .ofHeight (finitePoints point member).height
  · next index lower upper between =>
      have segment := segment_of_bracket ascends finitePoints finite between
      rw [between]
      dsimp only at isValue ⊢
      rw [if_pos rfl] at isValue
      cases isValue
      have sameNaN := segment.isNaN_hermite (tangent points (index - 1)) (tangent points index)
      change RatingUnless (slopePart lower upper _ _ x).isNaN _
      rw [← sameNaN]
      refine ⟨within_clampUnit, fun isNaN => ?_⟩
      rw [clampUnit_of_isNaN isNaN]
      exact isNaN

theorem value_rating {method : Interpolation} (ascends : Ascends points)
    (finitePoints : ∀ point ∈ points, FinitePoint point) (finite : x.isFinite = true)
    (isValue : value method true points x = some y) :
    RatingUnless (overflows method points x) y := by
  cases method with
  | linear => exact linear_rating ascends finitePoints finite isValue
  | sigmoid =>
      have sameOverflow : overflows .sigmoid points x = overflows .linear points x := by
        unfold overflows
        split <;> rfl
      rw [sameOverflow]
      exact linear_rating ascends finitePoints finite isValue
  | step => exact step_rating finitePoints isValue
  | spline => exact spline_rating ascends finitePoints finite isValue

/-! ## Curves without overflow -/

/-- Sorted points ascend by their numbers. -/
theorem number_le_of_getElem? (finitePoints : ∀ point ∈ points, FinitePoint point)
    (sorted : points.Pairwise fun a b => Arith.totalLe a.x b.x = true) {i j : Nat}
    (inOrder : i ≤ j) {a b : Point Float} (aEq : points[i]? = some a) (bEq : points[j]? = some b) :
    number a.x ≤ number b.x := by
  rcases Nat.eq_or_lt_of_le inOrder with rfl | less
  · rw [aEq] at bEq
    cases bEq
    exact le_rfl
  · obtain ⟨iWithin, rfl⟩ := List.getElem?_eq_some_iff.mp aEq
    obtain ⟨jWithin, rfl⟩ := List.getElem?_eq_some_iff.mp bEq
    exact number_le_of_totalLe (finitePoints _ (List.getElem_mem iWithin)).isFinite
      (finitePoints _ (List.getElem_mem jWithin)).isFinite
      (List.pairwise_iff_getElem.mp sorted i j iWithin jWithin less)

/-- The slope at an end of a segment is that between two points around the segment. -/
theorem exists_tangent_around (finitePoints : ∀ point ∈ points, FinitePoint point)
    (sorted : points.Pairwise fun a b => Arith.totalLe a.x b.x = true) {index : Nat}
    {lower upper : Point Float} (positive : 0 < index) (lowerEq : points[index - 1]? = some lower)
    (upperEq : points[index]? = some upper) (segment : Segment lower upper x) {tangentIndex : Nat}
    (isEnd : tangentIndex = index - 1 ∨ tangentIndex = index) :
    ∃ before ∈ points, ∃ after ∈ points, number before.x ≤ number lower.x ∧
      number upper.x ≤ number after.x ∧
      tangent points tangentIndex = (after.y - before.y) / (after.x - before.x) := by
  have indexWithin : index < points.length := (List.getElem?_eq_some_iff.mp upperEq).1
  obtain ⟨before, beforeEq⟩ : ∃ before, points[tangentIndex - 1]? = some before :=
    ⟨_, List.getElem?_eq_getElem (by omega)⟩
  obtain ⟨after, afterIndex, afterEq, afterPlace, isAfter⟩ : ∃ after afterIndex,
      points[afterIndex]? = some after ∧ index ≤ afterIndex ∧
        points[tangentIndex + 1]?.or points[tangentIndex]? = some after := by
    cases next : points[tangentIndex + 1]? with
    | some after => exact ⟨after, tangentIndex + 1, next, by omega, rfl⟩
    | none =>
        have isLast : tangentIndex = index := by
          have := List.getElem?_eq_none_iff.mp next
          omega
        exact ⟨upper, index, upperEq, le_rfl, by rw [isLast]; exact upperEq⟩
  have atOrBefore : number before.x ≤ number lower.x :=
    number_le_of_getElem? finitePoints sorted (by omega) beforeEq lowerEq
  have atOrAfter : number upper.x ≤ number after.x :=
    number_le_of_getElem? finitePoints sorted afterPlace upperEq afterEq
  have beforeMember := List.mem_of_getElem? beforeEq
  have afterMember := List.mem_of_getElem? afterEq
  refine ⟨before, beforeMember, after, afterMember, atOrBefore, atOrAfter, ?_⟩
  unfold tangent
  rw [beforeEq, isAfter]
  dsimp only
  refine if_pos ((lt_iff (finitePoints before beforeMember).isFinite
    (finitePoints after afterMember).isFinite).mpr ?_)
  exact atOrBefore.trans_lt ((segment.atOrAbove.trans_lt segment.below).trans_le atOrAfter)

/-- No infinities meet where neighbouring points are a finite distance apart and, if the curve is a
spline, all slopes are finite. -/
theorem overflows_eq_false {method : Interpolation}
    (finitePoints : ∀ point ∈ points, FinitePoint point)
    (sorted : points.Pairwise fun a b => Arith.totalLe a.x b.x = true)
    (finite : x.isFinite = true)
    (wide : ∀ index lower upper, points[index]? = some lower → points[index + 1]? = some upper →
      (upper.x - lower.x).isFinite = true)
    (slopes : method = .spline → ∀ index, (tangent points index).isFinite = true) :
    overflows method points x = false := by
  have ascends := ascends_of_pairwise_doubles finitePoints sorted
  unfold overflows
  split
  · next index lower upper between =>
      have segment := segment_of_bracket ascends finitePoints finite between
      obtain ⟨positive, lowerEq, upperEq, _, _⟩ := bracket_eq_between ascends between
      have wideFinite : (upper.x - lower.x).isFinite = true :=
        wide (index - 1) lower upper lowerEq (by rwa [Nat.sub_add_cancel positive])
      have near : (!(x - lower.x).isFinite) = false := by
        rw [(segment.near_le_wide wideFinite).1]
        rfl
      cases method with
      | step => rfl
      | linear => exact near
      | sigmoid => exact near
      | spline =>
          have narrow {tangentIndex : Nat}
              (isEnd : tangentIndex = index - 1 ∨ tangentIndex = index)
              (steep : 1 < |number (tangent points tangentIndex)|) :
              number (upper.x - lower.x) ≤ 1 := by
            obtain ⟨before, beforeMember, after, afterMember, atOrBefore, atOrAfter, tangentEq⟩ :=
              exists_tangent_around finitePoints sorted positive lowerEq upperEq segment isEnd
            have slopeFinite := slopes rfl tangentIndex
            rw [tangentEq] at steep slopeFinite
            exact segment.narrow_of_steep (finitePoints before beforeMember)
              (finitePoints after afterMember) atOrBefore atOrAfter wideFinite slopeFinite steep
          exact segment.slopePart_isNumber wideFinite (slopes rfl _) (slopes rfl _)
            (narrow (Or.inl rfl)) (narrow (Or.inr rfl))
  · rfl

/-! ## Ratings -/

theorem RatingUnless.complement {overflowed : Bool} {rating : Float}
    (isRating : RatingUnless overflowed rating) : RatingUnless overflowed (Arith.one - rating) := by
  refine ⟨fun clear => ?_, fun overflowed => isNaN_sub_right _ (isRating.isNaN overflowed)⟩
  have within := isRating.within clear
  refine (rounded_sub within_one.isFinite within.isFinite).within .zero .one ?_ ?_
  · linarith [within_one.atLeast, within.atMost]
  · linarith [within_one.atMost, within.atLeast]

theorem RatingUnless.inUnit {overflowed : Bool} {rating : Float}
    (isRating : RatingUnless overflowed rating) :
    Arith.inUnit rating = !overflowed ∧ Arith.isNaN rating = overflowed := by
  cases overflowed with
  | false =>
      have within := isRating.within rfl
      exact ⟨within.inUnit, isNaN_of_isFinite within.isFinite⟩
  | true =>
      have isNaN := isRating.isNaN rfl
      refine ⟨?_, isNaN⟩
      unfold Arith.inUnit
      rw [le_eq, isNaN_iff_unpack.mp isNaN]
      rfl

end Value

end Curve

/-! ## Compiled evaluations -/

namespace Evaluation

theorem finitePoint_of_isUsable {point : Point Float} (usable : isUsable point = true) :
    Curve.FinitePoint point := by
  unfold isUsable at usable
  rw [Bool.and_eq_true, Bool.and_eq_true] at usable
  obtain ⟨⟨xFinite, yFinite⟩, yInUnit⟩ := usable
  obtain ⟨atLeast, atMost⟩ := (inUnit_iff yFinite).mp yInUnit
  exact ⟨xFinite, yFinite, atLeast, atMost⟩

theorem compilePoints_finite {definition : EvaluationDefinition Float} {method : Interpolation}
    {points : List (Point Float)} (compiled : compilePoints definition method = .ok points) :
    (points.Pairwise fun a b => Arith.totalLe a.x b.x = true) ∧
      ∀ point ∈ points, Curve.FinitePoint point := by
  obtain ⟨given, _, _, allUsable, rfl⟩ := compilePoints_eq_ok compiled
  refine ⟨Curve.pairwise_sortPoints given, fun point member => ?_⟩
  exact finitePoint_of_isUsable (allUsable point ((List.mergeSort_perm _ _).mem_iff.mp member))

section Membership

variable {definition : EvaluationDefinition Float} {evaluation : Evaluation Float}
  {method : Interpolation} {points : List (Point Float)} {x : Float}
  (compiled : ofDefinition definition = .ok evaluation)
  (shape : evaluation.shape = .curve method points) (finite : Arith.isFinite x = true)

include compiled shape finite

theorem exists_rating : ∃ rating, evaluation.membership true (.number x) = .ok (some rating) ∧
    Curve.RatingUnless (Curve.overflows method points x) rating := by
  have pointsEq := compilePoints_of_shape compiled shape
  obtain ⟨sorted, finitePoints⟩ := compilePoints_finite pointsEq
  obtain ⟨nonempty, xsFinite⟩ := compilePoints_sound pointsEq
  obtain ⟨height, isValue⟩ :=
    Option.isSome_iff_exists.mp (Curve.value_isSome method true nonempty xsFinite finite)
  have isRating := Curve.value_rating (Curve.ascends_of_pairwise_doubles finitePoints sorted)
    finitePoints finite isValue
  have shapeRates : shapeMembership evaluation.shape true (.number x) = .ok (some height) := by
    rw [shape]
    unfold shapeMembership
    dsimp only
    rw [if_pos finite, isValue]
  unfold membership
  rw [shapeRates]
  cases evaluation.invert with
  | false => exact ⟨height, rfl, isRating⟩
  | true => exact ⟨Arith.one - height, rfl, isRating.complement⟩

/-- A compiled curve rates every finite number. The rating lies between zero and one, unless
infinities meet in its computation. Then it is not a number. -/
theorem membership_finite :
    ∃ rating, evaluation.membership true (.number x) = .ok (some rating) ∧
      Arith.inUnit rating = !Curve.overflows method points x ∧
      Arith.isNaN rating = Curve.overflows method points x := by
  obtain ⟨rating, rated, isRating⟩ := exists_rating compiled shape finite
  exact ⟨rating, rated, isRating.inUnit⟩

/-- Every finite number is rated between zero and one if neighbouring points are a finite distance
apart and the slopes of a spline are finite. -/
theorem membership_inUnit_of_finite_slopes
    (wide : ∀ index lower upper, points[index]? = some lower → points[index + 1]? = some upper →
      Arith.isFinite (upper.x - lower.x) = true)
    (slopes : method = .spline → ∀ index, Arith.isFinite (Curve.tangent points index) = true) :
    ∃ rating, evaluation.membership true (.number x) = .ok (some rating) ∧
      Arith.inUnit rating = true := by
  obtain ⟨sorted, finitePoints⟩ := compilePoints_finite (compilePoints_of_shape compiled shape)
  obtain ⟨rating, rated, isRating⟩ := exists_rating compiled shape finite
  rw [Curve.overflows_eq_false finitePoints sorted finite wide slopes] at isRating
  exact ⟨rating, rated, isRating.inUnit.1⟩

end Membership

/-! ## Points that are near and points that are far apart -/

/-- The broken line through some points, as authored. -/
def lineDefinition (points : List (Point Float)) : EvaluationDefinition Float where
  id := "e1"
  name := "Line"
  propertyName := "slope"
  kind := "fuzzy"
  invert := false
  points := some points
  domain := none
  interpolation := some .linear
  crispExpression := none

/-- The broken line through some points, as compiled. -/
def line (points : List (Point Float)) : Evaluation Float where
  id := "e1"
  name := "Line"
  propertyName := "slope"
  kind := .fuzzy
  invert := false
  shape := .curve .linear points

theorem ofDefinition_line {points : List (Point Float)} (enough : 2 ≤ points.length)
    (usable : ∀ point ∈ points, isUsable point = true)
    (sorted : points.Pairwise fun a b => Arith.totalLe a.x b.x = true) :
    ofDefinition (lineDefinition points) = .ok (line points) := by
  have compiled : compilePoints (lineDefinition points) .linear = .ok points :=
    compilePoints_of_sorted rfl enough usable sorted
  have isKnown : kinds.lookup (Text.lowerAscii (Text.trim "fuzzy")) = some .fuzzy := by
    decide +kernel
  have kind : readKind (lineDefinition points).kind =
      (.ok .fuzzy : Except (DefinitionError Float) EvaluationKind) := by
    change readKind "fuzzy" = _
    unfold readKind
    dsimp only
    rw [isKnown]
  have shape : compileShape (lineDefinition points) .fuzzy = .ok (.curve .linear points) :=
    bind_eq_ok_iff.mpr ⟨points, compiled, rfl⟩
  exact bind_eq_ok_iff.mpr ⟨_, kind, bind_eq_ok_iff.mpr ⟨_, shape, rfl⟩⟩

theorem membership_line {points : List (Point Float)} {x y : Float}
    (finite : Arith.isFinite x = true) (isValue : Curve.value .linear true points x = some y) :
    (line points).membership true (.number x) = .ok (some y) := by
  have shapeRates : shapeMembership (line points).shape true (.number x) = .ok (some y) := by
    change shapeMembership (.curve .linear points) true (.number x) = _
    unfold shapeMembership
    dsimp only
    rw [if_pos finite, isValue]
  unfold membership
  rw [shapeRates]
  rfl

/-- The slopes of a terrain that are flat and steep, in degrees. -/
def slopePoints : List (Point Float) :=
  [⟨5, 0⟩, ⟨30, 1⟩]

theorem membership_finite_slope :
    ofDefinition (lineDefinition slopePoints) = .ok (line slopePoints) ∧
      Arith.isFinite (12 : Float) = true ∧
      ∃ rating, (line slopePoints).membership true (.number 12) = .ok (some rating) ∧
        Arith.inUnit rating = true ∧ Arith.isNaN rating = false := by
  have compiled : ofDefinition (lineDefinition slopePoints) = .ok (line slopePoints) :=
    ofDefinition_line (by decide) (by decide +kernel) (by decide +kernel)
  have finite : Arith.isFinite (12 : Float) = true := by
    decide +kernel
  have noOverflow : Curve.overflows .linear slopePoints 12 = false := by
    decide +kernel
  have rated := membership_finite compiled rfl finite
  rw [noOverflow] at rated
  exact ⟨compiled, finite, rated⟩

/-- Points almost as far apart as doubles can be. -/
def farApart : List (Point Float) :=
  [⟨-1.7e308, 0⟩, ⟨1.7e308, 1⟩]

/-- The distance from the lower point to `1e308` is infinite, and so is the width it is divided
by. -/
theorem farApart_rates_not_a_number :
    ofDefinition (lineDefinition farApart) = .ok (line farApart) ∧
      Arith.isFinite (1e308 : Float) = true ∧
      ∃ rating, (line farApart).membership true (.number 1e308) = .ok (some rating) ∧
        Arith.isNaN rating = true ∧ Arith.inUnit rating = false := by
  have compiled : ofDefinition (lineDefinition farApart) = .ok (line farApart) :=
    ofDefinition_line (by decide) (by decide +kernel) (by decide +kernel)
  have finite : Arith.isFinite (1e308 : Float) = true := by
    decide +kernel
  have evaluated : (Curve.value .linear true farApart 1e308).any
      (fun rating => Arith.isNaN rating && !Arith.inUnit rating) = true := by
    decide +kernel
  obtain ⟨rating, isValue, outside⟩ := (Option.any_eq_true _ _).mp evaluated
  rw [Bool.and_eq_true, Bool.not_eq_true'] at outside
  exact ⟨compiled, finite, rating, membership_line finite isValue, outside⟩

end Evaluation

end FuzzyRating
