import FuzzyRating.Proofs.Exact.Rating

/-!
Two ways to say the opposite of an evaluation: to invert its rating, or to author the complement.
Computed exactly they are one. A curve drawn through the complements of its points is the
complement of the curve, and the complement of a verdict is that of the negated expression.
-/

namespace FuzzyRating

section Authoring

variable {num : Type} [Arith num]

/-- The point that is as far below one as this one is above zero. -/
def Point.complement (point : Point num) : Point num :=
  ⟨point.x, Arith.one - point.y⟩

/-- The complements of the ends of a segment, or of the height at an end. -/
def Curve.Bracket.complement : Curve.Bracket num → Curve.Bracket num
  | .clamped y => .clamped (Arith.one - y)
  | .between index lower upper => .between index lower.complement upper.complement

namespace EvaluationDefinition

/-- The definition with its rating inverted. -/
def inverted (definition : EvaluationDefinition num) : EvaluationDefinition num :=
  { definition with invert := true }

/-- The definition through the complements of its points, not inverted. -/
def complemented (definition : EvaluationDefinition num) : EvaluationDefinition num :=
  { definition with
    invert := false
    points := definition.points.map fun points => points.map Point.complement }

end EvaluationDefinition

namespace Evaluation

/-- The evaluation by the negated expression, not inverted. -/
def negated (evaluation : Evaluation num) (source : String) (expression : Crisp.Expr num) :
    Evaluation num :=
  { evaluation with invert := false, shape := .crisp source (.not expression) }

/-- What a value comes to, a rating or the error that is reported. -/
def outcome (evaluation : Evaluation num) (clamp : Bool) (value : PropertyValue num) :
    Except (AssessmentError num) (Option num) :=
  (evaluation.membership clamp value).mapError evaluation.assessmentError

/-- A subject is rated by what the value of its property comes to. -/
theorem assessEvaluation_eq (catalog : Catalog num) (evaluation : Evaluation num)
    (ctx : Context num) :
    let value := ctx.data.valueOf catalog evaluation.propertyName
    assessEvaluation catalog evaluation ctx =
      ((evaluation.outcome ctx.options.clampSpline value).map .ofRating,
        ctx.recordValue evaluation.propertyName value) := by
  intro value
  have sameOptions : (ctx.recordValue evaluation.propertyName value).options = ctx.options := rfl
  unfold assessEvaluation outcome
  dsimp only
  rw [sameOptions]
  cases evaluation.membership ctx.options.clampSpline value <;> rfl

end Evaluation

/-! ## Where a query lies -/

namespace Curve

/-- Points are sorted and searched by their places alone. -/
theorem sortPoints_complement (points : List (Point num)) :
    sortPoints (points.map Point.complement) = (sortPoints points).map Point.complement := by
  let atOrBefore (a b : Point num) : Bool := Arith.totalLe a.x b.x
  have samePlaces : ∀ a ∈ points, ∀ b ∈ points,
      atOrBefore a b = atOrBefore a.complement b.complement :=
    fun _ _ _ _ => rfl
  exact (List.map_mergeSort samePlaces).symm

theorem countBelow_complement (points : List (Point num)) (x : num) :
    countBelow (points.map Point.complement) x = countBelow points x := by
  have sameReached : (fun i : Nat => (points.map Point.complement)[i]?.any fun point =>
      Arith.le point.x x) = fun i => points[i]?.any fun point => Arith.le point.x x := by
    funext i
    rw [List.getElem?_map, Option.any_map]
    rfl
  unfold countBelow
  rw [sameReached, List.isEmpty_map, List.length_map]

theorem bracket_complement (points : List (Point num)) (x : num) :
    bracket (points.map Point.complement) x = (bracket points x).map Bracket.complement := by
  unfold bracket
  rw [List.head?_map, List.getLast?_map, countBelow_complement]
  cases points.head? with
  | none => rfl
  | some first =>
      cases points.getLast? with
      | none => rfl
      | some last =>
          simp only [Option.map_some, Option.bind_eq_bind, Option.bind_some, Point.complement]
          split
          · rfl
          · split
            · rfl
            · cases countBelow points x with
              | zero => rfl
              | succ index =>
                  simp only [List.getElem?_map]
                  cases points[index]? with
                  | none => rfl
                  | some lower =>
                      cases points[index + 1]? with
                      | none => rfl
                      | some upper => rfl

end Curve

end Authoring

open Exact

variable {scalar : Type} [Field scalar] [LinearOrder scalar] {power : scalar → scalar → scalar}

/-! ## Curves through complements -/

namespace Curve

theorem tangent_complement {points : List (Point (Exact power))}
    (numbers : ∀ point ∈ points, ∃ x y : scalar, point = ⟨number x, number y⟩) (index : Nat) :
    tangent (points.map Point.complement) index = -tangent points index := by
  unfold tangent
  rw [List.getElem?_map, List.getElem?_map, List.getElem?_map, ← Option.map_or]
  cases beforeEq : points[index - 1]? with
  | none => simp
  | some before =>
      cases afterEq : points[index + 1]?.or points[index]? with
      | none => simp
      | some after =>
          obtain ⟨beforeX, beforeY, rfl⟩ := numbers before (List.mem_of_getElem? beforeEq)
          obtain ⟨afterX, afterY, rfl⟩ := numbers after (mem_of_getElem?_or afterEq)
          simp only [Option.map_some, Point.complement, one_eq, number_sub, lt_number,
            decide_eq_true_eq]
          split
          · next less =>
              have notZero : afterX - beforeX ≠ 0 := sub_ne_zero.mpr less.ne'
              rw [number_div _ notZero, number_div _ notZero, number_neg]
              congr 1
              ring
          · simp

theorem hermite_complement {lowerX upperX : scalar} (less : lowerX < upperX)
    (lowerY upperY slope₀ slope₁ x : scalar) :
    hermite (Point.complement ⟨number lowerX, number lowerY⟩)
        (Point.complement ⟨number upperX, number upperY⟩) (-number slope₀) (-number slope₁)
        (number x : Exact power) =
      Arith.one - hermite ⟨number lowerX, number lowerY⟩ ⟨number upperX, number upperY⟩
        (number slope₀) (number slope₁) (number x) := by
  unfold hermite
  simp only [Point.complement, number_sub, ofNat_eq, one_eq, number_neg]
  rw [number_div _ (sub_ne_zero.mpr less.ne')]
  simp only [number_add, number_sub, number_mul]
  congr 1
  push_cast
  ring

variable {points : List (Point (Exact power))} {x : scalar}

theorem linear_complement (ascends : Ascends points) (usable : ∀ point ∈ points, Usable point) :
    linear (points.map Point.complement) (number x) =
      (linear points (number x)).map (Arith.one - ·) := by
  unfold linear
  rw [bracket_complement]
  cases found : bracket points (number x) with
  | none => rfl
  | some place =>
      cases place with
      | clamped y => rfl
      | between index lower upper =>
          obtain ⟨lowerX, lowerY, upperX, upperY, rfl, rfl, atOrAbove, below, _, _⟩ :=
            exists_ends ascends usable found
          have less := atOrAbove.trans_lt below
          simp only [Option.map_some, Bracket.complement, Point.complement, one_eq,
            number_sub (1 : scalar)]
          rw [number_segment less, number_segment less, number_sub]
          congr 2
          ring

theorem step_complement (points : List (Point (Exact power))) (x : Exact power) :
    step (points.map Point.complement) x = (step points x).map (Arith.one - ·) := by
  unfold step
  rw [List.head?_map, countBelow_complement]
  cases points.head? with
  | none => rfl
  | some first =>
      cases countBelow points x with
      | zero => rfl
      | succ index =>
          simp only [Option.map_some, List.getElem?_map, Option.map_map]
          rfl

variable [IsStrictOrderedRing scalar]

/-- Bounding to the unit interval is symmetric about its middle. -/
theorem clampUnit_complement (a : scalar) :
    Arith.clampUnit (Arith.one - number a : Exact power) =
      Arith.one - Arith.clampUnit (number a) := by
  have belowIff : 1 < 1 - a ↔ a < 0 := by
    rw [lt_sub_comm, sub_self]
  unfold Arith.clampUnit
  simp only [zero_eq, one_eq, number_sub, lt_number, decide_eq_true_eq, sub_neg, belowIff]
  by_cases below : a < 0
  · have notBeyond : ¬ 1 < a := (below.trans zero_lt_one).not_gt
    simp [below, notBeyond]
  · by_cases beyond : 1 < a
    · simp [below, beyond]
    · simp [below, beyond]

theorem spline_complement (clamp : Bool) (ascends : Ascends points)
    (usable : ∀ point ∈ points, Usable point) :
    spline clamp (points.map Point.complement) (number x) =
      (spline clamp points (number x)).map (Arith.one - ·) := by
  unfold spline
  rw [bracket_complement]
  cases found : bracket points (number x) with
  | none => rfl
  | some place =>
      cases place with
      | clamped y => rfl
      | between index lower upper =>
          obtain ⟨lowerX, lowerY, upperX, upperY, rfl, rfl, atOrAbove, below, _, _⟩ :=
            exists_ends ascends usable found
          have less := atOrAbove.trans_lt below
          have numbers := fun point member => (usable point member).exists_numbers
          obtain ⟨slope₀, slope₀Eq⟩ := exists_tangent numbers (index - 1)
          obtain ⟨slope₁, slope₁Eq⟩ := exists_tangent numbers index
          obtain ⟨height, heightEq⟩ := exists_hermite less lowerY upperY slope₀ slope₁ x
          simp only [Option.map_some, Bracket.complement]
          rw [tangent_complement numbers, tangent_complement numbers, slope₀Eq, slope₁Eq,
            hermite_complement less, heightEq]
          cases clamp with
          | false => rfl
          | true => exact congrArg some (clampUnit_complement height)

/-- A curve through the complements of its points is the complement of the curve. -/
theorem value_complement (method : Interpolation) (clamp : Bool) (ascends : Ascends points)
    (usable : ∀ point ∈ points, Usable point) :
    value method clamp (points.map Point.complement) (number x) =
      (value method clamp points (number x)).map (Arith.one - ·) := by
  cases method with
  | linear => exact linear_complement ascends usable
  | sigmoid => exact linear_complement ascends usable
  | step => exact step_complement points (number x)
  | spline => exact spline_complement clamp ascends usable

end Curve

/-! ## Evaluations -/

namespace Evaluation

theorem isUsable_complement [IsStrictOrderedRing scalar] {point : Point (Exact power)}
    (usable : isUsable point = true) :
    isUsable point.complement = true := by
  obtain ⟨nonneg, atMostOne⟩ := usable_of_isUsable usable
  have inUnit : (Arith.one - number _ : Exact power).InUnit :=
    (InUnit.number nonneg atMostOne).complement
  simp only [isUsable, Bool.and_eq_true]
  exact ⟨⟨rfl, rfl⟩, inUnit_iff.mpr inUnit⟩

/-- Whether its rating is inverted plays no part in compiling a definition. -/
theorem ofDefinition_inverted {definition : EvaluationDefinition (Exact power)}
    {evaluation : Evaluation (Exact power)} (compiled : ofDefinition definition = .ok evaluation) :
    ofDefinition definition.inverted = .ok { evaluation with invert := true } := by
  unfold ofDefinition at compiled ⊢
  obtain ⟨kind, kindEq, shapeStep⟩ := bind_eq_ok_iff.mp compiled
  obtain ⟨shape, shapeEq, evaluationEq⟩ := bind_eq_ok_iff.mp shapeStep
  cases evaluationEq
  exact bind_eq_ok_iff.mpr ⟨kind, kindEq, bind_eq_ok_iff.mpr ⟨shape, shapeEq, rfl⟩⟩

section Complemented

variable [IsStrictOrderedRing scalar] {definition : EvaluationDefinition (Exact power)}
  {method : Interpolation} {points sorted : List (Point (Exact power))}

/-- The complements of usable points are usable and sorted alike. -/
theorem compilePoints_complemented (given : definition.points = some points)
    (compiled : compilePoints definition method = .ok sorted) :
    compilePoints definition.complemented method = .ok (sorted.map Point.complement) := by
  obtain ⟨_, givenEq, enough, allUsable, rfl⟩ := compilePoints_eq_ok compiled
  unfold givenPoints at givenEq
  rw [given] at givenEq
  cases givenEq
  have complementsGiven : givenPoints definition.complemented method =
      .ok (points.map Point.complement) := by
    unfold givenPoints EvaluationDefinition.complemented
    rw [given]
    rfl
  rw [← Curve.sortPoints_complement]
  refine compilePoints_of_usable complementsGiven (by rwa [List.length_map]) ?_
  intro _ member
  obtain ⟨point, isGiven, rfl⟩ := List.mem_map.mp member
  exact isUsable_complement (allUsable point isGiven)

theorem ofDefinition_complemented (given : definition.points = some points)
    {evaluation : Evaluation (Exact power)} (compiled : ofDefinition definition = .ok evaluation)
    (isCurve : evaluation.shape = .curve method sorted) :
    ofDefinition definition.complemented =
      .ok { evaluation with
        invert := false
        shape := .curve method (sorted.map Point.complement) } := by
  exact ofDefinition_redrawn compiled isCurve
    (compilePoints_complemented given (compilePoints_of_shape compiled isCurve))

end Complemented

/-! ## Ratings -/

/-- The complement of a verdict is that of the negated expression. -/
theorem shapeMembership_not (source : String) (expression : Crisp.Expr (Exact power)) (clamp : Bool)
    (subject : PropertyValue (Exact power)) :
    shapeMembership (.crisp source (.not expression)) clamp subject =
      (shapeMembership (.crisp source expression) clamp subject).map
        (Option.map (Arith.one - ·)) := by
  have verdict : (if (Crisp.Expr.not expression).holds subject then Arith.one else Arith.zero) =
      (Arith.one - if expression.holds subject then Arith.one else Arith.zero : Exact power) := by
    rw [Crisp.Expr.holds]
    cases expression.holds subject <;> simp
  cases subject with
  | null => rfl
  | text =>
      simp only [shapeMembership, verdict]
      rfl
  | number x =>
      simp only [shapeMembership, verdict]
      split <;> rfl

theorem shapeMembership_complement [IsStrictOrderedRing scalar]
    {points : List (Point (Exact power))} (ascends : Curve.Ascends points)
    (usable : ∀ point ∈ points, Curve.Usable point) (method : Interpolation) (clamp : Bool)
    (subject : PropertyValue (Exact power)) :
    shapeMembership (.curve method (points.map Point.complement)) clamp subject =
      (shapeMembership (.curve method points) clamp subject).map
        (Option.map (Arith.one - ·)) := by
  cases subject with
  | null => rfl
  | text => rfl
  | number x =>
      cases x with
      | notANumber => rfl
      | number x =>
          simp only [shapeMembership, Curve.value_complement method clamp ascends usable]
          cases Curve.value method clamp points (number x) <;> rfl

/-- Inverting does what a shape does that rates the same values by the complements. -/
theorem outcome_inverted {evaluation : Evaluation (Exact power)} {shape : Shape (Exact power)}
    (sameRatable : shape.ratable = evaluation.shape.ratable) {clamp : Bool}
    {subject : PropertyValue (Exact power)}
    (complements : shapeMembership shape clamp subject =
      (shapeMembership evaluation.shape clamp subject).map (Option.map (Arith.one - ·))) :
    outcome { evaluation with invert := true } clamp subject =
      outcome { evaluation with invert := false, shape } clamp subject := by
  have sameErrors : assessmentError { evaluation with invert := true } =
      assessmentError { evaluation with invert := false, shape } := by
    funext error
    cases error with
    | invalidValue found =>
        unfold assessmentError
        rw [sameRatable]
    | noPoints => rfl
  unfold outcome membership
  rw [sameErrors, complements]
  cases shapeMembership evaluation.shape clamp subject <;> rfl

/-- To invert a rating is to author the complement: the curve through the complements of the given
points, or the negated expression. -/
theorem inverted_outcome [IsStrictOrderedRing scalar]
    {definition : EvaluationDefinition (Exact power)} {evaluation : Evaluation (Exact power)}
    (compiled : ofDefinition definition = .ok evaluation) :
    ∃ inverted, ofDefinition definition.inverted = .ok inverted ∧
      (∀ points method sorted, definition.points = some points →
        evaluation.shape = .curve method sorted →
        ∃ complemented, ofDefinition definition.complemented = .ok complemented ∧
          ∀ clamp subject, inverted.outcome clamp subject = complemented.outcome clamp subject) ∧
      ∀ source expression, evaluation.shape = .crisp source expression →
        ∀ clamp subject, inverted.outcome clamp subject =
          (evaluation.negated source expression).outcome clamp subject := by
  refine ⟨_, ofDefinition_inverted compiled, ?_, ?_⟩
  · intro points method sorted given isCurve
    refine ⟨_, ofDefinition_complemented given compiled isCurve, fun clamp subject => ?_⟩
    obtain ⟨ascends, usable⟩ := compilePoints_usable (compilePoints_of_shape compiled isCurve)
    apply outcome_inverted
    · rw [isCurve]
      rfl
    · rw [isCurve]
      exact shapeMembership_complement ascends usable method clamp subject
  · intro source expression isCrisp clamp subject
    apply outcome_inverted
    · rw [isCrisp]
      rfl
    · rw [isCrisp]
      exact shapeMembership_not source expression clamp subject

/-- How steep a slope is, by a smooth curve through points in no order, two of them at one
place. -/
def slopeSteep : EvaluationDefinition (Exact wholePower) where
  id := "e1"
  name := "Slope Steep"
  propertyName := "slope"
  kind := "spline"
  invert := false
  points := some [⟨number 2, number 1⟩, ⟨number 0, number 0⟩, ⟨number 1, number 0⟩,
    ⟨number 1, number (1 / 2)⟩]
  domain := none
  interpolation := none
  crispExpression := none

/-- Whether a slope is sheer. -/
def slopeSheer : EvaluationDefinition (Exact wholePower) where
  id := "e2"
  name := "Slope Sheer"
  propertyName := "slope"
  kind := "crisp"
  invert := true
  points := none
  domain := none
  interpolation := none
  crispExpression := some "> 7.5"

theorem ofDefinition_slopeSteep :
    ofDefinition slopeSteep =
      .ok ⟨"e1", "Slope Steep", "slope", .curve .spline, false,
        .curve .spline [⟨number 0, number 0⟩, ⟨number 1, number 0⟩, ⟨number 1, number (1 / 2)⟩,
          ⟨number 2, number 1⟩]⟩ := by
  have kindName : (readKind slopeSteep.kind :
      Except (DefinitionError (Exact wholePower)) _).toOption = some (.curve .spline) := by
    decide +kernel
  have pointsEq : compilePoints slopeSteep .spline = .ok (Curve.sortPoints _) :=
    compilePoints_of_usable rfl (by decide) (by decide +kernel)
  have inOrder : Curve.sortPoints [⟨number 2, number 1⟩, ⟨number 0, number 0⟩,
      ⟨number 1, number 0⟩, ⟨number 1, number (1 / 2)⟩] =
      ([⟨number 0, number 0⟩, ⟨number 1, number 0⟩, ⟨number 1, number (1 / 2)⟩,
        ⟨number 2, number 1⟩] : List (Point (Exact wholePower))) := by
    simp [Curve.sortPoints, List.mergeSort, List.MergeSort.Internal.splitInTwo]
  rw [inOrder] at pointsEq
  exact bind_eq_ok_iff.mpr ⟨_, eq_ok_of_toOption kindName,
    bind_eq_ok_iff.mpr ⟨_, bind_eq_ok_iff.mpr ⟨_, pointsEq, rfl⟩, rfl⟩⟩

theorem inverted_outcome_slope :
    (∃ inverted complemented, ofDefinition slopeSteep.inverted = .ok inverted ∧
      ofDefinition slopeSteep.complemented = .ok complemented ∧
      (∀ clamp subject, inverted.outcome clamp subject = complemented.outcome clamp subject) ∧
      (complemented.outcome false (.number (number (1 / 2)))).toOption =
        some (some (number (17 / 16)))) ∧
    ∃ evaluation inverted source expression, ofDefinition slopeSheer = .ok evaluation ∧
      ofDefinition slopeSheer.inverted = .ok inverted ∧
      evaluation.shape = .crisp source expression ∧
      (∀ clamp subject, inverted.outcome clamp subject =
        (evaluation.negated source expression).outcome clamp subject) ∧
      (inverted.outcome true (.number (number 8))).toOption = some (some (number 0)) := by
  constructor
  · obtain ⟨inverted, isInverted, curves, _⟩ := inverted_outcome ofDefinition_slopeSteep
    obtain ⟨complemented, isComplemented, same⟩ := curves _ _ _ rfl rfl
    refine ⟨inverted, complemented, isInverted, isComplemented, same, ?_⟩
    rw [ofDefinition_complemented rfl ofDefinition_slopeSteep rfl] at isComplemented
    cases isComplemented
    decide +kernel
  · have rated : ((ofDefinition slopeSheer).toOption.bind fun evaluation =>
        (ofDefinition slopeSheer.inverted).toOption.map fun inverted =>
          (evaluation.shape.ratable,
            (inverted.outcome true (.number (number 8))).toOption)) =
        some (.numberOrText, some (some (number 0))) := by
      decide +kernel
    simp only [Option.bind_eq_some_iff, Option.map_eq_some_iff, Prod.mk.injEq] at rated
    obtain ⟨evaluation, compiled, inverted, invertedEq, ratable, rated⟩ := rated
    have compiled := eq_ok_of_toOption compiled
    obtain ⟨_, isInverted, _, crisp⟩ := inverted_outcome compiled
    rw [eq_ok_of_toOption invertedEq] at isInverted
    cases isInverted
    rcases ofDefinition_eq_ok compiled with ⟨source, expression, isCrisp⟩ | ⟨_, _, isCurve, _⟩
    · exact ⟨evaluation, inverted, source, expression, compiled, eq_ok_of_toOption invertedEq,
        isCrisp, crisp source expression isCrisp, rated⟩
    · rw [isCurve] at ratable
      cases ratable

end Evaluation

end FuzzyRating
