import FuzzyRating.Evaluation.Membership
import FuzzyRating.Proofs.Arith
import FuzzyRating.Proofs.Except

/-!
A compiled curve has a value everywhere: its points are finite, and the search for the points next
to a finite query stays among them.
-/

namespace FuzzyRating

variable {num : Type} [Arith num]

namespace Curve

/-! ## The search for the points next to a query -/

/-- Bisection stays inside its interval, and moves only to indices that are reached. -/
theorem bisect_spec (reached : Nat → Bool) (steps base size : Nat) (positive : 0 < size) :
    let found := bisect reached steps base size
    found < base + size ∧ (found = base ∨ reached found = true) := by
  induction steps generalizing base size with
  | zero =>
      rw [bisect]
      exact ⟨by omega, Or.inl rfl⟩
  | succ steps inductionHypothesis =>
      rw [bisect]
      by_cases short : size ≤ 1
      · rw [if_pos short]
        exact ⟨by omega, Or.inl rfl⟩
      · rw [if_neg short]
        dsimp only
        by_cases half : reached (base + size / 2) = true
        · rw [if_pos half]
          obtain ⟨below, moved⟩ :=
            inductionHypothesis (base + size / 2) (size - size / 2) (by omega)
          refine ⟨by omega, Or.inr ?_⟩
          rcases moved with stayed | isReached
          · rw [stayed]
            exact half
          · exact isReached
        · rw [if_neg half]
          obtain ⟨below, moved⟩ := inductionHypothesis base (size - size / 2) (by omega)
          exact ⟨by omega, moved⟩

/-- If an index is reached only where all indices before it are, bisection ends in front of one
that is not. -/
theorem bisect_succ_not_reached {reached : Nat → Bool}
    (isFront : ∀ i j, i ≤ j → reached j = true → reached i = true) (steps base size : Nat)
    (positive : 0 < size) (enough : size ≤ steps + 1) (ends : reached (base + size) = false) :
    reached (bisect reached steps base size + 1) = false := by
  induction steps generalizing base size with
  | zero =>
      obtain rfl : size = 1 := by omega
      exact ends
  | succ steps inductionHypothesis =>
      rw [bisect]
      by_cases short : size ≤ 1
      · obtain rfl : size = 1 := by omega
        exact ends
      · rw [if_neg short]
        dsimp only
        by_cases half : reached (base + size / 2) = true
        · rw [if_pos half]
          refine inductionHypothesis _ _ (by omega) (by omega) ?_
          rwa [show base + size / 2 + (size - size / 2) = base + size by omega]
        · rw [if_neg half]
          refine inductionHypothesis _ _ (by omega) (by omega) ?_
          -- the larger half stays, so its end lies behind the index that is not reached
          exact Bool.eq_false_iff.mpr fun endReached =>
            half (isFront _ _ (by omega) endReached)

/-- The count of points at or below a query never passes a last point above the query, and is not
zero when the first point is at or below it. -/
theorem countBelow_spec {points : List (Point num)} (nonempty : points ≠ []) (x : num) :
    countBelow points x ≤ points.length ∧
      (∀ last, points.getLast? = some last → Arith.le last.x x = false →
        countBelow points x < points.length) ∧
      (∀ first, points.head? = some first → Arith.le first.x x = true →
        0 < countBelow points x) := by
  have positive : 0 < points.length := List.length_pos_iff.mpr nonempty
  have isEmptyEq : points.isEmpty = false := by
    simpa using nonempty
  unfold countBelow
  dsimp only
  rw [isEmptyEq, if_neg Bool.false_ne_true]
  obtain ⟨below, moved⟩ := bisect_spec (fun i => points[i]?.any fun point => Arith.le point.x x)
    points.length 0 points.length positive
  rw [Nat.zero_add] at below
  split
  · next isReached =>
      refine ⟨by omega, ?_, fun _ _ _ => Nat.succ_pos _⟩
      intro last lastEq above
      rw [List.getLast?_eq_getElem?] at lastEq
      -- an index that is reached is not that of the last point
      have notLast : bisect (fun i => points[i]?.any fun point => Arith.le point.x x)
          points.length 0 points.length ≠ points.length - 1 := by
        intro isLast
        rw [isLast, lastEq] at isReached
        simp [above] at isReached
      omega
  · next notReached =>
      refine ⟨by omega, fun _ _ _ => below, ?_⟩
      intro first firstEq atOrBelow
      rw [List.head?_eq_getElem?] at firstEq
      rcases moved with stayed | isReached
      · rw [stayed, firstEq] at notReached
        simp [atOrBelow] at notReached
      · exact absurd isReached notReached

/-- Points that a query passes one after the other. -/
def Ascends (points : List (Point num)) : Prop :=
  points.Pairwise fun a b => ∀ x, Arith.le b.x x = true → Arith.le a.x x = true

/-- In front of the count are exactly the points at or below the query. -/
theorem lt_countBelow_iff {points : List (Point num)} (ascends : Ascends points) {index : Nat}
    {point : Point num} (isPoint : points[index]? = some point) (x : num) :
    index < countBelow points x ↔ Arith.le point.x x = true := by
  obtain ⟨within, pointEq⟩ := List.getElem?_eq_some_iff.mp isPoint
  have isEmptyEq : points.isEmpty = false := by
    cases points with
    | nil => cases within
    | cons => rfl
  let reached (i : Nat) : Bool := points[i]?.any fun point => Arith.le point.x x
  have isFront : ∀ i j, i ≤ j → reached j = true → reached i = true := by
    intro i j le isReached
    rcases Nat.eq_or_lt_of_le le with rfl | less
    · exact isReached
    · obtain ⟨later, laterEq, isReached⟩ := (Option.any_eq_true _ _).mp isReached
      obtain ⟨laterWithin, rfl⟩ := List.getElem?_eq_some_iff.mp laterEq
      have atOrBelow := List.pairwise_iff_getElem.mp ascends i j (by omega) laterWithin less x
        isReached
      simpa [reached, List.getElem?_eq_getElem (Nat.lt_trans less laterWithin)] using atOrBelow
  have reachedIff : reached index = true ↔ Arith.le point.x x = true := by
    simp only [reached, isPoint, Option.any_some]
  obtain ⟨_, moved⟩ := bisect_spec reached points.length 0 points.length (by omega)
  have notReached := bisect_succ_not_reached isFront points.length 0 points.length (by omega)
    (by omega) (by simp [reached])
  unfold countBelow
  dsimp only
  rw [isEmptyEq, if_neg Bool.false_ne_true, ← reachedIff]
  change index < (if reached (bisect reached _ _ _) = true then _ else _) ↔ _
  by_cases isReached : reached (bisect reached points.length 0 points.length) = true
  · rw [if_pos isReached]
    constructor
    · exact fun inFront => isFront _ _ (Nat.le_of_lt_succ inFront) isReached
    · refine fun indexReached => Nat.lt_of_not_le fun behind => ?_
      exact Bool.eq_false_iff.mp notReached (isFront _ _ behind indexReached)
  · have stayed := moved.resolve_right isReached
    rw [if_neg isReached, stayed]
    rw [stayed] at isReached
    constructor
    · exact fun inFront => absurd inFront (Nat.not_lt_zero _)
    · exact fun indexReached => absurd (isFront 0 index (Nat.zero_le _) indexReached) isReached

/-- A query that is not answered by an end is looked for between the point counted last and the one
behind it, in whatever order the points stand. -/
theorem neighbours_of_bracket {points : List (Point num)} {x : num} {index : Nat}
    {lower upper : Point num} (found : bracket points x = some (.between index lower upper)) :
    countBelow points x = index ∧ 0 < index ∧ points[index - 1]? = some lower ∧
      points[index]? = some upper := by
  unfold bracket at found
  obtain ⟨first, _, found⟩ := Option.bind_eq_some_iff.mp found
  obtain ⟨last, _, found⟩ := Option.bind_eq_some_iff.mp found
  split at found
  · cases found
  · split at found
    · cases found
    · split at found
      · cases found
      · next counted =>
          obtain ⟨lowerPoint, lowerEq, found⟩ := Option.bind_eq_some_iff.mp found
          obtain ⟨upperPoint, upperEq, found⟩ := Option.bind_eq_some_iff.mp found
          cases found
          exact ⟨counted, Nat.succ_pos _, lowerEq, upperEq⟩

/-- A query that is not answered by an end lies between neighbours, at or above the lower and below
the upper one. -/
theorem bracket_eq_between {points : List (Point num)} (ascends : Ascends points) {x : num}
    {index : Nat} {lower upper : Point num}
    (found : bracket points x = some (.between index lower upper)) :
    0 < index ∧ points[index - 1]? = some lower ∧ points[index]? = some upper ∧
      Arith.le lower.x x = true ∧ Arith.le upper.x x = false := by
  obtain ⟨counted, positive, lowerEq, upperEq⟩ := neighbours_of_bracket found
  refine ⟨positive, lowerEq, upperEq, ?_, ?_⟩
  · exact (lt_countBelow_iff ascends lowerEq x).mp (by omega)
  · exact Bool.eq_false_iff.mpr fun atOrBelow =>
      absurd ((lt_countBelow_iff ascends upperEq x).mpr atOrBelow) (by omega)

/-- A query at or before the first point is answered by it. -/
theorem bracket_of_atOrBefore {points : List (Point num)} {x : num} {first : Point num}
    (isFirst : points.head? = some first) (atOrBefore : Arith.le x first.x = true) :
    bracket points x = some (.clamped first.y) := by
  cases points with
  | nil => cases isFirst
  | cons head rest =>
      cases isFirst
      unfold bracket
      rw [List.getLast?_cons]
      exact if_pos atOrBefore

/-- A query is answered by the end that it is at or beyond. -/
theorem bracket_eq_end {points : List (Point num)} {x y : num}
    (found : bracket points x = some (.clamped y)) :
    (∃ first, points.head? = some first ∧ Arith.le x first.x = true ∧ first.y = y) ∨
      ∃ last, points.getLast? = some last ∧ Arith.le last.x x = true ∧ last.y = y := by
  unfold bracket at found
  obtain ⟨first, isFirst, found⟩ := Option.bind_eq_some_iff.mp found
  obtain ⟨last, isLast, found⟩ := Option.bind_eq_some_iff.mp found
  split at found
  · next atOrBefore =>
      cases found
      exact Or.inl ⟨first, isFirst, atOrBefore, rfl⟩
  · split at found
    · next atOrBeyond =>
        cases found
        exact Or.inr ⟨last, isLast, atOrBeyond, rfl⟩
    · split at found
      · cases found
      · obtain ⟨_, _, found⟩ := Option.bind_eq_some_iff.mp found
        obtain ⟨_, _, found⟩ := Option.bind_eq_some_iff.mp found
        cases found

/-- At or beyond an end a curve has the height of a point. -/
theorem bracket_eq_clamped {points : List (Point num)} {x y : num}
    (found : bracket points x = some (.clamped y)) :
    ∃ point ∈ points, point.y = y := by
  rcases bracket_eq_end found with ⟨first, isFirst, _, yEq⟩ | ⟨last, isLast, _, yEq⟩
  · exact ⟨first, List.mem_of_mem_head? isFirst, yEq⟩
  · exact ⟨last, List.mem_of_mem_getLast? isLast, yEq⟩

/-! ## Curves through finite points -/

section Value

variable {points : List (Point num)} {x : num}

theorem step_isSome (nonempty : points ≠ []) :
    (step points x).isSome = true := by
  obtain ⟨atMost, _, _⟩ := countBelow_spec nonempty x
  unfold step
  cases points with
  | nil => exact absurd rfl nonempty
  | cons first rest =>
      cases counted : countBelow (first :: rest) x with
      | zero => rfl
      | succ index =>
          have within : index < (first :: rest).length := by
            omega
          simp [List.getElem?_eq_getElem within]

theorem bracket_isSome [FiniteOrder num] (nonempty : points ≠ [])
    (finite : ∀ point ∈ points, Arith.isFinite point.x = true)
    (queryFinite : Arith.isFinite x = true) :
    (bracket points x).isSome = true := by
  obtain ⟨first, firstEq⟩ : ∃ first, points.head? = some first :=
    ⟨points.head nonempty, List.head?_eq_some_head nonempty⟩
  obtain ⟨last, lastEq⟩ : ∃ last, points.getLast? = some last :=
    ⟨points.getLast nonempty, List.getLast?_eq_some_getLast nonempty⟩
  obtain ⟨_, beforeLast, afterFirst⟩ := countBelow_spec nonempty x
  unfold bracket
  rw [firstEq, lastEq]
  simp only [Option.bind_eq_bind, Option.bind_some]
  by_cases belowFirst : Arith.le x first.x = true
  · rw [if_pos belowFirst]
    rfl
  · rw [if_neg belowFirst]
    by_cases aboveLast : Arith.le last.x x = true
    · rw [if_pos aboveLast]
      rfl
    · rw [if_neg aboveLast]
      have firstBelow : Arith.le first.x x = true :=
        (FiniteOrder.le_total x first.x queryFinite
          (finite first (List.mem_of_mem_head? firstEq))).resolve_left belowFirst
      have notAll := beforeLast last lastEq (by simpa using aboveLast)
      have notNone := afterFirst first firstEq firstBelow
      cases counted : countBelow points x with
      | zero => omega
      | succ index =>
          have lowerIn : index < points.length := by
            omega
          have upperIn : index + 1 < points.length := by
            omega
          simp [List.getElem?_eq_getElem lowerIn, List.getElem?_eq_getElem upperIn]

theorem value_isSome [FiniteOrder num] (method : Interpolation) (clamp : Bool)
    (nonempty : points ≠ []) (finite : ∀ point ∈ points, Arith.isFinite point.x = true)
    (queryFinite : Arith.isFinite x = true) :
    (value method clamp points x).isSome = true := by
  have bracketed := bracket_isSome nonempty finite queryFinite
  obtain ⟨found, foundEq⟩ := Option.isSome_iff_exists.mp bracketed
  have linearSome : (linear points x).isSome = true := by
    unfold linear
    rw [foundEq]
    cases found <;> rfl
  cases method with
  | linear => exact linearSome
  | sigmoid => exact linearSome
  | step => exact step_isSome nonempty
  | spline =>
      unfold value spline
      rw [foundEq]
      cases found <;> rfl

end Value

end Curve

/-! ## Compiled evaluations -/

namespace Evaluation

/-- What holds of the points of a compiled curve. -/
def SoundShape : Shape num → Prop
  | .crisp _ _ => True
  | .curve _ points => points ≠ [] ∧ ∀ point ∈ points, Arith.isFinite point.x = true

/-- The points of a compiled curve are at least two usable ones, sorted. -/
theorem compilePoints_eq_ok {definition : EvaluationDefinition num} {method : Interpolation}
    {points : List (Point num)} (compiled : compilePoints definition method = .ok points) :
    ∃ given, givenPoints definition method = .ok given ∧ 2 ≤ given.length ∧
      (∀ point ∈ given, isUsable point = true) ∧ points = Curve.sortPoints given := by
  unfold compilePoints at compiled
  obtain ⟨given, givenEq, checks⟩ := bind_eq_ok_iff.mp compiled
  dsimp only at checks
  by_cases tooFew : given.length < 2
  · rw [if_pos tooFew] at checks
    cases checks
  · rw [if_neg tooFew] at checks
    split at checks
    · cases checks
    · next allUsable =>
        cases checks
        refine ⟨given, givenEq, Nat.le_of_not_lt tooFew, ?_, rfl⟩
        simpa using List.find?_eq_none.mp allUsable

theorem compilePoints_of_usable {definition : EvaluationDefinition num} {method : Interpolation}
    {given : List (Point num)} (isGiven : givenPoints definition method = .ok given)
    (enough : 2 ≤ given.length) (allUsable : ∀ point ∈ given, isUsable point = true) :
    compilePoints definition method = .ok (Curve.sortPoints given) := by
  have noneUnusable : (given.find? fun point => !isUsable point) = none := by
    simpa using allUsable
  unfold compilePoints
  rw [isGiven]
  change (if given.length < 2 then _ else _) = _
  rw [if_neg (Nat.not_lt.mpr enough), noneUnusable]
  rfl

/-- Usable points that are sorted already are compiled as they are. -/
theorem compilePoints_of_sorted {definition : EvaluationDefinition num} {method : Interpolation}
    {points : List (Point num)} (given : givenPoints definition method = .ok points)
    (enough : 2 ≤ points.length) (usable : ∀ point ∈ points, isUsable point = true)
    (sorted : points.Pairwise fun a b => Arith.totalLe a.x b.x = true) :
    compilePoints definition method = .ok points := by
  have keeps : Curve.sortPoints points = points := List.mergeSort_of_pairwise sorted
  rw [compilePoints_of_usable given enough usable, keeps]

/-- A compiled evaluation has an expression, or a compiled curve. -/
theorem ofDefinition_eq_ok {definition : EvaluationDefinition num} {evaluation : Evaluation num}
    (compiled : ofDefinition definition = .ok evaluation) :
    (∃ source expression, evaluation.shape = .crisp source expression) ∨
      ∃ method points, evaluation.shape = .curve method points ∧
        compilePoints definition method = .ok points := by
  unfold ofDefinition at compiled
  obtain ⟨kind, _, shapeStep⟩ := bind_eq_ok_iff.mp compiled
  obtain ⟨shape, shapeEq, evaluationEq⟩ := bind_eq_ok_iff.mp shapeStep
  cases evaluationEq
  unfold compileShape at shapeEq
  split at shapeEq
  · split at shapeEq
    · cases shapeEq
    · split at shapeEq <;> cases shapeEq
      exact Or.inl ⟨_, _, rfl⟩
  · obtain ⟨points, pointsEq, curveEq⟩ := bind_eq_ok_iff.mp shapeEq
    cases curveEq
    exact Or.inr ⟨_, points, rfl, pointsEq⟩

theorem compilePoints_of_shape {definition : EvaluationDefinition num}
    {evaluation : Evaluation num} {method : Interpolation} {points : List (Point num)}
    (compiled : ofDefinition definition = .ok evaluation)
    (shape : evaluation.shape = .curve method points) :
    compilePoints definition method = .ok points := by
  rcases ofDefinition_eq_ok compiled with ⟨_, _, isCrisp⟩ | ⟨_, _, isCurve, pointsEq⟩
  · rw [shape] at isCrisp
    cases isCrisp
  · rw [shape] at isCurve
    cases isCurve
    exact pointsEq

/-- A curve is compiled from its points alone, and inversion and the points can be changed without
changing anything else. -/
theorem ofDefinition_redrawn {definition : EvaluationDefinition num} {evaluation : Evaluation num}
    {method : Interpolation} {sorted redrawn : List (Point num)}
    (compiled : ofDefinition definition = .ok evaluation)
    (isCurve : evaluation.shape = .curve method sorted) {invert : Bool}
    {points : Option (List (Point num))} {domain : Option (List num)}
    (pointsEq : compilePoints { definition with invert, points, domain } method = .ok redrawn) :
    ofDefinition { definition with invert, points, domain } =
      .ok { evaluation with invert, shape := .curve method redrawn } := by
  unfold ofDefinition at compiled ⊢
  obtain ⟨kind, kindEq, shapeStep⟩ := bind_eq_ok_iff.mp compiled
  obtain ⟨shape, shapeEq, evaluationEq⟩ := bind_eq_ok_iff.mp shapeStep
  cases evaluationEq
  obtain rfl : shape = .curve method sorted := isCurve
  refine bind_eq_ok_iff.mpr ⟨kind, kindEq, bind_eq_ok_iff.mpr ⟨.curve method redrawn, ?_, rfl⟩⟩
  unfold compileShape at shapeEq ⊢
  split at shapeEq
  · split at shapeEq
    · cases shapeEq
    · split at shapeEq <;> cases shapeEq
  · obtain ⟨_, _, curveEq⟩ := bind_eq_ok_iff.mp shapeEq
    cases curveEq
    exact bind_eq_ok_iff.mpr ⟨redrawn, pointsEq, rfl⟩

theorem invert_of_compiled {definition : EvaluationDefinition num} {evaluation : Evaluation num}
    (compiled : ofDefinition definition = .ok evaluation) :
    evaluation.invert = definition.invert := by
  unfold ofDefinition at compiled
  obtain ⟨_, _, shapeStep⟩ := bind_eq_ok_iff.mp compiled
  obtain ⟨_, _, evaluationEq⟩ := bind_eq_ok_iff.mp shapeStep
  cases evaluationEq
  rfl

theorem compilePoints_sound {definition : EvaluationDefinition num} {method : Interpolation}
    {points : List (Point num)} (compiled : compilePoints definition method = .ok points) :
    points ≠ [] ∧ ∀ point ∈ points, Arith.isFinite point.x = true := by
  obtain ⟨given, _, enough, allUsable, rfl⟩ := compilePoints_eq_ok compiled
  have samePoints : (Curve.sortPoints given).Perm given := List.mergeSort_perm _ _
  constructor
  · intro isEmpty
    have sameLength := samePoints.length_eq
    rw [isEmpty, List.length_nil] at sameLength
    omega
  · intro point member
    have usable := allUsable point (samePoints.mem_iff.mp member)
    simp only [isUsable, Bool.and_eq_true] at usable
    exact usable.1.1

theorem ofDefinition_sound {definition : EvaluationDefinition num} {evaluation : Evaluation num}
    (compiled : ofDefinition definition = .ok evaluation) :
    SoundShape evaluation.shape := by
  rcases ofDefinition_eq_ok compiled with ⟨_, _, shape⟩ | ⟨_, _, shape, pointsEq⟩
  · rw [shape]
    trivial
  · rw [shape]
    exact compilePoints_sound pointsEq

/-- A compiled evaluation never lacks points: it rates a value, or refuses it. -/
theorem membership_ne_noPoints [FiniteOrder num] {evaluation : Evaluation num}
    (sound : SoundShape evaluation.shape) (clamp : Bool) (value : PropertyValue num) :
    evaluation.membership clamp value ≠ .error .noPoints := by
  have shapeSound : shapeMembership evaluation.shape clamp value ≠ .error .noPoints := by
    cases shape : evaluation.shape with
    | crisp source expression =>
        cases value with
        | null => simp [shapeMembership]
        | text value => simp [shapeMembership]
        | number x =>
            simp only [shapeMembership]
            split <;> simp
    | curve method points =>
        rw [shape] at sound
        cases value with
        | null => simp [shapeMembership]
        | text value => simp [shapeMembership]
        | number x =>
            simp only [shapeMembership]
            split
            · next finite =>
                have hasValue := Curve.value_isSome method clamp sound.1 sound.2 finite
                obtain ⟨y, valueEq⟩ := Option.isSome_iff_exists.mp hasValue
                simp [valueEq]
            · simp
  unfold membership
  intro failed
  cases result : shapeMembership evaluation.shape clamp value with
  | error error =>
      rw [result] at failed
      cases failed
      exact shapeSound result
  | ok rating =>
      rw [result] at failed
      cases failed

end Evaluation

end FuzzyRating
