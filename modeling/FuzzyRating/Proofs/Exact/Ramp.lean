import FuzzyRating.Proofs.Exact.BrokenLine

/-!
Sigmoids given by their domain alone, computed exactly. They rise from zero at the least to one at the
greatest value, and at a value that stands alone to the share of the others that are less.
-/

namespace FuzzyRating

open Exact

variable {scalar : Type} [Field scalar] [LinearOrder scalar] {power : scalar → scalar → scalar}

namespace Curve

/-! ## The points of a ramp -/

/-- Values in order, at heights that divide the unit interval evenly. -/
def rampPoints (sorted : List scalar) : List (Point scalar) :=
  sorted.mapIdx fun i x => ⟨x, (i : scalar) / (max (sorted.length - 1) 1 : Nat)⟩

section Ramp

variable {sorted : List scalar}

omit [LinearOrder scalar]

@[simp]
theorem length_rampPoints : (rampPoints sorted).length = sorted.length :=
  List.length_mapIdx

theorem getElem?_rampPoints (index : Nat) :
    (rampPoints sorted)[index]? = sorted[index]?.map fun x =>
      ⟨x, (index : scalar) / (max (sorted.length - 1) 1 : Nat)⟩ :=
  List.getElem?_mapIdx

theorem isPoint_rampPoints {index : Nat} {value : scalar} (isValue : sorted[index]? = some value) :
    (rampPoints sorted)[index]? =
      some ⟨value, (index : scalar) / (max (sorted.length - 1) 1 : Nat)⟩ := by
  rw [getElem?_rampPoints, isValue]
  rfl

theorem map_x_rampPoints (sorted : List scalar) : (rampPoints sorted).map Point.x = sorted := by
  refine List.ext_getElem? fun index => ?_
  rw [List.getElem?_map, getElem?_rampPoints, Option.map_map]
  exact Option.map_id_apply

end Ramp

theorem ascending_rampPoints {sorted : List scalar} (inOrder : sorted.Pairwise (· ≤ ·)) :
    Ascending (rampPoints sorted) := by
  refine List.pairwise_map.mp ?_
  rwa [map_x_rampPoints]

variable (power) in
/-- A domain is spread over a ramp of its values in order. -/
theorem exists_sigmoidPoints [IsStrictOrderedRing scalar] (values : List scalar) :
    ∃ sorted : List scalar, sorted.Perm values ∧ sorted.Pairwise (· ≤ ·) ∧
      sigmoidPoints (values.map number) =
        ((rampPoints sorted).map Point.exact : List (Point (Exact power))) := by
  let atMost (a b : scalar) : Bool := decide (a ≤ b)
  refine ⟨values.mergeSort atMost, List.mergeSort_perm _ _, ?_, ?_⟩
  · exact pairwise_mergeSort_key id values
  · have sameOrder : ∀ a ∈ values, ∀ b ∈ values,
        atMost a b = Arith.totalLe (number a : Exact power) (number b) :=
      fun _ _ _ _ => rfl
    have steps : ((max ((values.mergeSort atMost).length - 1) 1 : Nat) : scalar) ≠ 0 :=
      Nat.cast_ne_zero.mpr (by omega)
    unfold sigmoidPoints
    rw [← List.map_mergeSort sameOrder]
    refine List.ext_getElem? fun index => ?_
    rw [List.getElem?_mapIdx, List.getElem?_map, List.getElem?_map, getElem?_rampPoints,
      Option.map_map, Option.map_map, List.length_map, ofNat_eq]
    refine congrArg (Option.map · _) (funext fun x => ?_)
    simp only [Function.comp_apply, Point.exact, ofNat_eq, number_div _ steps]

/-- The order of a domain plays no part in the points it is spread over. -/
theorem sigmoidPoints_perm {domain reordered : List (Exact power)} (same : reordered.Perm domain) :
    sigmoidPoints reordered = sigmoidPoints domain := by
  unfold sigmoidPoints
  rw [mergeSort_eq_of_perm totalLe_trans totalLe_total (fun _ _ _ _ => totalLe_antisymm) same]

omit [Field scalar] in
/-- In order, as many values are less than one that stands alone as stand before it. -/
theorem index_eq_countP {sorted : List scalar} (inOrder : sorted.Pairwise (· ≤ ·)) {value : scalar}
    (once : sorted.count value = 1) {index : Nat} (isValue : sorted[index]? = some value) :
    index = sorted.countP (· < value) := by
  induction sorted generalizing index with
  | nil => cases isValue
  | cons head rest inductionHypothesis =>
      obtain ⟨headAtMost, restInOrder⟩ := List.pairwise_cons.mp inOrder
      cases index with
      | zero =>
          cases isValue
          refine (List.countP_eq_zero.mpr fun other member => ?_).symm
          rcases List.mem_cons.mp member with rfl | behind
          · simp
          · simpa using headAtMost other behind
      | succ index =>
          have member : value ∈ rest := List.mem_of_getElem? isValue
          have isRestValue : rest[index]? = some value := isValue
          have counted := List.count_pos_iff.mpr member
          have differs : head ≠ value := by
            rintro rfl
            rw [List.count_cons_self] at once
            omega
          rw [List.count_cons_of_ne differs] at once
          have less : head < value := lt_of_le_of_ne (headAtMost value member) differs
          have headCounts : (head :: rest).countP (· < value) = rest.countP (· < value) + 1 :=
            List.countP_cons_of_pos (by simpa using less)
          rw [headCounts, ← inductionHypothesis restInOrder once isRestValue]

/-! ## The ramp that values describe -/

/-- A curve that rises from zero at the least to one at the greatest value, evenly by rank. -/
structure IsRamp (values : List scalar) (height : scalar → scalar) : Prop where
  monotone : Monotone height
  before : ∀ x, (∀ value ∈ values, x ≤ value) → height x = 0
  beyond : ∀ x, (∀ value ∈ values, value ≤ x) → (∃ value ∈ values, value < x) → height x = 1
  rank : ∀ value, values.count value = 1 →
    height value = (values.countP (· < value) : scalar) / (values.length - 1 : Nat)

/-- The order of values plays no part in their ramp. -/
theorem IsRamp.perm {values reordered : List scalar} {height : scalar → scalar}
    (same : values.Perm reordered) (isRamp : IsRamp values height) : IsRamp reordered height where
  monotone := isRamp.monotone
  before x atMost := isRamp.before x fun value member => atMost value (same.mem_iff.mp member)
  beyond x atLeast less := by
    obtain ⟨value, member, valueLess⟩ := less
    exact isRamp.beyond x (fun value member => atLeast value (same.mem_iff.mp member))
      ⟨value, same.mem_iff.mpr member, valueLess⟩
  rank value once := by
    rw [← same.countP_eq, ← same.length_eq]
    exact isRamp.rank value (by rwa [same.count_eq])

variable [IsStrictOrderedRing scalar]

theorem rising_rampPoints (sorted : List scalar) :
    (rampPoints sorted).Pairwise fun a b => a.y ≤ b.y := by
  refine List.pairwise_iff_getElem.mpr fun i j _ _ less => ?_
  simp only [rampPoints, List.getElem_mapIdx]
  gcongr

theorem inUnit_rampPoints {sorted : List scalar} (point : Point scalar)
    (member : point ∈ rampPoints sorted) : (number point.y : Exact power).InUnit := by
  obtain ⟨index, isPoint⟩ := List.mem_iff_getElem?.mp member
  obtain ⟨within, rfl⟩ := List.getElem?_eq_some_iff.mp isPoint
  rw [length_rampPoints] at within
  have atMost : (index : scalar) ≤ (max (sorted.length - 1) 1 : Nat) :=
    Nat.cast_le.mpr (by omega)
  simp only [rampPoints, List.getElem_mapIdx]
  exact .number (by positivity) (div_le_one_of_le₀ atMost (Nat.cast_nonneg _))

/-- The broken line through the points of a ramp is the ramp. -/
theorem Follows.isRamp {sorted : List scalar} (inOrder : sorted.Pairwise (· ≤ ·))
    (enough : 2 ≤ sorted.length) {height : scalar → scalar}
    (follows : Follows (rampPoints sorted) lineSegment height) : IsRamp sorted height where
  monotone := follows.monotone (ascending_rampPoints inOrder) (rising_rampPoints sorted)
  before x atMost := by
    have isHead : sorted[0]? = some sorted[0] := List.getElem?_eq_getElem (by omega)
    rw [follows.eq_of_atOrBefore (isPoint_rampPoints isHead)
      (atMost _ (List.mem_of_getElem? isHead)), Nat.cast_zero, zero_div]
  beyond x atLeast less := by
    obtain ⟨value, member, valueLess⟩ := less
    have after : ∀ first, (rampPoints sorted)[0]? = some first → first.x < x := by
      intro first isFirst
      obtain ⟨index, isValue⟩ := List.mem_iff_getElem?.mp member
      have firstAtMost := le_of_getElem? (ascending_rampPoints inOrder) isFirst
        (isPoint_rampPoints isValue) (Nat.zero_le index)
      exact firstAtMost.trans_lt valueLess
    have isLast : sorted[sorted.length - 1]? = some sorted[sorted.length - 1] :=
      List.getElem?_eq_getElem (by omega)
    have isEnd := isPoint_rampPoints isLast
    nth_rewrite 1 [← length_rampPoints] at isEnd
    have steps : ((sorted.length - 1 : Nat) : scalar) ≠ 0 := Nat.cast_ne_zero.mpr (by omega)
    rw [follows.eq_of_atOrBeyond (ascending_rampPoints inOrder) after isEnd
      (atLeast _ (List.mem_of_getElem? isLast)), max_eq_left (by omega), div_self steps]
  rank value once := by
    have member : value ∈ sorted := List.count_pos_iff.mp (by omega)
    obtain ⟨index, isValue⟩ := List.mem_iff_getElem?.mp member
    have alone : ∀ i other, (rampPoints sorted)[i]? = some other → other.x = value →
        i = index := by
      rintro i other isOther rfl
      have isOtherValue : sorted[i]? = some other.x := by
        rw [← map_x_rampPoints sorted, List.getElem?_map, isOther]
        rfl
      rw [index_eq_countP inOrder once isOtherValue, index_eq_countP inOrder once isValue]
    rw [follows.eq_of_point meets_lineSegment (ascending_rampPoints inOrder)
      (isPoint_rampPoints isValue) alone, index_eq_countP inOrder once isValue,
      max_eq_left (by omega)]

variable (power) in
/-- Through the points of a ramp, the curve drawn is the ramp. -/
theorem exists_ramp {sorted : List scalar} (inOrder : sorted.Pairwise (· ≤ ·))
    (enough : 2 ≤ sorted.length) :
    ∃ height : scalar → scalar,
      (∀ x, linear ((rampPoints sorted).map Point.exact) (number x : Exact power) =
        some (number (height x))) ∧ IsRamp sorted height := by
  have nonempty : rampPoints sorted ≠ [] := by
    refine List.ne_nil_of_length_pos ?_
    rw [length_rampPoints]
    omega
  obtain ⟨height, follows, drawn⟩ := exists_line power nonempty (ascending_rampPoints inOrder)
  exact ⟨height, drawn, follows.isRamp inOrder enough⟩

end Curve

/-! ## Sigmoids given by their domain -/

namespace Evaluation

section Domain

variable {num : Type} [Arith num] {definition : EvaluationDefinition num} {domain : List num}

theorem givenPoints_of_domain (noPoints : definition.points = none)
    (spread : definition.domain = some domain) :
    givenPoints definition .sigmoid =
      if domain.all Arith.isFinite then .ok (Curve.sigmoidPoints domain)
      else .error .infiniteDomain := by
  unfold givenPoints
  rw [noPoints, spread]
  rfl

end Domain

/-- Finite values are exact ones. -/
theorem exists_numbers {domain : List (Exact power)}
    (finite : domain.all Arith.isFinite = true) :
    ∃ values : List scalar, domain = values.map number := by
  have inRange : domain ∈ Set.range (List.map (number : scalar → Exact power)) := by
    rw [Set.range_list_map]
    intro x member
    obtain ⟨value, rfl⟩ := isFinite_iff.mp (List.all_eq_true.mp finite x member)
    exact ⟨value, rfl⟩
  obtain ⟨values, valuesEq⟩ := inRange
  exact ⟨values, valuesEq.symm⟩

variable [IsStrictOrderedRing scalar]

/-- Two or more values are enough for a sigmoid, which is drawn through their ramp. -/
theorem compilePoints_of_domain {definition : EvaluationDefinition (Exact power)}
    {values : List scalar} (noPoints : definition.points = none)
    (spread : definition.domain = some (values.map number)) (enough : 2 ≤ values.length) :
    ∃ sorted : List scalar, sorted.Perm values ∧ sorted.Pairwise (· ≤ ·) ∧
      compilePoints definition .sigmoid = .ok ((Curve.rampPoints sorted).map Point.exact) := by
  obtain ⟨sorted, same, inOrder, pointsEq⟩ := Curve.exists_sigmoidPoints power values
  refine ⟨sorted, same, inOrder, compilePoints_of_sorted ?_ ?_ ?_ ?_⟩
  · have finite : (values.map number).all (Arith.isFinite : Exact power → Bool) = true := by
      simp [isFinite_iff]
    rw [givenPoints_of_domain noPoints spread, if_pos finite, pointsEq]
  · rwa [List.length_map, Curve.length_rampPoints, same.length_eq]
  · intro point member
    obtain ⟨own, ownMember, rfl⟩ := List.mem_map.mp member
    simp only [isUsable, Bool.and_eq_true]
    exact ⟨⟨rfl, rfl⟩, inUnit_iff.mpr (Curve.inUnit_rampPoints own ownMember)⟩
  · exact Curve.pairwise_exact (Curve.ascending_rampPoints inOrder)

/-- A sigmoid given by its domain alone rates by the ramp of its values, and their order plays no
part. -/
theorem sigmoid_isRamp {definition : EvaluationDefinition (Exact power)}
    {evaluation : Evaluation (Exact power)} {domain : List (Exact power)}
    {curve : List (Point (Exact power))} (compiled : ofDefinition definition = .ok evaluation)
    (isSigmoid : evaluation.shape = .curve .sigmoid curve) (noPoints : definition.points = none)
    (spread : definition.domain = some domain) :
    (∀ reordered, reordered.Perm domain →
      ofDefinition { definition with domain := some reordered } = .ok evaluation) ∧
    ∃ (values : List scalar) (height : scalar → scalar),
      domain = values.map number ∧ 2 ≤ values.length ∧ evaluation.RatesBy height ∧
      Curve.IsRamp values height := by
  have curveEq := compilePoints_of_shape compiled isSigmoid
  constructor
  · intro reordered same
    have sameGiven : givenPoints { definition with domain := some reordered } .sigmoid =
        givenPoints definition .sigmoid := by
      rw [@givenPoints_of_domain _ _ { definition with domain := some reordered } reordered
        noPoints rfl, givenPoints_of_domain noPoints spread, same.all_eq,
        Curve.sigmoidPoints_perm same]
    have pointsEq : compilePoints { definition with domain := some reordered } .sigmoid =
        .ok curve := by
      rw [← curveEq]
      unfold compilePoints
      rw [sameGiven]
    rw [ofDefinition_redrawn compiled isSigmoid pointsEq, ← invert_of_compiled compiled,
      ← isSigmoid]
  · obtain ⟨_, givenEq, enough, _, _⟩ := compilePoints_eq_ok curveEq
    rw [givenPoints_of_domain noPoints spread] at givenEq
    split at givenEq
    · next finite =>
        cases givenEq
        obtain ⟨values, rfl⟩ := exists_numbers finite
        have enoughValues : 2 ≤ values.length := by
          simpa [Curve.sigmoidPoints] using enough
        obtain ⟨sorted, same, inOrder, pointsEq⟩ :=
          compilePoints_of_domain noPoints spread enoughValues
        rw [curveEq] at pointsEq
        cases pointsEq
        have enoughSorted : 2 ≤ sorted.length := by rwa [same.length_eq]
        obtain ⟨height, drawn, isRamp⟩ := Curve.exists_ramp power inOrder enoughSorted
        exact ⟨values, height, rfl, enoughValues,
          ratesBy_of_curve isSigmoid fun _ x => drawn x, isRamp.perm same⟩
    · cases givenEq

/-- Slopes in no order, one of them twice. -/
def observedSlopes : List ℚ :=
  [8, 0, 2, 4, 2]

/-- How steep a slope is among the observed ones. -/
def slopeRanked : EvaluationDefinition (Exact wholePower) where
  id := "e1"
  name := "Slope Ranked"
  propertyName := "slope"
  kind := "sigmoid"
  invert := false
  points := none
  domain := some (observedSlopes.map number)
  interpolation := none
  crispExpression := none

theorem sigmoid_isRamp_slope :
    ∃ evaluation height, ofDefinition slopeRanked = .ok evaluation ∧
      ofDefinition { slopeRanked with domain := some (observedSlopes.reverse.map number) } =
        .ok evaluation ∧
      evaluation.RatesBy height ∧ Curve.IsRamp observedSlopes height ∧ height 4 = 3 / 4 := by
  have kindName : (readKind slopeRanked.kind :
      Except (DefinitionError (Exact wholePower)) _).toOption = some (.curve .sigmoid) := by
    decide +kernel
  obtain ⟨sorted, _, _, pointsEq⟩ :=
    @compilePoints_of_domain ℚ _ _ wholePower _ slopeRanked observedSlopes rfl rfl (by decide)
  have compiled : ofDefinition slopeRanked = .ok ⟨"e1", "Slope Ranked", "slope", .curve .sigmoid,
      false, .curve .sigmoid ((Curve.rampPoints sorted).map Point.exact)⟩ :=
    bind_eq_ok_iff.mpr ⟨_, eq_ok_of_toOption kindName,
      bind_eq_ok_iff.mpr ⟨_, bind_eq_ok_iff.mpr ⟨_, pointsEq, rfl⟩, rfl⟩⟩
  obtain ⟨sameEvaluation, values, height, valuesEq, _, rates, isRamp⟩ :=
    sigmoid_isRamp compiled rfl rfl rfl
  obtain rfl : observedSlopes = values :=
    List.map_injective_iff.mpr (fun a b same => by cases same; rfl) valuesEq
  have reversed : (observedSlopes.reverse.map number : List (Exact wholePower)).Perm
      (observedSlopes.map number) :=
    (List.reverse_perm observedSlopes).map number
  refine ⟨_, height, compiled, sameEvaluation _ reversed, rates, isRamp, ?_⟩
  rw [isRamp.rank 4 (by decide +kernel)]
  decide +kernel

end Evaluation

end FuzzyRating
