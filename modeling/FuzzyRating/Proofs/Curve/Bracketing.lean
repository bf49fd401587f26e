import FuzzyRating.Proofs.Curve.Doubles

/-!
The search for the points next to a query. Computed with every index and every difference checked,
the curves through any points come out the same, so no check ever fails. On compiled points every
finite query has an answer, and where a segment gives it, the query lies on that segment.
-/

namespace FuzzyRating.Curve

/-! ## Checked computations -/

/-- What a check has found. -/
inductive Fault where
  | outOfRange (index length : Nat)
  | belowZero (whole part : Nat)
  deriving DecidableEq, Repr

namespace Checked

/-- The entry at an index, which has to be in range. -/
def entry {alpha : Type} (entries : List alpha) (index : Nat) : Except Fault alpha :=
  match entries[index]? with
  | some found => .ok found
  | none => .error (.outOfRange index entries.length)

/-- A difference, which must not be below zero. -/
def minus (whole part : Nat) : Except Fault Nat :=
  if part ≤ whole then .ok (whole - part) else .error (.belowZero whole part)

variable {num : Type} [Arith num]

def bisect (points : List (Point num)) (x : num) : Nat → Nat → Nat → Except Fault Nat
  | 0, base, _ => .ok base
  | steps + 1, base, size =>
      if size ≤ 1 then
        .ok base
      else do
        let half := size / 2
        let middle ← entry points (base + half)
        let base := if Arith.le middle.x x then base + half else base
        bisect points x steps base (← minus size half)

def countBelow (points : List (Point num)) (x : num) : Except Fault Nat :=
  if points.isEmpty then
    .ok 0
  else do
    let base ← bisect points x points.length 0 points.length
    let point ← entry points base
    return if Arith.le point.x x then base + 1 else base

/-- The points next to a query. Nothing is looked up in front of the first point. -/
def bracket (points : List (Point num)) (x : num) : Except Fault (Option (Bracket num)) :=
  match points.head?, points.getLast? with
  | some first, some last =>
      if Arith.le x first.x then
        .ok (some (.clamped first.y))
      else if Arith.le last.x x then
        .ok (some (.clamped last.y))
      else do
        match ← countBelow points x with
        | 0 => return none
        | index + 1 =>
            let lower ← entry points index
            let upper ← entry points (index + 1)
            return some (.between (index + 1) lower upper)
  | _, _ => .ok none

def linear (points : List (Point num)) (x : num) : Except Fault (Option num) := do
  match ← bracket points x with
  | none => return none
  | some (.clamped y) => return some y
  | some (.between _ lower upper) =>
      let t := (x - lower.x) / (upper.x - lower.x)
      return some (lower.y + (upper.y - lower.y) * t)

def step (points : List (Point num)) (x : num) : Except Fault (Option num) :=
  match points.head? with
  | none => .ok none
  | some first => do
      match ← countBelow points x with
      | 0 => return some first.y
      | index + 1 => return some (← entry points index).y

/-- The slope at a point. Beyond an end the point itself stands for its neighbour. -/
def tangent (points : List (Point num)) (index : Nat) : Except Fault num := do
  let before ← entry points (index - 1)
  let after ← match points[index + 1]? with
    | some after => .ok after
    | none => entry points index
  return if Arith.lt before.x after.x then (after.y - before.y) / (after.x - before.x)
    else Arith.zero

/-- The index of the lower end is the count less one, which is computed behind the search. -/
def spline (clamp : Bool) (points : List (Point num)) (x : num) : Except Fault (Option num) := do
  let upperIndex ← countBelow points x
  match ← bracket points x with
  | none => return none
  | some (.clamped y) => return some y
  | some (.between _ lower upper) =>
      let lowerIndex ← minus upperIndex 1
      let y := hermite lower upper (← tangent points lowerIndex) (← tangent points upperIndex) x
      return some (if clamp then Arith.clampUnit y else y)

/-! ## The checks succeed -/

theorem entry_eq_ok {alpha : Type} {entries : List alpha} {index : Nat} {found : alpha}
    (isEntry : entries[index]? = some found) : entry entries index = .ok found := by
  unfold entry
  rw [isEntry]

theorem minus_eq_ok {whole part : Nat} (atMost : part ≤ whole) :
    minus whole part = .ok (whole - part) :=
  if_pos atMost

variable {points : List (Point num)} {x : num}

/-- Bisection looks at points of its interval only. -/
theorem bisect_eq_ok (steps base size : Nat) (within : base + size ≤ points.length) :
    bisect points x steps base size =
      .ok (Curve.bisect (fun i => points[i]?.any fun point => Arith.le point.x x)
        steps base size) := by
  induction steps generalizing base size with
  | zero => rfl
  | succ steps inductionHypothesis =>
      rw [bisect, Curve.bisect]
      by_cases short : size ≤ 1
      · rw [if_pos short, if_pos short]
      · rw [if_neg short, if_neg short]
        have middleWithin : base + size / 2 < points.length := by
          omega
        have isMiddle := List.getElem?_eq_getElem middleWithin
        have notBelowZero := minus_eq_ok (Nat.div_le_self size 2)
        refine bind_eq_ok_iff.mpr ⟨_, entry_eq_ok isMiddle,
          bind_eq_ok_iff.mpr ⟨_, notBelowZero, ?_⟩⟩
        simp only [isMiddle, Option.any_some]
        refine inductionHypothesis _ _ ?_
        split <;> omega

theorem countBelow_eq_ok (points : List (Point num)) (x : num) :
    countBelow points x = .ok (Curve.countBelow points x) := by
  unfold countBelow Curve.countBelow
  by_cases isEmpty : points.isEmpty = true
  · rw [if_pos isEmpty, if_pos isEmpty]
  · rw [if_neg isEmpty, if_neg isEmpty]
    have positive : 0 < points.length :=
      List.length_pos_iff.mpr (mt List.isEmpty_iff.mpr isEmpty)
    obtain ⟨baseWithin, _⟩ := bisect_spec
      (fun i => points[i]?.any fun point => Arith.le point.x x) points.length 0 points.length positive
    rw [Nat.zero_add] at baseWithin
    have isBase := List.getElem?_eq_getElem baseWithin
    refine bind_eq_ok_iff.mpr ⟨_, bisect_eq_ok _ _ _ (Nat.zero_add _).le,
      bind_eq_ok_iff.mpr ⟨_, entry_eq_ok isBase, ?_⟩⟩
    simp only [isBase, Option.any_some]
    rfl

/-- A query that is not at or beyond the last point is not counted past it, so there are points on
both sides of the count, or none in front of it. -/
theorem bracket_eq_ok (points : List (Point num)) (x : num) :
    bracket points x = .ok (Curve.bracket points x) := by
  unfold bracket Curve.bracket
  cases isFirst : points.head? with
  | none => rfl
  | some first =>
      cases isLast : points.getLast? with
      | none => rfl
      | some last =>
          simp only [Option.bind_eq_bind, Option.bind_some]
          by_cases atOrBefore : Arith.le x first.x = true
          · rw [if_pos atOrBefore, if_pos atOrBefore]
          · rw [if_neg atOrBefore, if_neg atOrBefore]
            by_cases atOrBeyond : Arith.le last.x x = true
            · rw [if_pos atOrBeyond, if_pos atOrBeyond]
            · rw [if_neg atOrBeyond, if_neg atOrBeyond]
              have nonempty : points ≠ [] :=
                List.ne_nil_of_mem (List.mem_of_mem_head? isFirst)
              obtain ⟨_, beforeLast, _⟩ := countBelow_spec nonempty x
              have notAll := beforeLast last isLast (by simpa using atOrBeyond)
              refine bind_eq_ok_iff.mpr ⟨_, countBelow_eq_ok points x, ?_⟩
              cases counted : Curve.countBelow points x with
              | zero => rfl
              | succ index =>
                  have isLower := List.getElem?_eq_getElem (show index < points.length by omega)
                  have isUpper := List.getElem?_eq_getElem (show index + 1 < points.length by omega)
                  refine bind_eq_ok_iff.mpr ⟨_, entry_eq_ok isLower,
                    bind_eq_ok_iff.mpr ⟨_, entry_eq_ok isUpper, ?_⟩⟩
                  simp only [isLower, isUpper, Option.bind_some]
                  rfl

theorem linear_eq_ok (points : List (Point num)) (x : num) :
    linear points x = .ok (Curve.linear points x) := by
  refine bind_eq_ok_iff.mpr ⟨_, bracket_eq_ok points x, ?_⟩
  unfold Curve.linear
  generalize Curve.bracket points x = found
  split <;> rfl

theorem step_eq_ok (points : List (Point num)) (x : num) :
    step points x = .ok (Curve.step points x) := by
  unfold step Curve.step
  cases isFirst : points.head? with
  | none => rfl
  | some first =>
      have nonempty : points ≠ [] :=
        List.ne_nil_of_mem (List.mem_of_mem_head? isFirst)
      obtain ⟨atMost, _, _⟩ := countBelow_spec nonempty x
      refine bind_eq_ok_iff.mpr ⟨_, countBelow_eq_ok points x, ?_⟩
      cases counted : Curve.countBelow points x with
      | zero => rfl
      | succ index =>
          have isPoint := List.getElem?_eq_getElem (show index < points.length by omega)
          simp only [isPoint, Option.map_some]
          exact bind_eq_ok_iff.mpr ⟨_, entry_eq_ok isPoint, rfl⟩

theorem tangent_eq_ok {index : Nat} (within : index < points.length) :
    tangent points index = .ok (Curve.tangent points index) := by
  have isBefore := List.getElem?_eq_getElem (show index - 1 < points.length by omega)
  have isPoint := List.getElem?_eq_getElem within
  refine bind_eq_ok_iff.mpr ⟨_, entry_eq_ok isBefore, ?_⟩
  unfold Curve.tangent
  rw [isBefore]
  cases isAfter : points[index + 1]? with
  | some after => rfl
  | none =>
      rw [isPoint]
      exact bind_eq_ok_iff.mpr ⟨_, entry_eq_ok isPoint, rfl⟩

/-- The difference behind the search is computed only if a segment has been found, so something was
counted. -/
theorem spline_eq_ok (clamp : Bool) (points : List (Point num)) (x : num) :
    spline clamp points x = .ok (Curve.spline clamp points x) := by
  refine bind_eq_ok_iff.mpr ⟨_, countBelow_eq_ok points x,
    bind_eq_ok_iff.mpr ⟨_, bracket_eq_ok points x, ?_⟩⟩
  unfold Curve.spline
  cases found : Curve.bracket points x with
  | none => rfl
  | some bracket =>
      cases bracket with
      | clamped y => rfl
      | between index lower upper =>
          obtain ⟨counted, positive, _, isUpper⟩ := neighbours_of_bracket found
          have within : index < points.length := (List.getElem?_eq_some_iff.mp isUpper).1
          rw [counted]
          refine bind_eq_ok_iff.mpr ⟨_, minus_eq_ok positive,
            bind_eq_ok_iff.mpr ⟨_, tangent_eq_ok (Nat.lt_of_le_of_lt (Nat.sub_le _ _) within),
              bind_eq_ok_iff.mpr ⟨_, tangent_eq_ok within, rfl⟩⟩⟩

end Checked

/-! ## Queries of compiled curves -/

/-- Neighbouring points around a query, far enough apart to divide by their distance. -/
structure Spans (points : List (Point Float)) (x : Float) (index : Nat)
    (lower upper : Point Float) : Prop where
  positive : 0 < index
  isLower : points[index - 1]? = some lower
  isUpper : points[index]? = some upper
  atOrAbove : Arith.le lower.x x = true
  below : Arith.lt x upper.x = true
  apart : 0 < Rounding.number upper.x - Rounding.number lower.x

/-- A query with an answer on each curve through the points, and around it, where a segment
answers, the ends of that segment. -/
structure Answers (points : List (Point Float)) (x : Float) : Prop where
  linear : (linear points x).isSome = true
  step : (step points x).isSome = true
  spline : ∀ clamp, (spline clamp points x).isSome = true
  spans : ∀ index lower upper, bracket points x = some (.between index lower upper) →
    Spans points x index lower upper

section

variable {points : List (Point Float)} {x : Float}

theorem spans_of_bracket (ascends : Ascends points)
    (finitePoints : ∀ point ∈ points, FinitePoint point) (finite : x.isFinite = true)
    {index : Nat} {lower upper : Point Float}
    (between : bracket points x = some (.between index lower upper)) :
    Spans points x index lower upper := by
  obtain ⟨positive, isLower, isUpper, atOrAbove, _⟩ := bracket_eq_between ascends between
  have segment := segment_of_bracket ascends finitePoints finite between
  refine ⟨positive, isLower, isUpper, atOrAbove, ?_, ?_⟩
  · exact (Rounding.lt_iff finite segment.upperFinite.isFinite).mpr segment.below
  · exact sub_pos.mpr (segment.atOrAbove.trans_lt segment.below)

theorem answers_of_compiled {definition : EvaluationDefinition Float}
    {evaluation : Evaluation Float} {method : Interpolation}
    (compiled : Evaluation.ofDefinition definition = .ok evaluation)
    (isCurve : evaluation.shape = .curve method points) (finite : Arith.isFinite x = true) :
    Answers points x := by
  have pointsEq := Evaluation.compilePoints_of_shape compiled isCurve
  obtain ⟨sorted, finitePoints⟩ := Evaluation.compilePoints_finite pointsEq
  obtain ⟨nonempty, xsFinite⟩ := Evaluation.compilePoints_sound pointsEq
  refine ⟨?_, step_isSome nonempty, fun clamp => ?_, fun index lower upper between => ?_⟩
  · exact value_isSome .linear true nonempty xsFinite finite
  · exact value_isSome .spline clamp nonempty xsFinite finite
  · exact spans_of_bracket (ascends_of_pairwise_doubles finitePoints sorted) finitePoints finite
      between

end

/-- No check fails, whatever the points and the query are, and compiled curves answer every finite
query. -/
theorem search_safe :
    (∀ (points : List (Point Float)) (x : Float),
      Checked.linear points x = .ok (linear points x) ∧
        Checked.step points x = .ok (step points x) ∧
        ∀ clamp, Checked.spline clamp points x = .ok (spline clamp points x)) ∧
    ∀ (definition : EvaluationDefinition Float) (evaluation : Evaluation Float)
      (method : Interpolation) (points : List (Point Float)) (x : Float),
      Evaluation.ofDefinition definition = .ok evaluation →
      evaluation.shape = .curve method points → Arith.isFinite x = true → Answers points x := by
  constructor
  · intro points x
    exact ⟨Checked.linear_eq_ok points x, Checked.step_eq_ok points x,
      fun clamp => Checked.spline_eq_ok clamp points x⟩
  · intro definition evaluation method points x compiled isCurve finite
    exact answers_of_compiled compiled isCurve finite

/-- A terrain that is half steep as soon as it is not flat. -/
def jumpPoints : List (Point Float) :=
  [⟨5, 0⟩, ⟨5, 0.5⟩, ⟨30, 1⟩]

/-- Of the two points at five degrees, the later one is where the segment to thirty begins. -/
theorem search_safe_jump :
    Evaluation.ofDefinition (Evaluation.lineDefinition jumpPoints) =
        .ok (Evaluation.line jumpPoints) ∧
      Arith.isFinite (12 : Float) = true ∧ Answers jumpPoints 12 ∧
      Spans jumpPoints 12 2 ⟨5, 0.5⟩ ⟨30, 1⟩ := by
  have compiled : Evaluation.ofDefinition (Evaluation.lineDefinition jumpPoints) =
      .ok (Evaluation.line jumpPoints) :=
    Evaluation.ofDefinition_line (by decide) (by decide +kernel) (by decide +kernel)
  have finite : Arith.isFinite (12 : Float) = true := by
    decide +kernel
  have answers := search_safe.2 _ _ _ _ 12 compiled rfl finite
  have beyondFirst : Arith.le (12 : Float) 5 = false := by
    decide +kernel
  have beforeLast : Arith.le (30 : Float) 12 = false := by
    decide +kernel
  have counted : countBelow jumpPoints 12 = 2 := by
    decide +kernel
  have between : bracket jumpPoints 12 = some (.between 2 ⟨5, 0.5⟩ ⟨30, 1⟩) := by
    unfold bracket
    rw [counted]
    simp [jumpPoints, beyondFirst, beforeLast]
  exact ⟨compiled, finite, answers, answers.spans 2 _ _ between⟩

end FuzzyRating.Curve
