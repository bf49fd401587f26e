import FuzzyRating.Curve.Point

/-!
Curves through control points: broken lines, steps and cubic splines. Beyond its first and last
point every curve stays at their height. A curve without points has no value.
-/

namespace FuzzyRating.Curve

variable {num : Type} [Arith num]

/-- The broken line through the points. -/
def linear (points : List (Point num)) (x : num) : Option num :=
  match bracket points x with
  | none => none
  | some (.clamped y) => some y
  | some (.between _ lower upper) =>
      let t := (x - lower.x) / (upper.x - lower.x)
      some (lower.y + (upper.y - lower.y) * t)

/-- The height of the last point at or below `x`, or of the first point. -/
def step (points : List (Point num)) (x : num) : Option num :=
  match points.head?, countBelow points x with
  | none, _ => none
  | some first, 0 => some first.y
  | some _, index + 1 => points[index]?.map (·.y)

/-- The slope given to point number `index`: that of the line through its neighbours, or through
itself and its only neighbour at an end. -/
def tangent (points : List (Point num)) (index : Nat) : num :=
  match points[index - 1]?, points[index + 1]?.or points[index]? with
  | some before, some after =>
      if Arith.lt before.x after.x then (after.y - before.y) / (after.x - before.x)
      else Arith.zero
  | _, _ => Arith.zero

/-- The cubic with heights and slopes given at both ends of a segment. -/
def hermite (lower upper : Point num) (slope₀ slope₁ x : num) : num :=
  let two : num := Arith.ofNat 2
  let three : num := Arith.ofNat 3
  let h := upper.x - lower.x
  let t := (x - lower.x) / h
  let t2 := t * t
  let t3 := t2 * t
  let h00 := two * t3 - three * t2 + Arith.one
  let h10 := t3 - two * t2 + t
  let h01 := -two * t3 + three * t2
  let h11 := t3 - t2
  h00 * lower.y + h10 * h * slope₀ + h01 * upper.y + h11 * h * slope₁

/-- The smooth curve of cubics through the points, bounded to the unit interval if `clamp`. -/
def spline (clamp : Bool) (points : List (Point num)) (x : num) : Option num :=
  match bracket points x with
  | none => none
  | some (.clamped y) => some y
  | some (.between index lower upper) =>
      let y := hermite lower upper (tangent points (index - 1)) (tangent points index) x
      some (if clamp then Arith.clampUnit y else y)

/-- The value of a curve. A sigmoid is drawn as the broken line through its points. -/
def value (method : Interpolation) (clamp : Bool) (points : List (Point num)) (x : num) :
    Option num :=
  match method with
  | .linear => linear points x
  | .sigmoid => linear points x
  | .step => step points x
  | .spline => spline clamp points x

/-- Points sorted by `x`. Points with equal `x` keep their order. -/
def sortPoints (points : List (Point num)) : List (Point num) :=
  points.mergeSort fun a b => Arith.totalLe a.x b.x

/-- The points of a sigmoid given by its domain alone: the values in order, at heights that divide
the unit interval evenly. -/
def sigmoidPoints (domain : List num) : List (Point num) :=
  let xs := domain.mergeSort Arith.totalLe
  let steps : num := Arith.ofNat (max (xs.length - 1) 1)
  xs.mapIdx fun i x => ⟨x, Arith.ofNat i / steps⟩

end FuzzyRating.Curve
