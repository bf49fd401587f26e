import FuzzyRating.Arith

/-!
Control points of curves, and the search for the points next to a query.
-/

namespace FuzzyRating

/-- A point that a curve passes through. -/
structure Point (num : Type) where
  x : num
  y : num
  deriving Repr, DecidableEq

/-- How a curve runs between its points. -/
inductive Interpolation where
  | linear
  | spline
  | step
  | sigmoid
  deriving DecidableEq, Repr

namespace Interpolation

def name : Interpolation → String
  | linear => "linear"
  | spline => "spline"
  | step => "step"
  | sigmoid => "sigmoid"

def variants : List (String × Interpolation) :=
  [linear, spline, step, sigmoid].map fun method => (method.name, method)

end Interpolation

namespace Curve

variable {num : Type} [Arith num]

/-- Bisection: an index between `base` and `base + size` where `reached` turns from true to false,
given that it does so once. The interval shrinks with every step, so its size bounds the steps. -/
def bisect (reached : Nat → Bool) : Nat → Nat → Nat → Nat
  | 0, base, _ => base
  | steps + 1, base, size =>
      if size ≤ 1 then
        base
      else
        let half := size / 2
        let base := if reached (base + half) then base + half else base
        bisect reached steps base (size - half)

/-- The number of points at or below `x`, found by bisection. The points should ascend. -/
def countBelow (points : List (Point num)) (x : num) : Nat :=
  let reached i := points[i]?.any fun point => Arith.le point.x x
  if points.isEmpty then
    0
  else
    let base := bisect reached points.length 0 points.length
    if reached base then base + 1 else base

/-- Where a query lies among the points of a curve. -/
inductive Bracket (num : Type) where
  /-- At or beyond an end, whose `y` is the answer. -/
  | clamped (y : num)
  /-- From the point `lower` on, which is the point before number `index`, and before `upper`. -/
  | between (index : Nat) (lower upper : Point num)

/-- The points next to a query. -/
def bracket (points : List (Point num)) (x : num) : Option (Bracket num) := do
  let first ← points.head?
  let last ← points.getLast?
  if Arith.le x first.x then
    some (.clamped first.y)
  else if Arith.le last.x x then
    some (.clamped last.y)
  else
    match countBelow points x with
    | 0 => none
    | index + 1 => some (.between (index + 1) (← points[index]?) (← points[index + 1]?))

end Curve

end FuzzyRating
