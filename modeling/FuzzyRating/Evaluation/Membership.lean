import FuzzyRating.Evaluation.Definition

/-!
The rating that an evaluation gives to a value.
-/

namespace FuzzyRating

/-- Why a value gets no rating, not even an absent one. -/
inductive MembershipError (num : Type) where
  /-- The value is of a kind that the evaluation cannot rate. -/
  | invalidValue (found : PropertyValue num)
  /-- The curve has no points. -/
  | noPoints
  deriving Repr

namespace Evaluation

variable {num : Type} [Arith num]

/-- The rating before inversion. An expression rates numbers and texts, a curve numbers alone, and
neither rates a number that is not finite. -/
def shapeMembership (shape : Shape num) (clamp : Bool) (value : PropertyValue num) :
    Except (MembershipError num) (Option num) :=
  match shape, value with
  | _, .null => .ok none
  | .crisp _ expression, .number x =>
      if Arith.isFinite x then
        .ok (some (if expression.holds value then Arith.one else Arith.zero))
      else
        .error (.invalidValue value)
  | .crisp _ expression, .text _ =>
      .ok (some (if expression.holds value then Arith.one else Arith.zero))
  | .curve method points, .number x =>
      if Arith.isFinite x then
        match Curve.value method clamp points x with
        | some y => .ok (some y)
        | none => .error .noPoints
      else
        .error (.invalidValue value)
  | .curve _ _, .text _ => .error (.invalidValue value)

/-- The rating of a value. `clamp` bounds splines to the unit interval, and inversion comes last. -/
def membership (evaluation : Evaluation num) (clamp : Bool) (value : PropertyValue num) :
    Except (MembershipError num) (Option num) := do
  let rating ← shapeMembership evaluation.shape clamp value
  return if evaluation.invert then rating.map (Arith.one - ·) else rating

end Evaluation

end FuzzyRating
