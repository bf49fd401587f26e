import FuzzyRating.Arith
import FuzzyRating.PropertyValue
import FuzzyRating.Text.Blank
import FuzzyRating.Text.Lower

/-!
Crisp expressions, the yes-or-no conditions on one value, and when a value meets one.
-/

namespace FuzzyRating.Crisp

/-- How a value is compared with a literal. -/
inductive Relation where
  | eq
  | ne
  | lt
  | le
  | gt
  | ge
  deriving DecidableEq, Repr

inductive Literal (num : Type) where
  | number (value : num)
  | text (value : String)
  deriving DecidableEq, Repr

/-- A condition on one value. -/
inductive Expr (num : Type) where
  /-- Holds if any branch holds. -/
  | or (branches : List (Expr num))
  /-- Holds if every branch holds. -/
  | and (branches : List (Expr num))
  | not (operand : Expr num)
  | compare (relation : Relation) (literal : Literal num)
  /-- Holds if the value equals one of the literals, or none of them when `negated`. -/
  | membership (negated : Bool) (literals : List (Literal num))
  deriving Repr

variable {num : Type} [Arith num]

/-- The order of two numbers, or nothing when they do not compare. -/
def numberOrder (a b : num) : Option Ordering :=
  if Arith.lt a b then some .lt
  else if Arith.lt b a then some .gt
  else if Arith.eq a b then some .eq
  else none

/-- Texts are compared without blanks at their ends and without regard to case. -/
def folded (text : String) : String :=
  Text.lower (Text.trim text)

/-- How a value stands to a literal. A number and a text do not compare. -/
def order : PropertyValue num → Literal num → Option Ordering
  | .number value, .number literal => numberOrder value literal
  | .text value, .text literal =>
      let a := folded value
      let b := folded literal
      some (if a < b then .lt else if b < a then .gt else .eq)
  | _, _ => none

/-- Whether an order, if there is one, is as the relation says. Values that do not compare are
unequal and nothing else. -/
def Relation.holds : Relation → Option Ordering → Bool
  | ne, none => true
  | _, none => false
  | eq, some o => o == .eq
  | ne, some o => o != .eq
  | lt, some o => o == .lt
  | le, some o => o != .gt
  | gt, some o => o == .gt
  | ge, some o => o != .lt

def Literal.equals (value : PropertyValue num) (literal : Literal num) : Bool :=
  Relation.eq.holds (order value literal)

mutual

/-- Whether a value meets an expression. -/
def Expr.holds (value : PropertyValue num) : Expr num → Bool
  | .or branches => anyHolds value branches
  | .and branches => allHold value branches
  | .not operand => !holds value operand
  | .compare relation literal => relation.holds (order value literal)
  | .membership negated literals => literals.any (Literal.equals value) != negated

/-- Whether a value meets one of several expressions. -/
def Expr.anyHolds (value : PropertyValue num) : List (Expr num) → Bool
  | [] => false
  | branch :: branches => holds value branch || anyHolds value branches

/-- Whether a value meets all of several expressions. -/
def Expr.allHold (value : PropertyValue num) : List (Expr num) → Bool
  | [] => true
  | branch :: branches => holds value branch && allHold value branches

end

end FuzzyRating.Crisp
