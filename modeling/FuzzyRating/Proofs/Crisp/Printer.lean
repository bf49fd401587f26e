import FuzzyRating.Crisp.Expr
import FuzzyRating.Decimal.Layout

/-!
Crisp expressions as texts. Branches of connectives and operands of negations stand between
parentheses, texts between quotes that they do not contain, and numbers are written as in messages.
-/

namespace FuzzyRating.Crisp

def Relation.sign : Relation → List Char
  | eq => ['=']
  | ne => ['!', '=']
  | lt => ['<']
  | le => ['<', '=']
  | gt => ['>']
  | ge => ['>', '=']

/-- A quote that does not occur in the text, unless both kinds do. -/
def quoteFor (text : String) : Char :=
  if '"' ∈ text.toList then '\'' else '"'

def Literal.written : Literal Float → List Char
  | .number value => (Layout.message.write value).toList
  | .text value => quoteFor value :: (value.toList ++ [quoteFor value])

def grouped (inner : List Char) : List Char :=
  '(' :: (inner ++ [')'])

mutual

def Expr.written : Expr Float → List Char
  | .or branches => [' ', 'o', 'r', ' '].intercalate (groups branches)
  | .and branches => [' ', 'a', 'n', 'd', ' '].intercalate (groups branches)
  | .not operand => 'n' :: 'o' :: 't' :: ' ' :: grouped (written operand)
  | .compare relation literal => relation.sign ++ ' ' :: literal.written
  | .membership negated literals =>
      (if negated then ['n', 'o', 't', ' '] else []) ++
        'i' :: 'n' :: ' ' :: grouped ([',', ' '].intercalate (literals.map Literal.written))

def Expr.groups : List (Expr Float) → List (List Char)
  | [] => []
  | branch :: branches => grouped (written branch) :: groups branches

end

def Expr.print (expr : Expr Float) : String :=
  String.ofList expr.written

theorem Expr.groups_eq_map (branches : List (Expr Float)) :
    groups branches = branches.map fun branch => grouped branch.written := by
  induction branches with
  | nil => rw [groups, List.map_nil]
  | cons branch branches inductionHypothesis => rw [groups, List.map_cons, inductionHypothesis]

theorem intercalate_cons_map {alpha : Type} (separator : List Char) (write : alpha → List Char)
    (first : alpha) (others : List alpha) :
    separator.intercalate ((first :: others).map write) =
      write first ++ others.flatMap fun item => separator ++ write item := by
  induction others generalizing first with
  | nil => simp [List.intercalate]
  | cons next others inductionHypothesis =>
      have later := inductionHypothesis next
      rw [List.map_cons] at later ⊢
      rw [List.map_cons, List.intercalate_cons_cons, later, List.flatMap_cons]
      simp only [List.append_assoc]

end FuzzyRating.Crisp
