import FuzzyRating.Decimal.Layout
import FuzzyRating.Text.Distance

/-!
What can be wrong with a rule.
-/

namespace FuzzyRating

/-- How many children a kind of node takes. -/
inductive Arity where
  | atLeastOne
  | exactly (count : Nat)
  deriving DecidableEq, Repr

def Arity.admits : Arity → Nat → Bool
  | atLeastOne, count => 1 ≤ count
  | exactly expected, count => count == expected

def Arity.text : Arity → String
  | atLeastOne => "at least 1"
  | exactly count => toString count

/-- Why a rule does not stand for a tree. -/
inductive RuleError where
  | empty
  /-- Node number `index` is indented like no open level. -/
  | indentation (index : Nat) (levelName : String)
  | unknownKind (kind : String) (suggestions : List String)
  | hedgeParameter (node value : String)
  | missingReference (node : String)
  | arity (node : String) (expected : Arity) (count : Nat)
  deriving DecidableEq, Repr

/-- What is added to a message when there are names to suggest. -/
def suggestionText : List String → String
  | [] => ""
  | names => "; did you mean: " ++ ", ".intercalate names ++ "?"

/-- The message about a rule with this name. -/
def RuleError.message (rule : String) : RuleError → String
  | empty => "rule '" ++ rule ++ "' has no nodes"
  | indentation index levelName =>
      "inconsistent indentation at node " ++ toString index ++ " ('" ++ levelName ++
        "') in rule '" ++ rule ++ "'"
  | unknownKind kind suggestions =>
      "unknown node kind '" ++ kind ++ "' in rule '" ++ rule ++ "'" ++
        suggestionText suggestions
  | hedgeParameter node value =>
      "node '" ++ node ++ "' in rule '" ++ rule ++ "' has invalid hedge parameter '" ++ value ++
        "'"
  | missingReference node =>
      "evaluation node '" ++ node ++ "' in rule '" ++ rule ++ "' has no refId"
  | arity node expected count =>
      "node '" ++ node ++ "' in rule '" ++ rule ++ "' expects " ++ expected.text ++
        " children, got " ++ toString count

end FuzzyRating
