import FuzzyRating.Decimal.Layout
import FuzzyRating.Rule.Node

/-!
Rule trees as indented text, one node a line.
-/

namespace FuzzyRating

namespace NodeKind

/-- The word for a kind of node. -/
def name {num : Type} : NodeKind num → String
  | root => "root"
  | operator _ => "operator"
  | hedge _ _ => "hedge"
  | evaluation _ => "evaluation"

end NodeKind

/-- A node's name and what it does. -/
def Node.describe (node : Node Float) : String :=
  match node.kind with
  | .root => node.name
  | .operator operator => node.name ++ " [" ++ operator.name ++ "]"
  | .hedge hedge none => node.name ++ " [" ++ hedge.name ++ "]"
  | .hedge hedge (some parameter) =>
      node.name ++ " [" ++ hedge.name ++ " " ++ Layout.message.write parameter ++ "]"
  | .evaluation refId => node.name ++ " -> " ++ refId

/-- Spaces for a level of indentation. -/
def indentation (level : Nat) : String :=
  String.ofList (List.replicate (2 * level) ' ')

def Node.line (node : Node Float) : String :=
  indentation node.depth ++ node.key ++ " " ++ node.describe ++ "\n"

def outline (forest : List (RuleTree Float)) : String :=
  String.join ((Tree.preorderAll forest).map Node.line)

end FuzzyRating
