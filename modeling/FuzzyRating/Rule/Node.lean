import FuzzyRating.Keyword
import FuzzyRating.Tree

/-!
Rules as they are authored and the trees that they stand for.
-/

namespace FuzzyRating

/-- A node of a rule as authored. The indentation of its name tells its level, and it may also list
children of its own. -/
inductive RuleNode where
  | node (levelName : String) (nodeKind value refId : Option String) (children : List RuleNode)
  deriving Repr

/-- A rule as authored. -/
structure RuleDefinition where
  id : String
  name : String
  nodes : List RuleNode
  deriving Repr

/-- What a node of a rule tree does. -/
inductive NodeKind (num : Type) where
  /-- Heads a rule. Its children are combined as by `and`. -/
  | root
  | operator (operator : Operator)
  | hedge (hedge : Hedge) (parameter : Option num)
  /-- A leaf that refers to an evaluation or to another interpretation. -/
  | evaluation (refId : String)
  deriving Repr, DecidableEq

/-- A node of a rule tree. Its key is the path of child positions that leads to it, and its depth
the length of that path. -/
structure Node (num : Type) where
  name : String
  key : String
  depth : Nat
  kind : NodeKind num
  deriving Repr, DecidableEq

abbrev RuleTree (num : Type) :=
  Tree (Node num)

/-- The reference of a leaf. -/
def Node.refId? {num : Type} (node : Node num) : Option String :=
  match node.kind with
  | .evaluation refId => some refId
  | _ => none

/-- The references of a forest, in the order of its nodes. -/
def leafRefs {num : Type} (forest : List (RuleTree num)) : List String :=
  (Tree.preorderAll forest).filterMap Node.refId?

end FuzzyRating
