/-!
Trees with a label at each node and any number of children.
-/

namespace FuzzyRating

inductive Tree (alpha : Type) where
  | node (label : alpha) (children : List (Tree alpha))
  deriving Repr

namespace Tree

variable {alpha : Type}

def label : Tree alpha → alpha
  | node label _ => label

def children : Tree alpha → List (Tree alpha)
  | node _ children => children

mutual

/-- The labels of a tree, each before those of its children. -/
def preorder : Tree alpha → List alpha
  | node label children => label :: preorderAll children

/-- The labels of several trees, one tree after the other. -/
def preorderAll : List (Tree alpha) → List alpha
  | [] => []
  | tree :: trees => preorder tree ++ preorderAll trees

end

end Tree

end FuzzyRating
