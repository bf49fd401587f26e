import FuzzyRating.Rule.Error
import FuzzyRating.Rule.Node
import FuzzyRating.Text.Blank

/-!
From the indentation of a list of nodes to a forest.

Reading the list, the nodes that can still take children are kept open, innermost first. A node
closes those that are indented as far or further, and becomes a child of the next one. It must
stand as far in as one of the nodes it closes, unless it stands further in than the node before it.
The list of children that a node carries is placed by itself below that node, in front of the
children that are indented below it.
-/

namespace FuzzyRating

/-- What a node says about itself once its place is known. -/
structure Label where
  name : String
  nodeKind : Option String
  value : Option String
  refId : Option String
  deriving Repr, DecidableEq

/-- Whether a character in front of a name indents it. -/
def isIndent (c : Char) : Bool :=
  Text.isBlank c || c == '.'

/-- The number of characters that indent a level name. -/
def indentWidth (levelName : String) : Nat :=
  (levelName.toList.takeWhile isIndent).length

/-- The level name without its indentation and without blanks at its end. -/
def plainName (levelName : String) : String :=
  String.ofList (Text.dropBlanksEnd (levelName.toList.dropWhile isIndent))

/-- The name of a node. A node without one is called by what it refers to, by its kind, or just
`node`. -/
def nodeName (levelName : String) (nodeKind refId : Option String) : String :=
  match plainName levelName with
  | "" => (refId.or nodeKind).getD "node"
  | name => name

/-- A node that can still take children, with its width and its children so far, last first. -/
structure OpenNode where
  width : Nat
  label : Label
  children : List (Tree Label)

def OpenNode.close (node : OpenNode) : Tree Label :=
  .node node.label node.children.reverse

/-- A list of nodes placed so far. -/
structure Placement where
  /-- The finished trees, last first. -/
  roots : List (Tree Label)
  /-- The open nodes, innermost first. -/
  opened : List OpenNode
  /-- The width of the first node. -/
  topWidth : Option Nat

namespace Placement

def empty : Placement :=
  ⟨[], [], none⟩

/-- Closes the innermost nodes as long as `test` holds of their width. The trees in `late`, last
first, are further children of the innermost one, or further roots. -/
def closeWhile (test : Nat → Bool) (late roots : List (Tree Label)) :
    List OpenNode → List (Tree Label) × List OpenNode
  | [] => (late ++ roots, [])
  | innermost :: opened =>
      let innermost := { innermost with children := late ++ innermost.children }
      if test innermost.width then
        closeWhile test [innermost.close] roots opened
      else
        (roots, innermost :: opened)

/-- Whether a node of this width has a place behind the nodes placed so far. -/
def admits (placement : Placement) (width : Nat) : Bool :=
  match placement.opened.dropWhile (width < ·.width) with
  | [] => placement.topWidth.all (· == width)
  | nearest :: opened =>
      if nearest.width = width then
        !opened.isEmpty || placement.topWidth.all (· == width)
      else
        (placement.opened.head?.all fun last => last.width < width)

/-- Opens a node that has a place, with the children that it carries. -/
def push (placement : Placement) (width : Nat) (label : Label) (carried : List (Tree Label)) :
    Placement :=
  let (roots, opened) := closeWhile (width ≤ ·) [] placement.roots placement.opened
  { roots
    opened := ⟨width, label, carried.reverse⟩ :: opened
    topWidth := some (placement.topWidth.getD width) }

/-- The forest of all nodes placed. -/
def forest (placement : Placement) : List (Tree Label) :=
  (closeWhile (fun _ => true) [] placement.roots placement.opened).1.reverse

end Placement

mutual

/-- Places a node, of which `index` stand before it in the rule, with the children that it
carries. Gives also the number of nodes placed then. -/
def RuleNode.place (index : Nat) (placement : Placement) :
    RuleNode → Except RuleError (Placement × Nat)
  | .node levelName nodeKind value refId children => do
      let width := indentWidth levelName
      if placement.admits width then
        let (carried, count) ← placeList (index + 1) .empty children
        let label := ⟨nodeName levelName nodeKind refId, nodeKind, value, refId⟩
        return (placement.push width label carried.forest, count)
      else
        throw (.indentation index levelName)

/-- Places nodes one after the other. -/
def RuleNode.placeList (index : Nat) (placement : Placement) :
    List RuleNode → Except RuleError (Placement × Nat)
  | [] => .ok (placement, index)
  | first :: nodes => do
      let (placement, index) ← place index placement first
      placeList index placement nodes

end

/-- The forest that a list of nodes describes. -/
def placeNodes (nodes : List RuleNode) : Except RuleError (List (Tree Label)) := do
  let (placement, _) ← RuleNode.placeList 0 .empty nodes
  return placement.forest

end FuzzyRating
