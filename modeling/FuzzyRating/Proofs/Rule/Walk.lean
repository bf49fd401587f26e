import FuzzyRating.Proofs.Rule.Resolve

/-!
Walks through rules: the nodes of a placed rule, each before its children, are those of the rule in
the order in which they stand there. Resolving changes neither the shape nor the names.
-/

namespace FuzzyRating

namespace RuleNode

/-! ## Nodes as authored -/

/-- What every node has when all nodes that it lists have it, every node has. -/
theorem induction {motive : RuleNode → Prop}
    (node : ∀ levelName nodeKind value refId children,
      (∀ child ∈ children, motive child) →
        motive (.node levelName nodeKind value refId children)) :
    ∀ node, motive node
  | .node levelName nodeKind value refId children =>
      node levelName nodeKind value refId children fun child _ => induction node child

def levelName : RuleNode → String
  | .node levelName _ _ _ _ => levelName

def children : RuleNode → List RuleNode
  | .node _ _ _ _ children => children

def width (node : RuleNode) : Nat :=
  indentWidth node.levelName

def label : RuleNode → Label
  | .node levelName nodeKind value refId _ =>
      ⟨nodeName levelName nodeKind refId, nodeKind, value, refId⟩

mutual

/-- What a node and the nodes that it lists say about themselves, in the order of the rule. -/
def labels : RuleNode → List Label
  | .node levelName nodeKind value refId children =>
      ⟨nodeName levelName nodeKind refId, nodeKind, value, refId⟩ :: labelsAll children

def labelsAll : List RuleNode → List Label
  | [] => []
  | first :: nodes => labels first ++ labelsAll nodes

end

theorem labels_eq (node : RuleNode) : node.labels = node.label :: labelsAll node.children := by
  cases node
  rw [labels, label, children]

@[simp]
theorem labelsAll_nil : labelsAll [] = [] := by
  rw [labelsAll]

@[simp]
theorem labelsAll_cons (node : RuleNode) (nodes : List RuleNode) :
    labelsAll (node :: nodes) = node.labels ++ labelsAll nodes := by
  rw [labelsAll]

@[simp]
theorem labelsAll_append (early late : List RuleNode) :
    labelsAll (early ++ late) = labelsAll early ++ labelsAll late := by
  induction early with
  | nil => simp
  | cons node early inductionHypothesis => simp [inductionHypothesis]

theorem place_eq (index : Nat) (placement : Placement) (node : RuleNode) :
    place index placement node =
      if placement.admits node.width then do
        let (carried, count) ← placeList (index + 1) .empty node.children
        return (placement.push node.width node.label carried.forest, count)
      else
        throw (.indentation index node.levelName) := by
  cases node
  rw [place]
  rfl

/-- The forest that a list of siblings describes, before which `index` nodes stand in the rule. -/
def placeLevel (index : Nat) (nodes : List RuleNode) : Except RuleError (List (Tree Label)) := do
  let (placement, _) ← placeList index .empty nodes
  return placement.forest

end RuleNode

/-! ## Walks through placements -/

namespace Placement

/-- Closing more nodes later comes to the same as closing them at once. -/
theorem closeWhile_closeWhile {inner outer : Nat → Bool}
    (less : ∀ width, inner width = true → outer width = true) (late roots : List (Tree Label))
    (opened : List OpenNode) :
    closeWhile outer [] (closeWhile inner late roots opened).1
        (closeWhile inner late roots opened).2 =
      closeWhile outer late roots opened := by
  induction opened generalizing late with
  | nil => rfl
  | cons innermost opened inductionHypothesis =>
      rw [closeWhile]
      dsimp only
      split
      · next isClosed =>
          rw [inductionHypothesis, eq_comm, closeWhile]
          dsimp only
          rw [if_pos (less _ isClosed)]
      · rw [closeWhile, eq_comm, closeWhile]
        simp

/-- The labels of the nodes placed so far, each before those of its children. -/
def walk (placement : Placement) : List Label :=
  Tree.preorderAll placement.forest

/-- The walk when all open nodes are closed, the innermost of which gets further children. -/
private def walkClosing (late roots : List (Tree Label)) (opened : List OpenNode) : List Label :=
  Tree.preorderAll (closeWhile (fun _ => true) late roots opened).1.reverse

private theorem walkClosing_cons (late roots : List (Tree Label)) (innermost : OpenNode)
    (opened : List OpenNode) :
    walkClosing late roots (innermost :: opened) =
      walkClosing [.node innermost.label (innermost.children.reverse ++ late.reverse)] roots
        opened := by
  unfold walkClosing
  rw [closeWhile]
  simp [OpenNode.close]

private theorem walkClosing_late (late roots : List (Tree Label)) (opened : List OpenNode) :
    walkClosing late roots opened =
      walkClosing [] roots opened ++ Tree.preorderAll late.reverse := by
  induction opened generalizing late with
  | nil => simp [walkClosing, closeWhile]
  | cons innermost opened inductionHypothesis =>
      rw [walkClosing_cons, walkClosing_cons [], inductionHypothesis,
        inductionHypothesis [.node _ _]]
      simp

private theorem walkClosing_closeWhile (test : Nat → Bool) (late roots : List (Tree Label))
    (opened : List OpenNode) :
    walkClosing [] (closeWhile test late roots opened).1 (closeWhile test late roots opened).2 =
      walkClosing late roots opened := by
  unfold walkClosing
  rw [closeWhile_closeWhile (fun _ _ => rfl)]

theorem push_eq (placement : Placement) (width : Nat) (label : Label)
    (carried : List (Tree Label)) :
    placement.push width label carried =
      { roots := (closeWhile (width ≤ ·) [] placement.roots placement.opened).1
        opened := ⟨width, label, carried.reverse⟩ ::
          (closeWhile (width ≤ ·) [] placement.roots placement.opened).2
        topWidth := some (placement.topWidth.getD width) } :=
  rfl

/-- A node comes behind all nodes placed before it, and the nodes that it carries behind it. -/
theorem walk_push (placement : Placement) (width : Nat) (label : Label)
    (carried : List (Tree Label)) :
    (placement.push width label carried).walk =
      placement.walk ++ label :: Tree.preorderAll carried := by
  have closed := walkClosing_closeWhile (width ≤ ·) [] placement.roots placement.opened
  rw [push_eq]
  change walkClosing [] _ (⟨width, label, carried.reverse⟩ :: _) = walkClosing [] _ _ ++ _
  rw [walkClosing_cons, walkClosing_late, closed]
  simp

end Placement

namespace RuleNode

private theorem placeList_walk_of {nodes : List RuleNode}
    (each : ∀ node ∈ nodes, ∀ index placement placed count,
      place index placement node = .ok (placed, count) →
        placed.walk = placement.walk ++ node.labels ∧ count = index + node.labels.length) :
    ∀ index placement placed count, placeList index placement nodes = .ok (placed, count) →
      placed.walk = placement.walk ++ labelsAll nodes ∧
        count = index + (labelsAll nodes).length := by
  induction nodes with
  | nil =>
      intro index placement placed count placedEq
      rw [placeList] at placedEq
      cases placedEq
      simp
  | cons node nodes inductionHypothesis =>
      intro index placement placed count placedEq
      rw [placeList] at placedEq
      obtain ⟨⟨next, nextIndex⟩, nodeEq, restEq⟩ := bind_eq_ok_iff.mp placedEq
      obtain ⟨nextWalk, rfl⟩ := each node List.mem_cons_self _ _ _ _ nodeEq
      obtain ⟨walkEq, rfl⟩ := inductionHypothesis
        (fun other member => each other (List.mem_cons_of_mem node member)) _ _ _ _ restEq
      rw [walkEq, nextWalk]
      simp [Nat.add_assoc]

theorem place_walk (node : RuleNode) :
    ∀ index placement placed count, place index placement node = .ok (placed, count) →
      placed.walk = placement.walk ++ node.labels ∧ count = index + node.labels.length := by
  induction node using induction with
  | node levelName nodeKind value refId children inductionHypothesis =>
      intro index placement placed count placedEq
      rw [place_eq] at placedEq
      split at placedEq
      · obtain ⟨⟨carried, carriedCount⟩, carriedEq, pushed⟩ := bind_eq_ok_iff.mp placedEq
        cases pushed
        obtain ⟨carriedWalk, countEq⟩ := placeList_walk_of inductionHypothesis _ _ _ _ carriedEq
        have carriedLabels : Tree.preorderAll carried.forest = labelsAll children := by
          change carried.walk = _
          rw [carriedWalk]
          simp [Placement.walk, Placement.forest, Placement.empty, Placement.closeWhile]
        rw [Placement.walk_push, carriedLabels, labels_eq, countEq]
        simp [RuleNode.children, Nat.add_assoc, Nat.add_comm 1]
      · cases placedEq

/-- All siblings are placed in their order, each followed by the nodes that it lists. -/
theorem placeList_walk {nodes : List RuleNode} {index count : Nat} {placement placed : Placement}
    (placedEq : placeList index placement nodes = .ok (placed, count)) :
    placed.walk = placement.walk ++ labelsAll nodes ∧ count = index + (labelsAll nodes).length :=
  placeList_walk_of (fun node _ => place_walk node) _ _ _ _ placedEq

theorem preorderAll_of_placeLevel {nodes : List RuleNode} {index : Nat}
    {forest : List (Tree Label)} (placedEq : placeLevel index nodes = .ok forest) :
    Tree.preorderAll forest = labelsAll nodes := by
  obtain ⟨⟨placed, count⟩, listEq, forestEq⟩ := bind_eq_ok_iff.mp placedEq
  cases forestEq
  exact (placeList_walk listEq).1

end RuleNode

/-! ## Resolving -/

section

variable {num : Type} [Arith num]

private theorem resolveForest_map_of {trees : List (Tree Label)}
    (each : ∀ tree ∈ trees, ∀ (key : String) (depth : Nat) (resolved : RuleTree num),
      resolveTree key depth tree = .ok resolved → resolved.map Node.name = tree.map Label.name) :
    ∀ (parent : Option String) (depth index : Nat) (resolved : List (RuleTree num)),
      resolveForest parent depth index trees = .ok resolved →
        resolved.map (Tree.map Node.name) = trees.map (Tree.map Label.name) := by
  induction trees with
  | nil =>
      intro parent depth index resolved resolvedEq
      rw [resolveForest] at resolvedEq
      cases resolvedEq
      rfl
  | cons tree trees inductionHypothesis =>
      intro parent depth index resolved resolvedEq
      rw [resolveForest] at resolvedEq
      obtain ⟨first, firstEq, restStep⟩ := bind_eq_ok_iff.mp resolvedEq
      obtain ⟨rest, restEq, listEq⟩ := bind_eq_ok_iff.mp restStep
      cases listEq
      rw [List.map_cons, List.map_cons, each tree List.mem_cons_self _ _ _ firstEq,
        inductionHypothesis (fun other member => each other (List.mem_cons_of_mem tree member)) _ _ _
          _ restEq]

private theorem resolveTree_map (tree : Tree Label) :
    ∀ (key : String) (depth : Nat) (resolved : RuleTree num),
      resolveTree key depth tree = .ok resolved → resolved.map Node.name = tree.map Label.name := by
  induction tree using Tree.induction with
  | node label children inductionHypothesis =>
      intro key depth resolved resolvedEq
      obtain ⟨below, kind, belowEq, _, _, rfl⟩ := resolveTree_eq_ok resolvedEq
      have belowNames := resolveForest_map_of inductionHypothesis _ _ _ _ belowEq
      rw [Tree.map, Tree.map, Tree.mapAll_eq_map, Tree.mapAll_eq_map, belowNames]

/-- A rule stands for the forest that its indentation describes, node by node. -/
theorem exists_placeLevel_of_normalize {nodes : List RuleNode} {forest : List (RuleTree num)}
    (normalized : normalize nodes = .ok forest) :
    ∃ placed, RuleNode.placeLevel 0 nodes = .ok placed ∧
      forest.map (Tree.map Node.name) = placed.map (Tree.map Label.name) := by
  obtain ⟨placed, placedEq, resolvedEq⟩ := normalize_eq_ok normalized
  exact ⟨placed, placedEq,
    resolveForest_map_of (fun tree _ => resolveTree_map tree) _ _ _ _ resolvedEq⟩

/-- No rule is empty. -/
theorem normalize_ne_nil {nodes : List RuleNode} {forest : List (RuleTree num)}
    (normalized : normalize nodes = .ok forest) :
    forest ≠ [] := by
  rintro rfl
  obtain ⟨placed, placedEq, names⟩ := exists_placeLevel_of_normalize normalized
  obtain rfl : placed = [] := by simpa using names.symm
  have labels := RuleNode.preorderAll_of_placeLevel placedEq
  cases nodes with
  | nil => cases normalized
  | cons node nodes => simp [RuleNode.labels_eq] at labels

end

end FuzzyRating
