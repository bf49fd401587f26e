import FuzzyRating.Tree

/-!
Trees by induction, trees with other labels, trees with more trees below their nodes, what comes
of a tree node by node, and the order in which a walk that finishes children first leaves its nodes.
-/

namespace FuzzyRating.Tree

variable {alpha : Type}

/-- What every node has when all its children have it, every tree has. -/
theorem induction {motive : Tree alpha → Prop}
    (node : ∀ label children,
      (∀ child ∈ children, motive child) → motive (.node label children)) :
    ∀ tree, motive tree
  | .node label children =>
      node label children fun child _ => induction node child

theorem preorder_node (label : alpha) (children : List (Tree alpha)) :
    preorder (.node label children) = label :: preorderAll children := by
  rw [preorder]

@[simp]
theorem preorderAll_nil : preorderAll ([] : List (Tree alpha)) = [] := by
  rw [preorderAll]

@[simp]
theorem preorderAll_cons (label : alpha) (children trees : List (Tree alpha)) :
    preorderAll (.node label children :: trees) =
      label :: (preorderAll children ++ preorderAll trees) := by
  rw [preorderAll, preorder_node, List.cons_append]

theorem preorderAll_eq_flatMap (trees : List (Tree alpha)) :
    preorderAll trees = trees.flatMap preorder := by
  induction trees with
  | nil =>
      rw [preorderAll, List.flatMap_nil]
  | cons tree trees inductionHypothesis =>
      rw [preorderAll, List.flatMap_cons, inductionHypothesis]

theorem mem_preorderAll_iff {trees : List (Tree alpha)} {label : alpha} :
    label ∈ preorderAll trees ↔ ∃ tree ∈ trees, label ∈ preorder tree := by
  rw [preorderAll_eq_flatMap, List.mem_flatMap]

theorem mem_preorder_node_iff {inner label : alpha} {children : List (Tree alpha)} :
    inner ∈ preorder (.node label children) ↔
      inner = label ∨ ∃ child ∈ children, inner ∈ preorder child := by
  rw [preorder_node, List.mem_cons, mem_preorderAll_iff]

@[simp]
theorem preorderAll_append (early late : List (Tree alpha)) :
    preorderAll (early ++ late) = preorderAll early ++ preorderAll late := by
  simp only [preorderAll_eq_flatMap, List.flatMap_append]

section

variable {beta : Type}

mutual

/-- The tree of the same shape with other labels. -/
def map (relabel : alpha → beta) : Tree alpha → Tree beta
  | node label children => node (relabel label) (mapAll relabel children)

def mapAll (relabel : alpha → beta) : List (Tree alpha) → List (Tree beta)
  | [] => []
  | tree :: trees => map relabel tree :: mapAll relabel trees

end

theorem mapAll_eq_map (relabel : alpha → beta) (trees : List (Tree alpha)) :
    mapAll relabel trees = trees.map (map relabel) := by
  induction trees with
  | nil => rw [mapAll, List.map_nil]
  | cons tree trees inductionHypothesis => rw [mapAll, List.map_cons, inductionHypothesis]

private theorem preorderAll_map_of {relabel : alpha → beta} {trees : List (Tree alpha)}
    (each : ∀ tree ∈ trees, preorder (map relabel tree) = (preorder tree).map relabel) :
    preorderAll (trees.map (map relabel)) = (preorderAll trees).map relabel := by
  induction trees with
  | nil => simp
  | cons tree trees inductionHypothesis =>
      have first := each tree List.mem_cons_self
      have rest := inductionHypothesis fun other member =>
        each other (List.mem_cons_of_mem tree member)
      rw [List.map_cons, preorderAll, preorderAll, first, rest, List.map_append]

theorem preorder_map (relabel : alpha → beta) (tree : Tree alpha) :
    preorder (map relabel tree) = (preorder tree).map relabel := by
  induction tree using induction with
  | node label children inductionHypothesis =>
      rw [map, preorder, preorder, List.map_cons, mapAll_eq_map,
        preorderAll_map_of inductionHypothesis]

theorem preorderAll_map (relabel : alpha → beta) (trees : List (Tree alpha)) :
    preorderAll (trees.map (map relabel)) = (preorderAll trees).map relabel :=
  preorderAll_map_of fun tree _ => preorder_map relabel tree

end

mutual

/-- The labels of a tree, each after those of its children. -/
def postorder : Tree alpha → List alpha
  | node label children => postorderAll children ++ [label]

/-- The labels of several trees, one tree after the other. -/
def postorderAll : List (Tree alpha) → List alpha
  | [] => []
  | tree :: trees => postorder tree ++ postorderAll trees

end

theorem postorder_node (label : alpha) (children : List (Tree alpha)) :
    postorder (.node label children) = postorderAll children ++ [label] := by
  rw [postorder]

theorem postorderAll_nil :
    postorderAll ([] : List (Tree alpha)) = [] := by
  rw [postorderAll]

theorem postorderAll_cons (tree : Tree alpha) (trees : List (Tree alpha)) :
    postorderAll (tree :: trees) = postorder tree ++ postorderAll trees := by
  rw [postorderAll]

private theorem postorderAll_perm {trees : List (Tree alpha)}
    (each : ∀ tree ∈ trees, (postorder tree).Perm (preorder tree)) :
    (postorderAll trees).Perm (preorderAll trees) := by
  induction trees with
  | nil =>
      rw [postorderAll, preorderAll]
  | cons tree trees inductionHypothesis =>
      rw [postorderAll, preorderAll]
      have first := each tree List.mem_cons_self
      have rest := inductionHypothesis fun other member =>
        each other (List.mem_cons_of_mem tree member)
      exact first.append rest

theorem postorder_perm_preorder (tree : Tree alpha) :
    (postorder tree).Perm (preorder tree) := by
  induction tree using induction with
  | node label children inductionHypothesis =>
      rw [postorder, preorder]
      have below := postorderAll_perm inductionHypothesis
      exact (List.perm_append_singleton label _).trans (below.cons label)

theorem postorderAll_perm_preorderAll (trees : List (Tree alpha)) :
    (postorderAll trees).Perm (preorderAll trees) :=
  postorderAll_perm fun tree _ => postorder_perm_preorder tree

theorem mem_postorderAll_iff {trees : List (Tree alpha)} {label : alpha} :
    label ∈ postorderAll trees ↔ label ∈ preorderAll trees :=
  (postorderAll_perm_preorderAll trees).mem_iff

/-! ## Trees within a tree -/

mutual

/-- The trees within a tree, each after those below it. The tree itself comes last. -/
def subtrees : Tree alpha → List (Tree alpha)
  | node label children => subtreesAll children ++ [node label children]

/-- The trees within several trees, one tree after the other. -/
def subtreesAll : List (Tree alpha) → List (Tree alpha)
  | [] => []
  | tree :: trees => subtrees tree ++ subtreesAll trees

end

theorem subtrees_node (label : alpha) (children : List (Tree alpha)) :
    subtrees (.node label children) = subtreesAll children ++ [.node label children] := by
  rw [subtrees]

theorem subtreesAll_eq_flatMap (trees : List (Tree alpha)) :
    subtreesAll trees = trees.flatMap subtrees := by
  induction trees with
  | nil => rw [subtreesAll, List.flatMap_nil]
  | cons tree trees inductionHypothesis =>
      rw [subtreesAll, List.flatMap_cons, inductionHypothesis]

theorem mem_subtreesAll_iff {trees : List (Tree alpha)} {inner : Tree alpha} :
    inner ∈ subtreesAll trees ↔ ∃ tree ∈ trees, inner ∈ subtrees tree := by
  rw [subtreesAll_eq_flatMap, List.mem_flatMap]

theorem mem_subtrees_node_iff {inner : Tree alpha} {label : alpha} {children : List (Tree alpha)} :
    inner ∈ subtrees (.node label children) ↔
      (∃ child ∈ children, inner ∈ subtrees child) ∨ inner = .node label children := by
  rw [subtrees_node, List.mem_append, List.mem_singleton, mem_subtreesAll_iff]

theorem mem_subtrees_self (tree : Tree alpha) :
    tree ∈ subtrees tree := by
  cases tree with
  | node label children => exact mem_subtrees_node_iff.mpr (Or.inr rfl)

theorem mem_subtrees_of_mem_children {tree child : Tree alpha} (member : child ∈ tree.children) :
    child ∈ subtrees tree := by
  cases tree with
  | node label children =>
      exact mem_subtrees_node_iff.mpr (Or.inl ⟨child, member, mem_subtrees_self child⟩)

theorem mem_subtrees_trans {outer middle inner : Tree alpha}
    (middleWithin : middle ∈ subtrees outer) (innerWithin : inner ∈ subtrees middle) :
    inner ∈ subtrees outer := by
  induction outer using induction with
  | node label children inductionHypothesis =>
      rcases mem_subtrees_node_iff.mp middleWithin with ⟨child, childMember, below⟩ | rfl
      · have inChild := inductionHypothesis child childMember below
        exact mem_subtrees_node_iff.mpr (Or.inl ⟨child, childMember, inChild⟩)
      · exact innerWithin

theorem mem_subtreesAll_trans {trees : List (Tree alpha)} {middle inner : Tree alpha}
    (middleWithin : middle ∈ subtreesAll trees) (innerWithin : inner ∈ subtrees middle) :
    inner ∈ subtreesAll trees := by
  obtain ⟨tree, member, inTree⟩ := mem_subtreesAll_iff.mp middleWithin
  exact mem_subtreesAll_iff.mpr ⟨tree, member, mem_subtrees_trans inTree innerWithin⟩

/-- The tree that a path of child positions leads to, the first of which is a position among the
trees themselves. -/
def treeAt? : List (Tree alpha) → List Nat → Option (Tree alpha)
  | _, [] => none
  | trees, [index] => trees[index]?
  | trees, index :: next :: path =>
      trees[index]?.bind fun tree => treeAt? tree.children (next :: path)

private theorem exists_path_of_mem_subtrees {tree inner : Tree alpha}
    (member : inner ∈ subtrees tree) :
    ∃ path, ∀ trees index, trees[index]? = some tree →
      treeAt? trees (index :: path) = some inner := by
  induction tree using induction with
  | node label children inductionHypothesis =>
      rcases mem_subtrees_node_iff.mp member with ⟨child, childMember, inChild⟩ | rfl
      · obtain ⟨path, leads⟩ := inductionHypothesis child childMember inChild
        obtain ⟨position, childEq⟩ := List.getElem?_of_mem childMember
        refine ⟨position :: path, fun trees index treeEq => ?_⟩
        rw [treeAt?, treeEq]
        exact leads children position childEq
      · exact ⟨[], fun trees index treeEq => treeEq⟩

/-- A path leads to every tree within some trees. -/
theorem exists_treeAt?_eq_some {trees : List (Tree alpha)} {inner : Tree alpha}
    (member : inner ∈ subtreesAll trees) :
    ∃ path, treeAt? trees path = some inner := by
  obtain ⟨tree, treeMember, within⟩ := mem_subtreesAll_iff.mp member
  obtain ⟨path, leads⟩ := exists_path_of_mem_subtrees within
  obtain ⟨index, treeEq⟩ := List.getElem?_of_mem treeMember
  exact ⟨index :: path, leads trees index treeEq⟩

private theorem map_label_subtreesAll_of {trees : List (Tree alpha)}
    (each : ∀ tree ∈ trees, (subtrees tree).map label = postorder tree) :
    (subtreesAll trees).map label = postorderAll trees := by
  induction trees with
  | nil => rw [subtreesAll, postorderAll_nil, List.map_nil]
  | cons tree trees inductionHypothesis =>
      have first := each tree List.mem_cons_self
      have rest := inductionHypothesis fun other member =>
        each other (List.mem_cons_of_mem tree member)
      rw [subtreesAll, postorderAll_cons, List.map_append, first, rest]

theorem map_label_subtrees (tree : Tree alpha) :
    (subtrees tree).map label = postorder tree := by
  induction tree using induction with
  | node name children inductionHypothesis =>
      rw [subtrees_node, postorder_node, List.map_append,
        map_label_subtreesAll_of inductionHypothesis]
      rfl

theorem map_label_subtreesAll (trees : List (Tree alpha)) :
    (subtreesAll trees).map label = postorderAll trees :=
  map_label_subtreesAll_of fun tree _ => map_label_subtrees tree

/-- At every node of some trees stands a tree within them. -/
theorem exists_mem_subtreesAll {trees : List (Tree alpha)} {name : alpha}
    (member : name ∈ preorderAll trees) : ∃ tree ∈ subtreesAll trees, tree.label = name := by
  rw [← mem_postorderAll_iff, ← map_label_subtreesAll] at member
  exact List.mem_map.mp member

/-- The nodes of trees within some trees are nodes of these. -/
theorem mem_preorderAll_of_mem_subtreesAll {trees : List (Tree alpha)} {inner : Tree alpha}
    {name : alpha} (within : inner ∈ subtreesAll trees) (member : name ∈ inner.preorder) :
    name ∈ preorderAll trees := by
  rw [← (postorder_perm_preorder inner).mem_iff, ← map_label_subtrees] at member
  obtain ⟨own, ownMember, rfl⟩ := List.mem_map.mp member
  rw [← mem_postorderAll_iff, ← map_label_subtreesAll]
  exact List.mem_map_of_mem (mem_subtreesAll_trans within ownMember)

/-! ## What comes of a tree -/

section

variable {beta : Type}

mutual

/-- What comes of a tree if each node makes something out of its label and of what comes of its
children. -/
def fold (step : alpha → List beta → beta) : Tree alpha → beta
  | node label children => step label (foldAll step children)

def foldAll (step : alpha → List beta → beta) : List (Tree alpha) → List beta
  | [] => []
  | tree :: trees => fold step tree :: foldAll step trees

end

theorem foldAll_eq_map (step : alpha → List beta → beta) (trees : List (Tree alpha)) :
    foldAll step trees = trees.map (fold step) := by
  induction trees with
  | nil => rw [foldAll, List.map_nil]
  | cons tree trees inductionHypothesis => rw [foldAll, List.map_cons, inductionHypothesis]

theorem fold_node (step : alpha → List beta → beta) (label : alpha)
    (children : List (Tree alpha)) :
    fold step (.node label children) = step label (children.map (fold step)) := by
  rw [fold, foldAll_eq_map]

/-! ## More trees below the nodes -/

mutual

/-- The tree with other labels, where below each node trees that its label asks for come before its
children. -/
def graft (relabel : alpha → beta) (grafts : alpha → List (Tree beta)) : Tree alpha → Tree beta
  | node label children => node (relabel label) (grafts label ++ graftAll relabel grafts children)

def graftAll (relabel : alpha → beta) (grafts : alpha → List (Tree beta)) :
    List (Tree alpha) → List (Tree beta)
  | [] => []
  | tree :: trees => graft relabel grafts tree :: graftAll relabel grafts trees

end

theorem graftAll_eq_map (relabel : alpha → beta) (grafts : alpha → List (Tree beta))
    (trees : List (Tree alpha)) :
    graftAll relabel grafts trees = trees.map (graft relabel grafts) := by
  induction trees with
  | nil => rw [graftAll, List.map_nil]
  | cons tree trees inductionHypothesis => rw [graftAll, List.map_cons, inductionHypothesis]

theorem graft_node (relabel : alpha → beta) (grafts : alpha → List (Tree beta)) (label : alpha)
    (children : List (Tree alpha)) :
    graft relabel grafts (.node label children) =
      .node (relabel label) (grafts label ++ children.map (graft relabel grafts)) := by
  rw [graft, graftAll_eq_map]

/-- Only the labels of a tree matter to what is grafted into it. -/
theorem graft_congr {relabel : alpha → beta} {grafts others : alpha → List (Tree beta)}
    {tree : Tree alpha} (same : ∀ label ∈ preorder tree, grafts label = others label) :
    graft relabel grafts tree = graft relabel others tree := by
  induction tree using induction with
  | node label children inductionHypothesis =>
      have below : children.map (graft relabel grafts) = children.map (graft relabel others) := by
        refine List.map_congr_left fun child member => ?_
        refine inductionHypothesis child member fun inner innerMember => same inner ?_
        exact mem_preorder_node_iff.mpr (Or.inr ⟨child, member, innerMember⟩)
      rw [graft_node, graft_node, same label (mem_preorder_node_iff.mpr (Or.inl rfl)), below]

private theorem preorderAll_graft_of {relabel : alpha → beta} {grafts : alpha → List (Tree beta)}
    {trees : List (Tree alpha)}
    (each : ∀ tree ∈ trees, preorder (graft relabel grafts tree) =
      (preorder tree).flatMap fun label => relabel label :: preorderAll (grafts label)) :
    preorderAll (trees.map (graft relabel grafts)) =
      (preorderAll trees).flatMap fun label => relabel label :: preorderAll (grafts label) := by
  induction trees with
  | nil => simp
  | cons tree trees inductionHypothesis =>
      have first := each tree List.mem_cons_self
      have rest := inductionHypothesis fun other member =>
        each other (List.mem_cons_of_mem tree member)
      rw [List.map_cons, preorderAll, preorderAll, first, rest, List.flatMap_append]

theorem preorder_graft (relabel : alpha → beta) (grafts : alpha → List (Tree beta))
    (tree : Tree alpha) :
    preorder (graft relabel grafts tree) =
      (preorder tree).flatMap fun label => relabel label :: preorderAll (grafts label) := by
  induction tree using induction with
  | node label children inductionHypothesis =>
      rw [graft_node, preorder_node, preorder_node, preorderAll_append, List.flatMap_cons,
        preorderAll_graft_of inductionHypothesis, List.cons_append]

theorem preorderAll_graft (relabel : alpha → beta) (grafts : alpha → List (Tree beta))
    (trees : List (Tree alpha)) :
    preorderAll (trees.map (graft relabel grafts)) =
      (preorderAll trees).flatMap fun label => relabel label :: preorderAll (grafts label) :=
  preorderAll_graft_of fun tree _ => preorder_graft relabel grafts tree

/-- A tree within one that more trees were grafted into is either grown from a tree within the
latter or lies within a tree that was grafted. -/
theorem mem_subtrees_graft {relabel : alpha → beta} {grafts : alpha → List (Tree beta)}
    {tree : Tree alpha} {inner : Tree beta}
    (member : inner ∈ subtrees (graft relabel grafts tree)) :
    (∃ own ∈ subtrees tree, graft relabel grafts own = inner) ∨
      ∃ label ∈ preorder tree, inner ∈ subtreesAll (grafts label) := by
  induction tree using induction with
  | node label children inductionHypothesis =>
      rw [graft_node] at member
      rcases mem_subtrees_node_iff.mp member with ⟨below, belowMember, within⟩ | rfl
      · rcases List.mem_append.mp belowMember with grafted | grown
        · exact Or.inr ⟨label, mem_preorder_node_iff.mpr (Or.inl rfl),
            mem_subtreesAll_iff.mpr ⟨below, grafted, within⟩⟩
        · obtain ⟨child, childMember, rfl⟩ := List.mem_map.mp grown
          rcases inductionHypothesis child childMember within with
            ⟨own, ownWithin, ownEq⟩ | ⟨other, otherMember, inGraft⟩
          · exact Or.inl ⟨own, mem_subtrees_node_iff.mpr (Or.inl ⟨child, childMember, ownWithin⟩),
              ownEq⟩
          · exact Or.inr ⟨other,
              mem_preorder_node_iff.mpr (Or.inr ⟨child, childMember, otherMember⟩), inGraft⟩
      · exact Or.inl ⟨.node label children, mem_subtrees_self _, graft_node _ _ label children⟩

end

end FuzzyRating.Tree
