import FuzzyRating.Proofs.Assessment.Trace
import FuzzyRating.Proofs.Rule.Walk

/-!
The leaves of full trees. In a checked catalog a node of a full tree has no children if it stands for
an evaluation, and only then, so the leaves from left to right are the evaluations that are read.
-/

namespace FuzzyRating

/-! ## Leaves of trees -/

namespace Tree

variable {alpha beta : Type}

/-- The labels of the nodes without children, from left to right. -/
def leavesAll (trees : List (Tree alpha)) : List alpha :=
  ((subtreesAll trees).filter (·.children.isEmpty)).map label

theorem leavesAll_eq_flatMap (trees : List (Tree alpha)) :
    leavesAll trees = trees.flatMap fun tree => leavesAll [tree] := by
  simp only [leavesAll, subtreesAll_eq_flatMap, List.filter_flatMap, List.map_flatMap,
    List.flatMap_singleton]

theorem leavesAll_leaf (name : alpha) :
    leavesAll [node name []] = [name] := by
  simp [leavesAll, subtreesAll, subtrees_node, children, label]

/-- A node with children has the leaves of these. -/
theorem leavesAll_node (name : alpha) {children : List (Tree alpha)} (inner : children ≠ []) :
    leavesAll [node name children] = leavesAll children := by
  have notLeaf : (node name children).children.isEmpty = false := by
    simpa [Tree.children] using inner
  simp only [leavesAll, subtreesAll_eq_flatMap, List.flatMap_singleton, subtrees_node,
    List.filter_append, List.filter_singleton, notLeaf, cond_false, List.append_nil]

private theorem filterMap_postorderAll_of {read : alpha → Option beta} {trees : List (Tree alpha)}
    (each : ∀ tree ∈ trees, (postorder tree).filterMap read = (preorder tree).filterMap read) :
    (postorderAll trees).filterMap read = (preorderAll trees).filterMap read := by
  induction trees with
  | nil => rw [postorderAll_nil, preorderAll_nil]
  | cons tree trees inductionHypothesis =>
      have first := each tree List.mem_cons_self
      have rest := inductionHypothesis fun other member =>
        each other (List.mem_cons_of_mem tree member)
      rw [postorderAll_cons, preorderAll, List.filterMap_append, List.filterMap_append, first, rest]

/-- Whether nodes come before or after those below them does not matter to what is read off the
leaves alone. -/
theorem filterMap_postorder {read : alpha → Option beta} {tree : Tree alpha}
    (atLeaves : ∀ inner ∈ subtrees tree, inner.children ≠ [] → read inner.label = none) :
    (postorder tree).filterMap read = (preorder tree).filterMap read := by
  induction tree using induction with
  | node name children inductionHypothesis =>
      have below : (postorderAll children).filterMap read =
          (preorderAll children).filterMap read := by
        refine filterMap_postorderAll_of fun child member => ?_
        refine inductionHypothesis child member fun inner within => atLeaves inner ?_
        exact mem_subtrees_node_iff.mpr (Or.inl ⟨child, member, within⟩)
      rw [postorder_node, preorder_node, List.filterMap_append, List.filterMap_cons, below]
      by_cases isLeaf : children = []
      · subst isLeaf
        rw [preorderAll_nil, List.filterMap_nil, List.nil_append]
        rfl
      · have nothing : read name = none := atLeaves _ (mem_subtrees_self _) isLeaf
        simp [nothing]

theorem filterMap_postorderAll {read : alpha → Option beta} {trees : List (Tree alpha)}
    (atLeaves : ∀ inner ∈ subtreesAll trees, inner.children ≠ [] → read inner.label = none) :
    (postorderAll trees).filterMap read = (preorderAll trees).filterMap read := by
  refine filterMap_postorderAll_of fun tree member => ?_
  refine filterMap_postorder fun inner within => atLeaves inner ?_
  exact mem_subtreesAll_iff.mpr ⟨tree, member, within⟩

/-- What is read off each leaf and off nothing else. -/
theorem map_leavesAll {read : alpha → Option beta} {trees : List (Tree alpha)}
    (atLeaves : ∀ inner ∈ subtreesAll trees, inner.children ≠ [] ↔ read inner.label = none) :
    (leavesAll trees).map read = ((preorderAll trees).filterMap read).map some := by
  have general (inners : List (Tree alpha))
      (ofInners : ∀ inner ∈ inners, inner.children ≠ [] ↔ read inner.label = none) :
      ((inners.filter (·.children.isEmpty)).map label).map read =
        ((inners.map label).filterMap read).map some := by
    induction inners with
    | nil => rfl
    | cons inner inners inductionHypothesis =>
        have rest := inductionHypothesis fun other member =>
          ofInners other (List.mem_cons_of_mem inner member)
        have first := ofInners inner List.mem_cons_self
        by_cases isLeaf : inner.children = []
        · obtain ⟨result, found⟩ : ∃ result, read inner.label = some result :=
            Option.ne_none_iff_exists'.mp fun nothing => first.mpr nothing isLeaf
          simpa [isLeaf, found] using rest
        · simpa [isLeaf, first.mp isLeaf] using rest
  rw [leavesAll, general _ atLeaves, map_label_subtreesAll,
    filterMap_postorderAll fun inner within => (atLeaves inner within).mp]

end Tree

/-! ## Leaves of full trees -/

section Checked

variable {num : Type} [Arith num] {catalog : Catalog num} {target : Interpretation num}

omit [Arith num] in
/-- Only a leaf may have no children. -/
theorem exists_refId_of_resolvedAt {key : String} {label : Node num}
    (resolved : ResolvedAt key (.node label [])) :
    ∃ refId, label.kind = .evaluation refId := by
  obtain ⟨_, admitted, _⟩ := resolvedAt_node_iff.mp resolved
  cases kind : label.kind with
  | evaluation refId => exact ⟨refId, rfl⟩
  | root => simp [kind, NodeKind.arity, Arity.admits] at admitted
  | operator operator =>
      rw [kind] at admitted
      cases operator <;> simp [NodeKind.arity, Operator.fixedArity, Arity.admits] at admitted
  | hedge hedge parameter => simp [kind, NodeKind.arity, Arity.admits] at admitted

/-- A node of the trees of an interpretation stands for an evaluation if nothing comes below it in the
full trees. -/
theorem exists_evaluationOf?_of_own (checked : catalog.Checked)
    (known : target ∈ catalog.interpretations) {front : String} {root own : RuleTree num}
    (rootMember : root ∈ target.roots) (within : own ∈ root.subtrees)
    (noChildren : (catalog.fullTree catalog.fullTreesUnder front own).children = []) :
    ∃ evaluation, catalog.evaluationOf? own.label = some evaluation := by
  obtain ⟨nodes, normalized⟩ := checked.normalized target known
  obtain ⟨_, rootResolved⟩ := (normalize_resolved normalized).of_mem rootMember
  obtain ⟨_, ownResolved⟩ := rootResolved.of_mem_subtrees within
  obtain ⟨label, children⟩ := own
  rw [Catalog.fullTree_node] at noChildren
  obtain ⟨noneBelow, noneGrown⟩ := List.append_eq_nil_iff.mp noChildren
  obtain rfl := List.map_eq_nil_iff.mp noneGrown
  obtain ⟨refId, kind⟩ := exists_refId_of_resolvedAt ownResolved
  have isLeaf : label.refId? = some refId := Node.refId?_eq_some_iff.mpr kind
  have inForest : label ∈ Tree.preorderAll target.roots :=
    Tree.mem_preorderAll_of_mem_subtreesAll
      (Tree.mem_subtreesAll_iff.mpr ⟨root, rootMember, within⟩)
      (Tree.mem_preorder_node_iff.mpr (Or.inl rfl))
  obtain ⟨stands, resolved⟩ := checked.references target known refId
    (List.mem_filterMap.mpr ⟨label, inForest, isLeaf⟩)
  cases stands with
  | evaluation evaluation =>
      exact ⟨evaluation, Catalog.evaluationOf?_eq_some_iff.mpr ⟨refId, isLeaf, resolved⟩⟩
  | interpretation next =>
      -- then its trees, of which there is one at least, came below
      have found : catalog.subRule? label = some next :=
        Catalog.subRule?_eq_some_iff.mpr ⟨refId, isLeaf, resolved⟩
      have nextKnown := (Catalog.refersTo_of_subRule? inForest found).mem
      obtain ⟨nextNodes, nextNormalized⟩ := checked.normalized next nextKnown
      simp only [Catalog.treesBelow, found,
        Catalog.fullTreesUnder_eq checked.acyclic nextKnown, List.map_eq_nil_iff]
        at noneBelow
      exact absurd noneBelow (normalize_ne_nil nextNormalized)

/-- A node of a full tree that has no children stands for an evaluation. -/
theorem exists_evaluationOf?_of_children_eq_nil (checked : catalog.Checked)
    (known : target ∈ catalog.interpretations) {front : String} {tree : RuleTree num}
    (member : tree ∈ Tree.subtreesAll (catalog.fullTreesUnder front target))
    (noChildren : tree.children = []) :
    ∃ evaluation, catalog.evaluationOf? tree.label = some evaluation := by
  induction target using checked.acyclic.induction generalizing front with
  | _ target inductionHypothesis =>
      rw [Catalog.fullTreesUnder_eq checked.acyclic known] at member
      obtain ⟨grown, grownMember, within⟩ := Tree.mem_subtreesAll_iff.mp member
      obtain ⟨root, rootMember, rfl⟩ := List.mem_map.mp grownMember
      rcases Tree.mem_subtrees_graft within with ⟨own, ownWithin, rfl⟩ | ⟨label, inRoot, grafted⟩
      · obtain ⟨evaluation, stands⟩ :=
          exists_evaluationOf?_of_own checked known rootMember ownWithin noChildren
        obtain ⟨label, children⟩ := own
        exact ⟨evaluation, stands⟩
      · unfold Catalog.treesBelow at grafted
        split at grafted
        · next next found =>
            have inForest : label ∈ Tree.preorderAll target.roots :=
              Tree.mem_preorderAll_iff.mpr ⟨root, rootMember, inRoot⟩
            have refers := Catalog.refersTo_of_subRule? inForest found
            exact inductionHypothesis next refers refers.mem grafted
        · simp [Tree.subtreesAll] at grafted

/-- The leaves of full trees are the nodes that stand for evaluations. -/
theorem children_ne_nil_iff (checked : catalog.Checked) (known : target ∈ catalog.interpretations)
    {tree : RuleTree num} (member : tree ∈ Tree.subtreesAll (catalog.fullTrees target)) :
    tree.children ≠ [] ↔ catalog.evaluationOf? tree.label = none := by
  have fits := Catalog.fitsKind_of_mem_fullTreesWithin checked.normalized known member
  constructor
  · intro inner
    apply Option.eq_none_iff_forall_ne_some.mpr
    intro evaluation found
    exact inner (fits.evaluation evaluation found)
  · intro nothing noChildren
    obtain ⟨evaluation, found⟩ :=
      exists_evaluationOf?_of_children_eq_nil checked known member noChildren
    rw [nothing] at found
    cases found

/-- Every leaf of the full trees stands for one of the evaluations that are read. -/
theorem map_evaluationOf?_leavesAll (checked : catalog.Checked)
    (known : target ∈ catalog.interpretations) :
    (Tree.leavesAll (catalog.fullTrees target)).map catalog.evaluationOf? =
      (catalog.evaluationsRead target).map some :=
  Tree.map_leavesAll fun _ within => children_ne_nil_iff checked known within

end Checked

end FuzzyRating
