import FuzzyRating.Proofs.Assessment.SubRule
import FuzzyRating.Proofs.Assessment.Failure

/-!
The full trees of an interpretation: where a leaf stands for another interpretation, the trees of
the latter come below it, and every node has its full key.
-/

namespace FuzzyRating

variable {num : Type}

/-! ## Leaves -/

namespace Catalog

variable {catalog : Catalog num} {label : Node num}

/-- The interpretation that a node stands for, if it is such a leaf. -/
def subRule? (catalog : Catalog num) (label : Node num) : Option (Interpretation num) :=
  match label.refId?.bind catalog.resolve? with
  | some (.interpretation target) => some target
  | _ => none

/-- The evaluation that a node stands for, if it is such a leaf. -/
def evaluationOf? (catalog : Catalog num) (label : Node num) : Option (Evaluation num) :=
  match label.refId?.bind catalog.resolve? with
  | some (.evaluation evaluation) => some evaluation
  | _ => none

theorem subRule?_eq_some_iff {target : Interpretation num} :
    catalog.subRule? label = some target ↔
      ∃ refId, label.refId? = some refId ∧
        catalog.resolve? refId = some (.interpretation target) := by
  unfold subRule?
  rw [← Option.bind_eq_some_iff]
  rcases label.refId?.bind catalog.resolve? with _ | evaluation | other <;> simp

theorem evaluationOf?_eq_some_iff {evaluation : Evaluation num} :
    catalog.evaluationOf? label = some evaluation ↔
      ∃ refId, label.refId? = some refId ∧
        catalog.resolve? refId = some (.evaluation evaluation) := by
  unfold evaluationOf?
  rw [← Option.bind_eq_some_iff]
  rcases label.refId?.bind catalog.resolve? with _ | other | interpretation <;> simp

theorem refersTo_of_subRule? {source target : Interpretation num}
    (member : label ∈ Tree.preorderAll source.roots)
    (found : catalog.subRule? label = some target) :
    catalog.RefersTo source target := by
  obtain ⟨refId, isLeaf, resolved⟩ := subRule?_eq_some_iff.mp found
  exact refersTo_iff.mpr ⟨refId, List.mem_filterMap.mpr ⟨label, member, isLeaf⟩, resolved⟩

end Catalog

/-- A node whose key gets `front` in front. -/
def Node.under (front : String) (label : Node num) : Node num :=
  { label with key := front ++ label.key }

/-! ## Full trees -/

namespace Catalog

/-- The trees that come below a node if it stands for an interpretation. -/
def treesBelow (catalog : Catalog num) (trees : String → Interpretation num → List (RuleTree num))
    (front : String) (label : Node num) : List (RuleTree num) :=
  match catalog.subRule? label with
  | some target => trees (front ++ label.key ++ "/") target
  | none => []

/-- A tree with the trees of interpretations below the leaves that stand for them, and with `front`
in front of its keys. -/
def fullTree (catalog : Catalog num) (trees : String → Interpretation num → List (RuleTree num))
    (front : String) : RuleTree num → RuleTree num :=
  Tree.graft (Node.under front) (catalog.treesBelow trees front)

theorem fullTree_node (catalog : Catalog num)
    (trees : String → Interpretation num → List (RuleTree num)) (front : String)
    (label : Node num) (children : List (RuleTree num)) :
    catalog.fullTree trees front (.node label children) =
      .node (label.under front)
        (catalog.treesBelow trees front label ++ children.map (catalog.fullTree trees front)) :=
  Tree.graft_node _ _ label children

theorem treesBelow_eq_nil {catalog : Catalog num} {label : Node num} (notLeaf : label.refId? = none)
    (trees : String → Interpretation num → List (RuleTree num)) (front : String) :
    catalog.treesBelow trees front label = [] := by
  simp only [treesBelow, subRule?, notLeaf, Option.bind_none]

/-- The full trees of an interpretation down to some depth, with `front` in front of their keys. -/
def fullTreesWithin (catalog : Catalog num) :
    Nat → String → Interpretation num → List (RuleTree num)
  | 0, _, _ => []
  | depth + 1, front, target =>
      target.roots.map (catalog.fullTree (fullTreesWithin catalog depth) front)

/-- The full trees of an interpretation with `front` in front of their keys. Interpretations do not
nest deeper than there are of them. -/
def fullTreesUnder (catalog : Catalog num) (front : String) (target : Interpretation num) :
    List (RuleTree num) :=
  catalog.fullTreesWithin catalog.interpretations.length front target

/-- The full trees of an interpretation. -/
def fullTrees (catalog : Catalog num) (target : Interpretation num) : List (RuleTree num) :=
  catalog.fullTreesUnder "" target

/-! ## The children of nodes -/

/-- The root has children as its kind takes them: one below a hedge and none at an evaluation. -/
structure FitsKind (catalog : Catalog num) (tree : RuleTree num) : Prop where
  hedge : ∀ hedge parameter, tree.label.kind = .hedge hedge parameter →
    ∃ child, tree.children = [child]
  evaluation : ∀ evaluation, catalog.evaluationOf? tree.label = some evaluation →
    tree.children = []

section Children

variable {catalog : Catalog num} {target : Interpretation num}

private theorem fullTree_fitsKind {tree : RuleTree num} {place : String}
    (resolved : ResolvedAt place tree)
    (trees : String → Interpretation num → List (RuleTree num)) (front : String) :
    catalog.FitsKind (catalog.fullTree trees front tree) := by
  cases tree with
  | node label children =>
      rw [fullTree_node]
      constructor
      · intro hedge parameter kind
        have inner : label.refId? = none := by
          have kind : label.kind = .hedge hedge parameter := kind
          simp only [Node.refId?, kind]
        obtain ⟨child, rfl⟩ := children_eq_singleton_of_hedge resolved kind
        exact ⟨catalog.fullTree trees front child, by rw [treesBelow_eq_nil inner]; rfl⟩
      · intro evaluation found
        have found : catalog.evaluationOf? label = some evaluation := found
        obtain ⟨refId, isLeaf, stands⟩ := evaluationOf?_eq_some_iff.mp found
        obtain rfl := children_eq_nil_of_evaluation resolved (Node.refId?_eq_some_iff.mp isLeaf)
        have notSubRule : catalog.subRule? label = none := by
          simp only [subRule?, isLeaf, Option.bind_some, stands]
        change catalog.treesBelow trees front label ++ [] = []
        simp only [treesBelow, notSubRule, List.append_nil]

theorem fitsKind_of_mem_fullTreesWithin [Arith num]
    (normalized : ∀ interpretation ∈ catalog.interpretations,
      ∃ nodes, normalize nodes = .ok interpretation.roots)
    (known : target ∈ catalog.interpretations) {depth : Nat} {front : String}
    {tree : RuleTree num}
    (member : tree ∈ Tree.subtreesAll (catalog.fullTreesWithin depth front target)) :
    catalog.FitsKind tree := by
  induction depth generalizing front target with
  | zero => simp [fullTreesWithin, Tree.subtreesAll] at member
  | succ depth inductionHypothesis =>
      obtain ⟨nodes, normalizedEq⟩ := normalized target known
      rw [fullTreesWithin] at member
      obtain ⟨tree, treeMember, within⟩ := Tree.mem_subtreesAll_iff.mp member
      obtain ⟨root, rootMember, rfl⟩ := List.mem_map.mp treeMember
      obtain ⟨place, resolved⟩ := (normalize_resolved normalizedEq).of_mem rootMember
      rcases Tree.mem_subtrees_graft within with ⟨own, ownWithin, rfl⟩ | ⟨label, inRoot, grafted⟩
      · obtain ⟨ownPlace, ownResolved⟩ := resolved.of_mem_subtrees ownWithin
        exact fullTree_fitsKind ownResolved _ front
      · unfold treesBelow at grafted
        split at grafted
        · next next found =>
            have inForest : label ∈ Tree.preorderAll target.roots :=
              Tree.mem_preorderAll_iff.mpr ⟨root, rootMember, inRoot⟩
            exact inductionHypothesis (refersTo_of_subRule? inForest found).mem grafted
        · simp [Tree.subtreesAll] at grafted

end Children

/-! ## The depth does not matter -/

section Depth

variable {catalog : Catalog num} {target : Interpretation num}

/-- A chain of references passes no interpretation twice. -/
theorem length_lt_of_isReferenceChain (acyclic : catalog.Acyclic)
    (known : target ∈ catalog.interpretations) {chain : List (Interpretation num)}
    (isChain : catalog.IsReferenceChain (target :: chain)) :
    chain.length < catalog.interpretations.length := by
  have ordered : (target :: chain).Pairwise (Relation.TransGen catalog.RefersTo) :=
    (isChain.imp fun _ _ refers => Relation.TransGen.single refers).pairwise
  have distinct : (target :: chain).Nodup := by
    refine ordered.imp fun {first second} way same => ?_
    subst same
    exact acyclic.not_transGen_refersTo first way
  have allKnown : target :: chain ⊆ catalog.interpretations := by
    intro interpretation member
    rcases List.mem_cons.mp member with rfl | later
    · exact known
    · have way := (List.pairwise_cons.mp ordered).1 interpretation later
      obtain ⟨_, _, refers⟩ := Relation.TransGen.tail'_iff.mp way
      exact refers.mem
  exact (List.subperm_of_subset distinct allKnown).length_le

private theorem map_fullTree_congr
    {trees others : String → Interpretation num → List (RuleTree num)}
    (same : ∀ next, catalog.RefersTo target next → ∀ front, trees front next = others front next)
    (front : String) :
    target.roots.map (catalog.fullTree trees front) =
      target.roots.map (catalog.fullTree others front) := by
  refine List.map_congr_left fun root member => Tree.graft_congr fun label inRoot => ?_
  have inForest : label ∈ Tree.preorderAll target.roots :=
    Tree.mem_preorderAll_iff.mpr ⟨root, member, inRoot⟩
  unfold treesBelow
  cases found : catalog.subRule? label with
  | none => rfl
  | some next => exact same next (refersTo_of_subRule? inForest found) _

/-- Beyond the longest chain of references more depth adds nothing. -/
private theorem fullTreesWithin_eq_of_le {depth more : Nat}
    (enough : ∀ chain, catalog.IsReferenceChain (target :: chain) → chain.length < depth)
    (le : depth ≤ more) (front : String) :
    catalog.fullTreesWithin depth front target = catalog.fullTreesWithin more front target := by
  induction depth generalizing more front target with
  | zero => exact absurd (enough [] (List.isChain_singleton target)) (Nat.not_lt_zero _)
  | succ depth inductionHypothesis =>
      obtain ⟨less, rfl⟩ : ∃ less, more = less + 1 := ⟨more - 1, by omega⟩
      rw [fullTreesWithin, fullTreesWithin]
      refine map_fullTree_congr (fun next refers inner => ?_) front
      refine inductionHypothesis (fun chain isChain => ?_) (Nat.le_of_succ_le_succ le) inner
      have longer := enough (next :: chain) (isChain.cons_cons refers)
      exact Nat.lt_of_succ_lt_succ longer

/-- Below a leaf that stands for an interpretation come the full trees of the latter. -/
theorem fullTreesUnder_eq (acyclic : catalog.Acyclic) (known : target ∈ catalog.interpretations)
    (front : String) :
    catalog.fullTreesUnder front target =
      target.roots.map (catalog.fullTree catalog.fullTreesUnder front) := by
  obtain ⟨depth, depthEq⟩ : ∃ depth, catalog.interpretations.length = depth + 1 :=
    ⟨catalog.interpretations.length - 1, by have := List.length_pos_of_mem known; omega⟩
  have unfolded : catalog.fullTreesUnder front target =
      target.roots.map (catalog.fullTree (catalog.fullTreesWithin depth) front) := by
    rw [fullTreesUnder, depthEq, fullTreesWithin]
  rw [unfolded]
  refine map_fullTree_congr (fun next refers inner => ?_) front
  refine fullTreesWithin_eq_of_le (fun chain isChain => ?_) (by omega) inner
  have longer := length_lt_of_isReferenceChain acyclic known (isChain.cons_cons refers)
  rw [List.length_cons] at longer
  omega

end Depth

/-! ## Full keys -/

section Keys

variable {catalog : Catalog num} {target : Interpretation num}

theorem preorderAll_map_fullTree (catalog : Catalog num)
    (trees : String → Interpretation num → List (RuleTree num)) (front : String)
    (roots : List (RuleTree num)) :
    Tree.preorderAll (roots.map (catalog.fullTree trees front)) =
      (Tree.preorderAll roots).flatMap fun label => label.under front ::
        Tree.preorderAll (catalog.treesBelow trees front label) :=
  Tree.preorderAll_graft _ _ roots

theorem preorderAll_fullTreesWithin (catalog : Catalog num) (depth : Nat) (front : String)
    (target : Interpretation num) :
    Tree.preorderAll (catalog.fullTreesWithin (depth + 1) front target) =
      (Tree.preorderAll target.roots).flatMap fun label => label.under front ::
        Tree.preorderAll (catalog.treesBelow (catalog.fullTreesWithin depth) front label) := by
  rw [fullTreesWithin, preorderAll_map_fullTree]

/-- The nodes of full trees are those of interpretations, with something in front of their keys. -/
theorem exists_under_of_mem_fullTreesWithin (known : target ∈ catalog.interpretations)
    {depth : Nat} {front : String} {label : Node num}
    (member : label ∈ Tree.preorderAll (catalog.fullTreesWithin depth front target)) :
    ∃ source ∈ catalog.interpretations, ∃ own ∈ Tree.preorderAll source.roots,
      ∃ before, label = own.under before := by
  induction depth generalizing front target with
  | zero => simp [fullTreesWithin] at member
  | succ depth inductionHypothesis =>
      rw [preorderAll_fullTreesWithin] at member
      obtain ⟨own, ownMember, inBlock⟩ := List.mem_flatMap.mp member
      rcases List.mem_cons.mp inBlock with rfl | below
      · exact ⟨target, known, own, ownMember, front, rfl⟩
      · unfold treesBelow at below
        split at below
        · next next found =>
            exact inductionHypothesis (refersTo_of_subRule? ownMember found).mem below
        · simp at below

private theorem exists_key_eq_append {depth : Nat} {front : String} {label : Node num}
    (member : label ∈ Tree.preorderAll (catalog.fullTreesWithin depth front target)) :
    ∃ rest, label.key = front ++ rest := by
  induction depth generalizing front target with
  | zero => simp [fullTreesWithin] at member
  | succ depth inductionHypothesis =>
      rw [preorderAll_fullTreesWithin] at member
      obtain ⟨own, _, inBlock⟩ := List.mem_flatMap.mp member
      rcases List.mem_cons.mp inBlock with rfl | below
      · exact ⟨own.key, rfl⟩
      · unfold treesBelow at below
        split at below
        · obtain ⟨rest, keyEq⟩ := inductionHypothesis below
          exact ⟨own.key ++ "/" ++ rest, by rw [keyEq]; simp only [String.append_assoc]⟩
        · simp at below

/-- The keys from a node on down to where the next node of the rule stands. -/
private theorem exists_isKeyOf {depth : Nat} {front : String} {own label : Node num}
    (member : label ∈ own.under front ::
      Tree.preorderAll (catalog.treesBelow (catalog.fullTreesWithin depth) front own)) :
    ∃ rest, label.key = front ++ rest ∧ IsKeyOf own.key rest := by
  rcases List.mem_cons.mp member with rfl | below
  · exact ⟨own.key, rfl, Or.inl rfl⟩
  · unfold treesBelow at below
    split at below
    · obtain ⟨rest, keyEq⟩ := exists_key_eq_append below
      refine ⟨own.key ++ "/" ++ rest, ?_, Or.inr ⟨rest, rfl⟩⟩
      rw [keyEq]
      simp only [String.append_assoc]
    · simp at below

/-- No two nodes of full trees have the same key. -/
theorem fullKeys_nodup [Arith num]
    (normalized : ∀ interpretation ∈ catalog.interpretations,
      ∃ nodes, normalize nodes = .ok interpretation.roots)
    (known : target ∈ catalog.interpretations) (depth : Nat) (front : String) :
    ((Tree.preorderAll (catalog.fullTreesWithin depth front target)).map Node.key).Nodup := by
  induction depth generalizing front target with
  | zero => simp [fullTreesWithin]
  | succ depth inductionHypothesis =>
      obtain ⟨nodes, normalizedEq⟩ := normalized target known
      have resolved := normalize_resolved normalizedEq
      rw [preorderAll_fullTreesWithin, List.map_flatMap, List.nodup_flatMap]
      constructor
      · intro own ownMember
        rw [List.map_cons, List.nodup_cons]
        unfold treesBelow
        cases found : catalog.subRule? own with
        | none => simp
        | some next =>
            have nextKnown := (refersTo_of_subRule? ownMember found).mem
            refine ⟨?_, inductionHypothesis nextKnown _⟩
            intro repeated
            obtain ⟨label, member, sameKey⟩ := List.mem_map.mp repeated
            obtain ⟨rest, keyEq⟩ := exists_key_eq_append member
            have sameLength := congrArg String.length (keyEq.symm.trans sameKey)
            have slash : "/".length = 1 := rfl
            simp only [Node.under, String.length_append] at sameLength
            omega
      · have ownDistinct := List.pairwise_map.mp (keys_nodup resolved)
        refine ownDistinct.imp_of_mem fun {first second} firstMember secondMember different => ?_
        intro key inFirst inSecond
        obtain ⟨firstLabel, firstBlock, rfl⟩ := List.mem_map.mp inFirst
        obtain ⟨secondLabel, secondBlock, sameKey⟩ := List.mem_map.mp inSecond
        obtain ⟨firstRest, firstEq, ofFirst⟩ := exists_isKeyOf firstBlock
        obtain ⟨secondRest, secondEq, ofSecond⟩ := exists_isKeyOf secondBlock
        rw [firstEq, secondEq, String.append_right_inj] at sameKey
        subst sameKey
        exact different (ofFirst.unique ofSecond (slash_not_mem_key resolved first firstMember)
          (slash_not_mem_key resolved second secondMember))

end Keys

end Catalog

end FuzzyRating
