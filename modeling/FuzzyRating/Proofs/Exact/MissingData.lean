import FuzzyRating.Proofs.Assessment.Leaves
import FuzzyRating.Proofs.Assessment.Policy
import FuzzyRating.Proofs.Exact.Rating

/-!
What the treatment of missing data comes to for a whole interpretation. Where no hedge replaces absent
ratings, an interpretation is rated if all leaves are rated or, if missing data is ignored, if one
leaf is. Where all leaves are rated the treatment does not matter.
-/

namespace FuzzyRating

open Exact

/-! ## What is asked of the parts of a whole -/

namespace MissingData

variable {alpha beta : Type} {isRated : alpha → Prop}

/-- If missing data propagates all parts have to be rated, and if it is ignored one of them. -/
def Asks (isRated : alpha → Prop) (parts : List alpha) : MissingData → Prop
  | propagate => ∀ part ∈ parts, isRated part
  | ignore => ∃ part ∈ parts, isRated part

theorem asks_singleton (policy : MissingData) (part : alpha) :
    policy.Asks isRated [part] ↔ isRated part := by
  cases policy <;> simp [Asks]

/-- It comes to the same to ask it of parts of parts. -/
theorem asks_flatMap (policy : MissingData) (parts : beta → List alpha) (wholes : List beta) :
    policy.Asks isRated (wholes.flatMap parts) ↔
      policy.Asks (fun whole => policy.Asks isRated (parts whole)) wholes := by
  cases policy with
  | propagate =>
      simp only [Asks, List.mem_flatMap]
      constructor
      · intro all whole member part within
        exact all part ⟨whole, member, within⟩
      · rintro all part ⟨whole, member, within⟩
        exact all whole member part within
  | ignore =>
      simp only [Asks, List.mem_flatMap]
      constructor
      · rintro ⟨part, ⟨whole, member, within⟩, rated⟩
        exact ⟨whole, member, part, within, rated⟩
      · rintro ⟨whole, member, part, within, rated⟩
        exact ⟨part, ⟨whole, member, within⟩, rated⟩

end MissingData

/-! ## Combinations -/

section Combinations

variable {num : Type} [Arith num]

theorem Operator.combine_isSome_iff (operator : Operator) {ratings : List (Option num)} :
    (operator.combine ratings).isSome = true ↔
      ∃ value, some value ∈ ratings ∧ Arith.isNaN value = false := by
  have ratedIff : (∃ value, value ∈ rated ratings) ↔
      ∃ value, some value ∈ ratings ∧ Arith.isNaN value = false := by
    simp [rated, List.mem_filterMap, Option.filter_eq_some_iff]
  rw [← ratedIff]
  unfold combine
  cases rated ratings with
  | nil => simp
  | cons first rest => simp

namespace NodeValue

omit [Arith num] in
theorem rating_ofRating (rating : Option num) :
    (ofRating rating).rating = rating := by
  cases rating <;> rfl

omit [Arith num] in
theorem ofRating_rating {value : NodeValue num} (notVetoed : value ≠ .vetoed) :
    ofRating value.rating = value := by
  cases value with
  | vetoed => exact absurd rfl notVetoed
  | _ => rfl

omit [Arith num] in
theorem ofRating_ne_vetoed (rating : Option num) :
    ofRating rating ≠ .vetoed := by
  cases rating <;> rintro ⟨⟩

omit [Arith num] in
theorem isNotRated_of_isSome {value : NodeValue num} (isRated : value.rating.isSome = true) :
    value.isNotRated = false := by
  cases value with
  | rated value => rfl
  | notRated => cases isRated
  | vetoed => rfl

/-- Nothing is missing where all values are rated. -/
theorem combine_of_rated {values : List (NodeValue num)}
    (allRated : ∀ value ∈ values, value.rating.isSome = true) (policy other : MissingData)
    (operator : Operator) :
    combine policy operator values = combine other operator values := by
  have noneMissing : values.any isNotRated = false :=
    List.any_eq_false.mpr fun value member => by
      simp [isNotRated_of_isSome (allRated value member)]
  unfold combine
  rw [noneMissing, Bool.and_false, Bool.and_false]

theorem together_of_rated {values : List (NodeValue num)}
    (allRated : ∀ value ∈ values, value.rating.isSome = true) (policy other : MissingData) :
    together policy values = together other values := by
  rcases values with _ | ⟨value, _ | ⟨second, rest⟩⟩
  · exact combine_of_rated allRated policy other .and
  · rfl
  · exact combine_of_rated allRated policy other .and

end NodeValue

end Combinations

/-! ## Values that reflect what was missing -/

variable {scalar : Type} [Field scalar] [LinearOrder scalar] [IsStrictOrderedRing scalar]
  {power : scalar → scalar → scalar}

namespace NodeValue

/-- A value in the unit interval that is rated under a condition, and not vetoed. -/
structure Reflects (value : NodeValue (Exact power)) (isRated : Prop) : Prop where
  notVetoed : value ≠ .vetoed
  inUnit : value.InUnit
  isRated : value.rating.isSome = true ↔ isRated

variable {value : NodeValue (Exact power)} {isRated : Prop}

omit [IsStrictOrderedRing scalar] in
theorem Reflects.congr {other : Prop} (reflects : value.Reflects isRated)
    (same : isRated ↔ other) : value.Reflects other :=
  { reflects with isRated := reflects.isRated.trans same }

omit [IsStrictOrderedRing scalar] in
theorem Reflects.isNotRated_eq_true_iff (reflects : value.Reflects isRated) :
    value.isNotRated = true ↔ ¬ isRated := by
  have notVetoed := reflects.notVetoed
  rw [← reflects.isRated]
  cases value with
  | rated value => simp [isNotRated, rating]
  | notRated => simp [isNotRated, rating]
  | vetoed => exact absurd rfl notVetoed

omit [IsStrictOrderedRing scalar] in
theorem Reflects.exists_number_iff (reflects : value.Reflects isRated) :
    (∃ number, value.rating = some number ∧ Arith.isNaN number = false) ↔ isRated := by
  rw [← reflects.isRated, Option.isSome_iff_exists]
  constructor
  · rintro ⟨number, isRating, _⟩
    exact ⟨number, isRating⟩
  · rintro ⟨number, isRating⟩
    exact ⟨number, isRating, (reflects.inUnit number isRating).isNaN⟩

section Parts

variable {alpha : Type} {parts : List alpha} {valueOf : alpha → NodeValue (Exact power)}
  {partRated : alpha → Prop}

omit [IsStrictOrderedRing scalar] in
theorem any_isVetoed_of_reflect
    (each : ∀ part ∈ parts, (valueOf part).Reflects (partRated part)) :
    (parts.map valueOf).any isVetoed = false := by
  rw [List.any_map, List.any_eq_false]
  intro part member
  have notVetoed := (each part member).notVetoed
  cases value : valueOf part with
  | vetoed => exact absurd value notVetoed
  | _ => simp [isVetoed, value]

omit [IsStrictOrderedRing scalar] in
theorem any_isNotRated_iff_of_reflect
    (each : ∀ part ∈ parts, (valueOf part).Reflects (partRated part)) :
    (parts.map valueOf).any isNotRated = true ↔ ∃ part ∈ parts, ¬ partRated part := by
  rw [List.any_map, List.any_eq_true]
  exact exists_congr fun part => and_congr_right fun member =>
    (each part member).isNotRated_eq_true_iff

omit [IsStrictOrderedRing scalar] in
theorem combine_isSome_iff_of_reflect
    (each : ∀ part ∈ parts, (valueOf part).Reflects (partRated part)) (operator : Operator) :
    (ofRating (operator.combine ((parts.map valueOf).map rating))).rating.isSome = true ↔
      ∃ part ∈ parts, partRated part := by
  rw [rating_ofRating, Operator.combine_isSome_iff, List.map_map]
  simp only [List.mem_map, Function.comp_apply]
  constructor
  · rintro ⟨number, ⟨part, member, isRating⟩, notNaN⟩
    exact ⟨part, member, (each part member).exists_number_iff.mp ⟨number, isRating, notNaN⟩⟩
  · rintro ⟨part, member, rated⟩
    obtain ⟨number, isRating, notNaN⟩ := (each part member).exists_number_iff.mpr rated
    exact ⟨number, ⟨part, member, isRating⟩, notNaN⟩

theorem combine_reflects (nonempty : parts ≠ [])
    (each : ∀ part ∈ parts, (valueOf part).Reflects (partRated part)) (policy : MissingData)
    (operator : Operator) :
    (combine policy operator (parts.map valueOf)).Reflects (policy.Asks partRated parts) := by
  have inUnit : (combine policy operator (parts.map valueOf)).InUnit := by
    refine combine_inUnit policy operator fun value member => ?_
    obtain ⟨part, partMember, rfl⟩ := List.mem_map.mp member
    exact (each part partMember).inUnit
  have combined := combine_isSome_iff_of_reflect each operator
  unfold combine at inUnit ⊢
  rw [any_isVetoed_of_reflect each] at inUnit ⊢
  cases policy with
  | ignore => exact ⟨ofRating_ne_vetoed _, inUnit, combined⟩
  | propagate =>
      by_cases missing : ∃ part ∈ parts, ¬ partRated part
      · rw [(any_isNotRated_iff_of_reflect each).mpr missing] at inUnit ⊢
        obtain ⟨part, member, notRated⟩ := missing
        refine ⟨by rintro ⟨⟩, inUnit, fun impossible => ?_, fun all => ?_⟩
        · cases impossible
        · exact absurd (all part member) notRated
      · have noneMissing : (parts.map valueOf).any isNotRated = false := by
          rw [← Bool.not_eq_true, any_isNotRated_iff_of_reflect each]
          exact missing
        have all : ∀ part ∈ parts, partRated part := by simpa using missing
        obtain ⟨part, member⟩ := List.exists_mem_of_ne_nil parts nonempty
        rw [noneMissing] at inUnit ⊢
        refine ⟨ofRating_ne_vetoed _, inUnit, combined.trans ?_⟩
        exact ⟨fun _ => all, fun _ => ⟨part, member, all part member⟩⟩

theorem together_reflects (nonempty : parts ≠ [])
    (each : ∀ part ∈ parts, (valueOf part).Reflects (partRated part)) (policy : MissingData) :
    (together policy (parts.map valueOf)).Reflects (policy.Asks partRated parts) := by
  match parts, nonempty, each with
  | [part], _, each =>
      exact (each part List.mem_cons_self).congr (policy.asks_singleton part).symm
  | first :: second :: rest, nonempty, each =>
      exact combine_reflects nonempty each policy .and

end Parts

/-- A hedge that does not look at absent ratings keeps them absent, and keeps the others. -/
theorem hedged_reflects (keepsUnit : KeepsUnit power) {hedge : Hedge}
    {parameter : Option (Exact power)}
    (plain : hedge ∉ [Hedge.nullOr, .notNullAnd, .nullNotRated])
    (accepted : ∀ exponent ∈ parameter,
      Arith.isFinite exponent = true ∧ Arith.le Arith.zero exponent = true)
    (reflects : value.Reflects isRated) :
    (value.hedged hedge parameter).Reflects isRated := by
  refine ⟨?_, hedged_inUnit keepsUnit hedge accepted reflects.inUnit, ?_⟩
  · have notVetoed := reflects.notVetoed
    cases value with
    | vetoed => exact absurd rfl notVetoed
    | rated value => exact ofRating_ne_vetoed _
    | notRated =>
        have other : hedge ≠ .nullNotRated := by
          rintro rfl
          exact plain (by simp)
        rw [hedged, if_neg other]
        exact ofRating_ne_vetoed _
  · rw [← reflects.isRated]
    have notVetoed := reflects.notVetoed
    cases value with
    | vetoed => exact absurd rfl notVetoed
    | rated value =>
        rw [hedged, rating_ofRating]
        cases hedge <;> simp_all [Hedge.apply, rating]
    | notRated =>
        have other : hedge ≠ .nullNotRated := by
          rintro rfl
          exact plain (by simp)
        rw [hedged, if_neg other, rating_ofRating]
        cases hedge <;> simp_all [Hedge.apply, rating]

end NodeValue

/-! ## Trees -/

section Trees

variable {catalog : Catalog (Exact power)} {subject : PropertyData (Exact power)}
  {options : AssessmentOptions}

/-- The leaf at a node comes to a rating. -/
def LeafRated (catalog : Catalog (Exact power)) (subject : PropertyData (Exact power))
    (options : AssessmentOptions) (label : Node (Exact power)) : Prop :=
  (treeValue catalog subject options (.node label [])).rating.isSome = true

/-- A node of full trees without hedges that look at absent ratings, and with a rating in the unit
interval if it is a leaf. -/
structure Plain (catalog : Catalog (Exact power)) (subject : PropertyData (Exact power))
    (options : AssessmentOptions) (tree : RuleTree (Exact power)) : Prop where
  fits : catalog.FitsKind tree
  leaf : tree.children ≠ [] ↔ catalog.evaluationOf? tree.label = none
  exponent : ∀ hedge parameter, tree.label.kind = .hedge hedge parameter →
    ∀ exponent ∈ parameter,
      Arith.isFinite exponent = true ∧ Arith.le Arith.zero exponent = true
  hedge : ∀ hedge parameter, tree.label.kind = .hedge hedge parameter →
    hedge ∉ [Hedge.nullOr, .notNullAnd, .nullNotRated]
  inUnit : ∀ evaluation, catalog.evaluationOf? tree.label = some evaluation →
    (evaluationValue catalog subject options evaluation).InUnit

omit [IsStrictOrderedRing scalar] in
theorem evaluationValue_ne_vetoed (evaluation : Evaluation (Exact power)) :
    evaluationValue catalog subject options evaluation ≠ .vetoed := by
  unfold evaluationValue
  split
  · exact NodeValue.ofRating_ne_vetoed _
  · rintro ⟨⟩

omit [IsStrictOrderedRing scalar] in
/-- A leaf comes to what its evaluation makes of the subject, however missing data is treated. -/
theorem treeValue_of_evaluation (subject : PropertyData (Exact power)) (options : AssessmentOptions)
    {label : Node (Exact power)} {evaluation : Evaluation (Exact power)}
    (stands : catalog.evaluationOf? label = some evaluation)
    (children : List (RuleTree (Exact power))) (policy : MissingData) :
    treeValue catalog subject { options with missingData := policy } (.node label children) =
      evaluationValue catalog subject options evaluation := by
  obtain ⟨refId, isLeaf, _⟩ := Catalog.evaluationOf?_eq_some_iff.mp stands
  rw [treeValue_node, nodeValue, Node.refId?_eq_some_iff.mp isLeaf]
  dsimp only
  rw [stands]
  rfl

/-- A node with children is rated if what is asked of its children holds. -/
theorem nodeValue_reflects (keepsUnit : KeepsUnit power) (policy : MissingData)
    {label : Node (Exact power)} {children : List (RuleTree (Exact power))}
    (own : Plain catalog subject options (.node label children)) (inner : children ≠ [])
    {valueOf : RuleTree (Exact power) → NodeValue (Exact power)}
    {childRated : RuleTree (Exact power) → Prop}
    (below : ∀ child ∈ children, (valueOf child).Reflects (childRated child)) :
    (nodeValue catalog subject { options with missingData := policy } label
      (children.map valueOf)).Reflects (policy.Asks childRated children) := by
  have nothingStands : catalog.evaluationOf? label = none := own.leaf.mp inner
  unfold nodeValue
  cases kind : label.kind with
  | root => exact NodeValue.combine_reflects inner below policy .and
  | operator operator => exact NodeValue.combine_reflects inner below policy operator
  | hedge hedge parameter =>
      obtain ⟨child, childrenEq⟩ := own.fits.hedge hedge parameter kind
      have childrenEq : children = [child] := childrenEq
      subst childrenEq
      refine (NodeValue.hedged_reflects keepsUnit (own.hedge hedge parameter kind)
        (own.exponent hedge parameter kind) (below child List.mem_cons_self)).congr ?_
      exact (policy.asks_singleton child).symm
  | evaluation refId =>
      dsimp only
      rw [nothingStands]
      exact NodeValue.together_reflects inner below policy

theorem treeValue_reflects (keepsUnit : KeepsUnit power) (policy : MissingData)
    (tree : RuleTree (Exact power))
    (plain : ∀ inner ∈ tree.subtrees, Plain catalog subject options inner) :
    (treeValue catalog subject { options with missingData := policy } tree).Reflects
      (policy.Asks (LeafRated catalog subject options) (Tree.leavesAll [tree])) := by
  induction tree using Tree.induction with
  | node label children inductionHypothesis =>
      have own := plain _ (Tree.mem_subtrees_self _)
      cases stands : catalog.evaluationOf? label with
      | some evaluation =>
          have noChildren : children = [] := own.fits.evaluation evaluation stands
          subst noChildren
          have valueEq := treeValue_of_evaluation subject options stands []
          rw [Tree.leavesAll_leaf, valueEq policy]
          refine ⟨evaluationValue_ne_vetoed evaluation, own.inUnit evaluation stands, ?_⟩
          rw [MissingData.asks_singleton, LeafRated, ← valueEq options.missingData]
      | none =>
          have inner : children ≠ [] := own.leaf.mpr stands
          have below : ∀ child ∈ children,
              (treeValue catalog subject { options with missingData := policy } child).Reflects
                (policy.Asks (LeafRated catalog subject options) (Tree.leavesAll [child])) := by
            intro child member
            refine inductionHypothesis child member fun middle within => plain middle ?_
            exact Tree.mem_subtrees_node_iff.mpr (Or.inl ⟨child, member, within⟩)
          rw [Tree.leavesAll_node label inner, Tree.leavesAll_eq_flatMap, treeValue_node]
          exact (nodeValue_reflects keepsUnit policy own inner below).congr
            (policy.asks_flatMap _ children).symm

omit [IsStrictOrderedRing scalar] in
/-- Where all children are rated the treatment of missing data does not matter. -/
theorem nodeValue_of_rated {label : Node (Exact power)}
    (nothingStands : catalog.evaluationOf? label = none) {values : List (NodeValue (Exact power))}
    (allRated : ∀ value ∈ values, value.rating.isSome = true) (policy other : MissingData) :
    nodeValue catalog subject { options with missingData := policy } label values =
      nodeValue catalog subject { options with missingData := other } label values := by
  unfold nodeValue
  cases label.kind with
  | root => exact NodeValue.combine_of_rated allRated policy other .and
  | operator operator => exact NodeValue.combine_of_rated allRated policy other operator
  | hedge hedge parameter => rfl
  | evaluation refId =>
      dsimp only
      rw [nothingStands]
      exact NodeValue.together_of_rated allRated policy other

/-- With that it does not matter where all leaves are rated. -/
theorem treeValue_of_leavesRated (keepsUnit : KeepsUnit power) (tree : RuleTree (Exact power))
    (plain : ∀ inner ∈ tree.subtrees, Plain catalog subject options inner)
    (allRated : ∀ leaf ∈ Tree.leavesAll [tree], LeafRated catalog subject options leaf) :
    treeValue catalog subject { options with missingData := .propagate } tree =
      treeValue catalog subject { options with missingData := .ignore } tree := by
  induction tree using Tree.induction with
  | node label children inductionHypothesis =>
      have own := plain _ (Tree.mem_subtrees_self _)
      cases stands : catalog.evaluationOf? label with
      | some evaluation =>
          rw [treeValue_of_evaluation subject options stands,
            treeValue_of_evaluation subject options stands]
      | none =>
          have inner : children ≠ [] := own.leaf.mpr stands
          have plainBelow : ∀ child ∈ children, ∀ middle ∈ child.subtrees,
              Plain catalog subject options middle := by
            intro child member middle within
            exact plain middle (Tree.mem_subtrees_node_iff.mpr (Or.inl ⟨child, member, within⟩))
          have ratedBelow : ∀ child ∈ children, ∀ leaf ∈ Tree.leavesAll [child],
              LeafRated catalog subject options leaf := by
            intro child member leaf within
            apply allRated
            rw [Tree.leavesAll_node label inner, Tree.leavesAll_eq_flatMap]
            exact List.mem_flatMap.mpr ⟨child, member, within⟩
          have same : children.map
                (treeValue catalog subject { options with missingData := .propagate }) =
              children.map (treeValue catalog subject { options with missingData := .ignore }) :=
            List.map_congr_left fun child member =>
              inductionHypothesis child member (plainBelow child member) (ratedBelow child member)
          have allSome : ∀ value ∈ children.map
              (treeValue catalog subject { options with missingData := .ignore }),
              value.rating.isSome = true := by
            rw [← same]
            intro value member
            obtain ⟨child, childMember, rfl⟩ := List.mem_map.mp member
            have reflects := treeValue_reflects keepsUnit .propagate child
              (plainBelow child childMember)
            exact reflects.isRated.mpr (ratedBelow child childMember)
          rw [treeValue_node, treeValue_node, same]
          exact nodeValue_of_rated stands allSome .propagate .ignore

end Trees

/-! ## Interpretations -/

section Interpretations

variable {catalog : Catalog (Exact power)} {target : Interpretation (Exact power)}
  {subject : PropertyData (Exact power)} {options : AssessmentOptions}
  {rating : Option (Exact power)} {after : Context (Exact power)}

/-- A leaf was recorded with a rating. -/
def RecordedRated (after : Context (Exact power)) (leaf : Node (Exact power)) : Prop :=
  ∃ value, (leaf.key, some value) ∈ Journal.current after.ratings

omit [IsStrictOrderedRing scalar] in
/-- What is recorded at a leaf does not depend on how missing data is treated. -/
theorem mem_ratings_leaf_iff (checked : catalog.Checked) (known : target ∈ catalog.interpretations)
    (policy : MissingData)
    (assessed : assess catalog target.name target.roots
      (.start subject { options with missingData := policy }) = (.ok rating, after))
    {leaf : Node (Exact power)} (member : leaf ∈ Tree.leavesAll (catalog.fullTrees target))
    {leafRating : Option (Exact power)} :
    (leaf.key, leafRating) ∈ Journal.current after.ratings ↔
      (treeValue catalog subject options (.node leaf [])).rating = leafRating := by
  obtain ⟨tree, treeMember, rfl⟩ := List.mem_map.mp member
  obtain ⟨within, noChildren⟩ := List.mem_filter.mp treeMember
  obtain ⟨label, children⟩ := tree
  obtain rfl : children = [] := List.isEmpty_iff.mp noChildren
  obtain ⟨evaluation, stands⟩ :=
    exists_evaluationOf?_of_children_eq_nil checked known within rfl
  have stands : catalog.evaluationOf? label = some evaluation := stands
  have sameValue := (treeValue_of_evaluation subject options stands [] policy).trans
    (treeValue_of_evaluation subject options stands [] options.missingData).symm
  change _ ↔ (treeValue catalog subject { options with missingData := options.missingData }
    (.node label [])).rating = leafRating
  rw [← sameValue]
  exact mem_ratings_iff_of_mem checked known assessed within

omit [IsStrictOrderedRing scalar] in
theorem recordedRated_iff (checked : catalog.Checked) (known : target ∈ catalog.interpretations)
    (assessed : assess catalog target.name target.roots (.start subject options) =
      (.ok rating, after))
    {leaf : Node (Exact power)} (member : leaf ∈ Tree.leavesAll (catalog.fullTrees target)) :
    RecordedRated after leaf ↔ LeafRated catalog subject options leaf := by
  unfold RecordedRated LeafRated
  rw [Option.isSome_iff_exists]
  exact exists_congr fun value =>
    mem_ratings_leaf_iff checked known options.missingData assessed member

omit [IsStrictOrderedRing scalar] in
/-- Where an evaluation stands there is a leaf, and its rating is recorded there. -/
theorem mem_ratings_of_evaluation (checked : catalog.Checked)
    (known : target ∈ catalog.interpretations)
    (assessed : assess catalog target.name target.roots (.start subject options) =
      (.ok rating, after))
    {label : Node (Exact power)} (member : label ∈ Tree.preorderAll (catalog.fullTrees target))
    {evaluation : Evaluation (Exact power)}
    (stands : catalog.evaluationOf? label = some evaluation) :
    label ∈ Tree.leavesAll (catalog.fullTrees target) ∧
      (label.key, (evaluationValue catalog subject options evaluation).rating) ∈
        Journal.current after.ratings := by
  obtain ⟨tree, treeMember, rfl⟩ := Tree.exists_mem_subtreesAll member
  obtain ⟨label, children⟩ := tree
  have fits := Catalog.fitsKind_of_mem_fullTreesWithin checked.normalized known treeMember
  obtain rfl : children = [] := fits.evaluation evaluation stands
  have leaf : label ∈ Tree.leavesAll (catalog.fullTrees target) :=
    List.mem_map.mpr ⟨_, List.mem_filter.mpr ⟨treeMember, rfl⟩, rfl⟩
  have valueEq := treeValue_of_evaluation subject options stands [] options.missingData
  refine ⟨leaf, (mem_ratings_leaf_iff checked known options.missingData assessed leaf).mpr ?_⟩
  exact congrArg NodeValue.rating valueEq

omit [IsStrictOrderedRing scalar] in
/-- The nodes of full trees without certain hedges are plain if the recorded ratings of leaves are in
the unit interval. -/
theorem plain_of_assess (checked : catalog.Checked) (known : target ∈ catalog.interpretations)
    (withoutHedges : ∀ label ∈ Tree.preorderAll (catalog.fullTrees target), ∀ hedge parameter,
      label.kind = .hedge hedge parameter → hedge ∉ [Hedge.nullOr, .notNullAnd, .nullNotRated])
    (assessed : assess catalog target.name target.roots (.start subject options) =
      (.ok rating, after))
    (inUnit : ∀ leaf ∈ Tree.leavesAll (catalog.fullTrees target), ∀ value,
      (leaf.key, some value) ∈ Journal.current after.ratings → Arith.inUnit value = true)
    {tree : RuleTree (Exact power)}
    (member : tree ∈ Tree.subtreesAll (catalog.fullTrees target)) :
    Plain catalog subject options tree := by
  have inForest : tree.label ∈ Tree.preorderAll (catalog.fullTrees target) := by
    refine Tree.mem_preorderAll_of_mem_subtreesAll member ?_
    cases tree with
    | node label children => exact Tree.mem_preorder_node_iff.mpr (Or.inl rfl)
  have fits := Catalog.fitsKind_of_mem_fullTreesWithin checked.normalized known member
  refine ⟨fits, children_ne_nil_iff checked known member,
    (checked.isChecked known inForest).exponent, withoutHedges tree.label inForest, ?_⟩
  intro evaluation stands value isRating
  obtain ⟨leaf, recorded⟩ := mem_ratings_of_evaluation checked known assessed inForest stands
  rw [isRating] at recorded
  exact inUnit_iff.mp (inUnit tree.label leaf value recorded)

omit [IsStrictOrderedRing scalar] in
theorem fullTrees_ne_nil (checked : catalog.Checked) (known : target ∈ catalog.interpretations) :
    catalog.fullTrees target ≠ [] := by
  obtain ⟨nodes, normalized⟩ := checked.normalized target known
  rw [Catalog.fullTrees, Catalog.fullTreesUnder_eq checked.acyclic known]
  simpa using normalize_ne_nil normalized

section Plain

variable (keepsUnit : KeepsUnit power) (checked : catalog.Checked)
  (known : target ∈ catalog.interpretations)
  (plain : ∀ tree ∈ Tree.subtreesAll (catalog.fullTrees target),
    Plain catalog subject options tree)

include keepsUnit plain

private theorem fullTrees_reflect (policy : MissingData) {tree : RuleTree (Exact power)}
    (member : tree ∈ catalog.fullTrees target) :
    (treeValue catalog subject { options with missingData := policy } tree).Reflects
      (policy.Asks (LeafRated catalog subject options) (Tree.leavesAll [tree])) :=
  treeValue_reflects keepsUnit policy tree fun inner within =>
    plain inner (Tree.mem_subtreesAll_iff.mpr ⟨tree, member, within⟩)

include checked known in
theorem interpretationValue_reflects (policy : MissingData) :
    (interpretationValue catalog subject { options with missingData := policy } target).Reflects
      (policy.Asks (LeafRated catalog subject options)
        (Tree.leavesAll (catalog.fullTrees target))) := by
  rw [Tree.leavesAll_eq_flatMap]
  exact (NodeValue.together_reflects (fullTrees_ne_nil checked known)
    (fun _ member => fullTrees_reflect keepsUnit plain policy member) policy).congr
    (policy.asks_flatMap _ _).symm

theorem interpretationValue_of_leavesRated
    (allRated : ∀ leaf ∈ Tree.leavesAll (catalog.fullTrees target),
      LeafRated catalog subject options leaf) :
    interpretationValue catalog subject { options with missingData := .propagate } target =
      interpretationValue catalog subject { options with missingData := .ignore } target := by
  have ratedIn : ∀ tree ∈ catalog.fullTrees target, ∀ leaf ∈ Tree.leavesAll [tree],
      LeafRated catalog subject options leaf := by
    intro tree member leaf within
    apply allRated
    rw [Tree.leavesAll_eq_flatMap]
    exact List.mem_flatMap.mpr ⟨tree, member, within⟩
  have same : (catalog.fullTrees target).map
        (treeValue catalog subject { options with missingData := .propagate }) =
      (catalog.fullTrees target).map
        (treeValue catalog subject { options with missingData := .ignore }) := by
    refine List.map_congr_left fun tree member => ?_
    refine treeValue_of_leavesRated keepsUnit tree (fun inner within => ?_) (ratedIn tree member)
    exact plain inner (Tree.mem_subtreesAll_iff.mpr ⟨tree, member, within⟩)
  have allSome : ∀ value ∈ (catalog.fullTrees target).map
      (treeValue catalog subject { options with missingData := .propagate }),
      value.rating.isSome = true := by
    intro value member
    obtain ⟨tree, treeMember, rfl⟩ := List.mem_map.mp member
    exact (fullTrees_reflect keepsUnit plain .propagate treeMember).isRated.mpr
      (ratedIn tree treeMember)
  unfold interpretationValue
  rw [← same]
  exact NodeValue.together_of_rated allSome _ _

end Plain

/-- Hedges that look at absent ratings apart, an interpretation whose leaves have ratings in the unit
interval or none is rated where missing data propagates if all leaves are, and where it is ignored if
one leaf is. Both come to the same if all leaves are. -/
theorem assess_missingData (keepsUnit : KeepsUnit power) {data : CatalogData (Exact power)}
    (built : Catalog.build data = .ok catalog) (known : target ∈ catalog.interpretations)
    (withoutHedges : ∀ label ∈ Tree.preorderAll (catalog.fullTrees target), ∀ hedge parameter,
      label.kind = .hedge hedge parameter → hedge ∉ [Hedge.nullOr, .notNullAnd, .nullNotRated])
    (assessed : assess catalog target.name target.roots (.start subject options) =
      (.ok rating, after))
    (inUnit : ∀ leaf ∈ Tree.leavesAll (catalog.fullTrees target), ∀ value,
      (leaf.key, some value) ∈ Journal.current after.ratings → Arith.inUnit value = true) :
    ∃ propagated ignored afterPropagated afterIgnored,
      assess catalog target.name target.roots
          (.start subject { options with missingData := .propagate }) =
        (.ok propagated, afterPropagated) ∧
      assess catalog target.name target.roots
          (.start subject { options with missingData := .ignore }) =
        (.ok ignored, afterIgnored) ∧
      (∀ leaf ∈ Tree.leavesAll (catalog.fullTrees target), ∀ leafRating,
        ((leaf.key, leafRating) ∈ Journal.current afterPropagated.ratings ↔
          (leaf.key, leafRating) ∈ Journal.current after.ratings) ∧
        ((leaf.key, leafRating) ∈ Journal.current afterIgnored.ratings ↔
          (leaf.key, leafRating) ∈ Journal.current after.ratings)) ∧
      (propagated.isSome = true ↔
        ∀ leaf ∈ Tree.leavesAll (catalog.fullTrees target), RecordedRated after leaf) ∧
      (ignored.isSome = true ↔
        ∃ leaf ∈ Tree.leavesAll (catalog.fullTrees target), RecordedRated after leaf) ∧
      ((∀ leaf ∈ Tree.leavesAll (catalog.fullTrees target), RecordedRated after leaf) →
        propagated = ignored) := by
  have checked := Catalog.build_checked built
  have plain : ∀ tree ∈ Tree.subtreesAll (catalog.fullTrees target),
      Plain catalog subject options tree :=
    fun tree member => plain_of_assess checked known withoutHedges assessed inUnit member
  have reflects := interpretationValue_reflects keepsUnit checked known plain
  have recorded : ∀ leaf ∈ Tree.leavesAll (catalog.fullTrees target),
      (RecordedRated after leaf ↔ LeafRated catalog subject options leaf) :=
    fun leaf member => recordedRated_iff checked known assessed member
  obtain ⟨propagated, afterPropagated, propagates⟩ := exists_assess_of_policy assessed .propagate
  obtain ⟨ignored, afterIgnored, ignores⟩ := exists_assess_of_policy assessed .ignore
  refine ⟨propagated, ignored, afterPropagated, afterIgnored, propagates, ignores, ?_, ?_, ?_, ?_⟩
  · intro leaf member leafRating
    rw [mem_ratings_leaf_iff checked known .propagate propagates member,
      mem_ratings_leaf_iff checked known .ignore ignores member,
      mem_ratings_leaf_iff checked known options.missingData assessed member]
    exact ⟨Iff.rfl, Iff.rfl⟩
  · rw [(assess_ok checked known propagates).1, (reflects .propagate).isRated]
    exact forall₂_congr fun leaf member => (recorded leaf member).symm
  · rw [(assess_ok checked known ignores).1, (reflects .ignore).isRated]
    exact exists_congr fun leaf => and_congr_right fun member => (recorded leaf member).symm
  · intro allRecorded
    rw [(assess_ok checked known propagates).1, (assess_ok checked known ignores).1]
    refine congrArg NodeValue.rating (interpretationValue_of_leavesRated keepsUnit plain ?_)
    exact fun leaf member => (recorded leaf member).mp (allRecorded leaf member)

end Interpretations

/-! ## A site of which not all is known -/

/-- A site is rated by how steep it is, emphasized, and by how deep it is. -/
def steepDeepData : CatalogData (Exact wholePower) where
  properties :=
    [⟨"p1", "slope", none, none, none, "", false⟩, ⟨"p2", "depth", none, none, none, "", false⟩]
  evaluations :=
    [⟨"e1", "Steep", "slope", "crisp", false, none, none, none, some "> 3"⟩,
     ⟨"e2", "Deep", "depth", "crisp", false, none, none, none, some "> 50"⟩]
  rules :=
    [⟨"r1", "Site",
      [.node "Site" none none none [], .node "  average" none none none [],
       .node "    very" none none none [.node "Steep" none none (some "Steep") []],
       .node "    Depth" none none (some "Deep") []]⟩]

/-- Without its depth the site is rated if missing data is ignored, and not if it propagates. -/
theorem assess_missingData_steep :
    ∃ catalog target after propagated ignored afterPropagated afterIgnored,
      Catalog.build steepDeepData = .ok catalog ∧ target ∈ catalog.interpretations ∧
      assess catalog target.name target.roots
          (.start (.ofList [("slope", .number (number 5))]) ⟨true, .propagate, 64⟩) =
        (.ok propagated, afterPropagated) ∧
      assess catalog target.name target.roots
          (.start (.ofList [("slope", .number (number 5))]) ⟨true, .ignore, 64⟩) =
        (.ok ignored, afterIgnored) ∧
      propagated = none ∧ ignored = some (number 1) ∧
      (propagated.isSome = true ↔
        ∀ leaf ∈ Tree.leavesAll (catalog.fullTrees target), RecordedRated after leaf) ∧
      (ignored.isSome = true ↔
        ∃ leaf ∈ Tree.leavesAll (catalog.fullTrees target), RecordedRated after leaf) := by
  have run : ((Catalog.build steepDeepData).toOption.bind fun catalog =>
      (catalog.interpretation? "Site").map fun site =>
        let outcome (policy : MissingData) := assess catalog site.name site.roots
          (.start (.ofList [("slope", .number (number 5))]) ⟨true, policy, 64⟩)
        ((outcome .propagate).1.toOption, (outcome .ignore).1.toOption,
          (outcome .propagate).2.ratings.all fun entry => entry.2.all (· = Arith.one),
          (Tree.preorderAll (catalog.fullTrees site)).all fun label =>
            match label.kind with
            | .hedge hedge _ => hedge ∉ [Hedge.nullOr, .notNullAnd, .nullNotRated]
            | _ => true)) =
      some (some none, some (some (number 1)), true, true) := by
    decide +kernel
  obtain ⟨catalog, target, built, known, readings⟩ := Catalog.exists_of_build run
  simp only [Prod.mk.injEq] at readings
  obtain ⟨propagatedRun, ignoredRun, allOne, plain⟩ := readings
  have assessed : assess catalog target.name target.roots
      (.start (.ofList [("slope", .number (number 5))]) ⟨true, .propagate, 64⟩) =
        (.ok none, _) :=
    Prod.ext (eq_ok_of_toOption propagatedRun) rfl
  obtain ⟨propagated, ignored, afterPropagated, afterIgnored, propagates, ignores, _,
      propagatedIff, ignoredIff, _⟩ :=
    assess_missingData keepsUnit_wholePower built known
      (fun label member hedge parameter kind => by
        have isPlain := List.all_eq_true.mp plain label member
        simpa [kind] using isPlain)
      assessed
      (fun leaf _ value recorded => by
        have inJournal := mem_of_lookup (Journal.mem_current_iff.mp recorded)
        have isOne : value = Arith.one := by simpa using List.all_eq_true.mp allOne _ inJournal
        rw [isOne]
        exact inUnit_iff.mpr inUnit_one)
  have propagatedEq : propagated = none := by
    rw [propagates] at propagatedRun
    exact Option.some.inj propagatedRun
  have ignoredEq : ignored = some (number 1) := by
    rw [ignores] at ignoredRun
    exact Option.some.inj ignoredRun
  exact ⟨catalog, target, _, propagated, ignored, afterPropagated, afterIgnored, built, known,
    propagates, ignores, propagatedEq, ignoredEq, propagatedIff, ignoredIff⟩

end FuzzyRating
