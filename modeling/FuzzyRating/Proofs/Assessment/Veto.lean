import FuzzyRating.Proofs.Assessment.Trace

/-!
A veto cannot be undone: whatever stands above a hedge that vetoes, up to the interpretation being
assessed, is not rated.
-/

namespace FuzzyRating

variable {num : Type} [Arith num]

namespace NodeValue

theorem combine_of_vetoed {values : List (NodeValue num)} (member : .vetoed ∈ values)
    (policy : MissingData) (operator : Operator) :
    combine policy operator values = .vetoed := by
  have anyVetoed : values.any isVetoed = true :=
    List.any_eq_true.mpr ⟨.vetoed, member, rfl⟩
  rw [combine, if_pos anyVetoed]

theorem together_of_vetoed {values : List (NodeValue num)} (member : .vetoed ∈ values)
    (policy : MissingData) :
    together policy values = .vetoed := by
  rcases values with _ | ⟨value, _ | ⟨second, rest⟩⟩
  · exact combine_of_vetoed member policy .and
  · exact (List.mem_singleton.mp member).symm
  · exact combine_of_vetoed member policy .and

/-- The hedge that vetoes does so below a child that is not rated. -/
theorem hedged_nullNotRated {value : NodeValue num} (notRated : value.rating = none)
    (parameter : Option num) :
    value.hedged .nullNotRated parameter = .vetoed := by
  cases value with
  | rated value => cases notRated
  | notRated => rfl
  | vetoed => rfl

end NodeValue

/-! ## Vetoes in full trees -/

section Trees

variable {catalog : Catalog num} {subject : PropertyData num} {options : AssessmentOptions}

theorem treeValue_of_nullNotRated {hedge child : RuleTree num} {parameter : Option num}
    (fits : catalog.FitsKind hedge) (kind : hedge.label.kind = .hedge .nullNotRated parameter)
    (below : child ∈ hedge.children)
    (notRated : (treeValue catalog subject options child).rating = none) :
    treeValue catalog subject options hedge = .vetoed := by
  obtain ⟨label, children⟩ := hedge
  obtain ⟨only, childrenEq⟩ := fits.hedge _ _ kind
  have childrenEq : children = [only] := childrenEq
  subst childrenEq
  obtain rfl := List.mem_singleton.mp below
  have kind : label.kind = .hedge .nullNotRated parameter := kind
  rw [treeValue_node, nodeValue, kind]
  exact NodeValue.hedged_nullNotRated notRated parameter

/-- Whatever a node does, a veto below it vetoes it. -/
theorem treeValue_of_vetoed_child {tree child : RuleTree num} (fits : catalog.FitsKind tree)
    (member : child ∈ tree.children)
    (vetoed : treeValue catalog subject options child = .vetoed) :
    treeValue catalog subject options tree = .vetoed := by
  obtain ⟨label, children⟩ := tree
  have member : child ∈ children := member
  have inValues : .vetoed ∈ children.map (treeValue catalog subject options) :=
    vetoed ▸ List.mem_map_of_mem member
  rw [treeValue_node]
  unfold nodeValue
  cases kind : label.kind with
  | root => exact NodeValue.combine_of_vetoed inValues _ _
  | operator operator => exact NodeValue.combine_of_vetoed inValues _ _
  | hedge hedge parameter =>
      obtain ⟨only, childrenEq⟩ := fits.hedge hedge parameter kind
      have childrenEq : children = [only] := childrenEq
      rw [childrenEq, List.mem_singleton] at member
      subst member
      simp only [childrenEq, List.map_singleton, List.headD_cons, vetoed, NodeValue.hedged]
  | evaluation refId =>
      dsimp only
      split
      · next evaluation found =>
          have childrenEq : children = [] := fits.evaluation evaluation found
          rw [childrenEq] at member
          cases member
      · exact NodeValue.together_of_vetoed inValues _

theorem treeValue_of_vetoed_within {tree inner : RuleTree num}
    (fits : ∀ middle ∈ tree.subtrees, catalog.FitsKind middle) (within : inner ∈ tree.subtrees)
    (vetoed : treeValue catalog subject options inner = .vetoed) :
    treeValue catalog subject options tree = .vetoed := by
  induction tree using Tree.induction with
  | node label children inductionHypothesis =>
      rcases Tree.mem_subtrees_node_iff.mp within with ⟨child, member, inChild⟩ | rfl
      · have childWithin : child ∈ (Tree.node label children).subtrees :=
          Tree.mem_subtrees_of_mem_children member
        have childVetoed := inductionHypothesis child member
          (fun middle inside => fits middle (Tree.mem_subtrees_trans childWithin inside)) inChild
        exact treeValue_of_vetoed_child (fits _ (Tree.mem_subtrees_self _)) member childVetoed
      · exact vetoed

end Trees

/-- Where a built catalog rates an interpretation with success, and in the full trees the child of
a hedge that vetoes is recorded as not rated, the interpretation is not rated, and neither is the
hedge nor any node above it. -/
theorem assess_vetoed {data : CatalogData num} {catalog : Catalog num}
    (built : Catalog.build data = .ok catalog) {target : Interpretation num}
    (known : target ∈ catalog.interpretations) {subject : PropertyData num}
    {options : AssessmentOptions} {rating : Option num} {after : Context num}
    (assessed : assess catalog target.name target.roots (.start subject options) =
      (.ok rating, after))
    {hedge child : RuleTree num} {parameter : Option num}
    (inTrees : hedge ∈ Tree.subtreesAll (catalog.fullTrees target))
    (kind : hedge.label.kind = .hedge .nullNotRated parameter) (below : child ∈ hedge.children)
    (notRated : (child.label.key, none) ∈ Journal.current after.ratings) :
    rating = none ∧
      ∀ above ∈ Tree.subtreesAll (catalog.fullTrees target), hedge ∈ above.subtrees →
        (above.label.key, none) ∈ Journal.current after.ratings := by
  have checked := Catalog.build_checked built
  have fits : ∀ tree ∈ Tree.subtreesAll (catalog.fullTrees target), catalog.FitsKind tree :=
    fun tree member => Catalog.fitsKind_of_mem_fullTreesWithin checked.normalized known member
  have hedgeVetoed : treeValue catalog subject options hedge = .vetoed := by
    have childIn := Tree.mem_subtreesAll_trans inTrees (Tree.mem_subtrees_of_mem_children below)
    have childNotRated := (mem_ratings_iff_of_mem checked known assessed childIn).mp notRated
    exact treeValue_of_nullNotRated (fits hedge inTrees) kind below childNotRated
  have aboveVetoed : ∀ above ∈ Tree.subtreesAll (catalog.fullTrees target),
      hedge ∈ above.subtrees → treeValue catalog subject options above = .vetoed :=
    fun above member within => treeValue_of_vetoed_within
      (fun middle inside => fits middle (Tree.mem_subtreesAll_trans member inside)) within
      hedgeVetoed
  refine ⟨?_, fun above member within => ?_⟩
  · obtain ⟨tree, treeMember, within⟩ := Tree.mem_subtreesAll_iff.mp inTrees
    have treeIn : tree ∈ Tree.subtreesAll (catalog.fullTrees target) :=
      Tree.mem_subtreesAll_iff.mpr ⟨tree, treeMember, Tree.mem_subtrees_self tree⟩
    have treeVetoed := aboveVetoed tree treeIn within
    have inValues : .vetoed ∈
        (catalog.fullTrees target).map (treeValue catalog subject options) :=
      treeVetoed ▸ List.mem_map_of_mem treeMember
    rw [(assess_ok checked known assessed).1, interpretationValue,
      NodeValue.together_of_vetoed inValues]
    rfl
  · rw [mem_ratings_iff_of_mem checked known assessed member, aboveVetoed above member within]
    rfl

/-- A site is rated by its slope, and not rated without the slope, though there is another way to
come to a rating. -/
def guardedData : CatalogData Float where
  properties := [⟨"p1", "slope", none, none, none, "", false⟩]
  evaluations :=
    [⟨"e1", "Steep", "slope", "crisp", false, none, none, none, some "> 3"⟩]
  rules :=
    [⟨"r1", "Slope",
      [.node "Slope" none none none [], .node "  Measured" (some "null_not_rated") none none [],
       .node "    Steepness" none none (some "Steep") []]⟩,
     ⟨"r2", "Site",
      [.node "Site" none none none [], .node "  Either" (some "or") none none [],
       .node "    Terrain" none none (some "Slope") [],
       .node "    Flat otherwise" (some "null_or") none none [],
       .node "      Steepness" none none (some "Steep") []]⟩]

/-- Without a slope the site is not rated, even where missing data is ignored. -/
theorem assess_vetoed_guarded :
    ∃ catalog target hedge child after, Catalog.build guardedData = .ok catalog ∧
      target ∈ catalog.interpretations ∧
      assess catalog target.name target.roots (.start (.ofList []) ⟨true, .ignore, 64⟩) =
        (.ok none, after) ∧
      hedge ∈ Tree.subtreesAll (catalog.fullTrees target) ∧
      hedge.label.kind = .hedge .nullNotRated none ∧ child ∈ hedge.children ∧
      (child.label.key, none) ∈ Journal.current after.ratings ∧
      ∀ above ∈ Tree.subtreesAll (catalog.fullTrees target), hedge ∈ above.subtrees →
        (above.label.key, none) ∈ Journal.current after.ratings := by
  have run : ((Catalog.build guardedData).toOption.bind fun catalog =>
      (catalog.interpretation? "Site").bind fun site =>
        ((Tree.subtreesAll (catalog.fullTrees site)).find? fun tree =>
          tree.label.kind == .hedge .nullNotRated none).bind fun hedge =>
            hedge.children.head?.map fun child =>
              let outcome := assess catalog site.name site.roots
                (.start (.ofList []) ⟨true, .ignore, 64⟩)
              (outcome.1.toOption, outcome.2.ratings.lookup child.label.key)) =
      some (some none, some none) := by
    decide +kernel
  simp only [Option.bind_eq_some_iff, Option.map_eq_some_iff, Prod.mk.injEq] at run
  obtain ⟨catalog, built, target, found, hedge, hedgeFound, child, childFound, rated, unrated⟩ :=
    run
  have known : target ∈ catalog.interpretations := List.mem_of_find?_eq_some found
  have assessed : assess catalog target.name target.roots
      (.start (.ofList []) ⟨true, .ignore, 64⟩) = (.ok none, _) :=
    Prod.ext (eq_ok_of_toOption rated) rfl
  have inTrees := List.mem_of_find?_eq_some hedgeFound
  have kind : hedge.label.kind = .hedge .nullNotRated none := by
    simpa using List.find?_some hedgeFound
  have below : child ∈ hedge.children := List.mem_of_mem_head? childFound
  have notRated := Journal.mem_current_iff.mpr unrated
  have vetoed := assess_vetoed (eq_ok_of_toOption built) known assessed inTrees kind below notRated
  exact ⟨catalog, target, hedge, child, _, eq_ok_of_toOption built, known, assessed, inTrees, kind,
    below, notRated, vetoed.2⟩

end FuzzyRating
