import FuzzyRating.Proofs.Assessment.Visit
import FuzzyRating.Proofs.Catalog.Build
import FuzzyRating.Proofs.Curve

/-!
How an assessment by a built catalog can fail: on a value that an evaluation cannot rate, or on
interpretations nested too deep. The second happens only along references, and a long enough chain
of references leaves no way to succeed.
-/

namespace FuzzyRating

variable {num : Type}

/-! ## Errors come from leaves -/

section Leaves

variable [Arith num] {catalog : Catalog num} {expand : Expansion num}

/-- Whenever a leaf with this reference fails in a context with some invariant, the error is
allowed. -/
def LeafAllows (catalog : Catalog num) (expand : Expansion num) (invariant : Context num → Prop)
    (allowed : AssessmentError num → Prop) (reference : String) : Prop :=
  ∀ key ctx error after, invariant ctx →
    assessLeaf catalog expand key reference ctx = (.error error, after) → allowed error

variable {invariant : Context num → Prop} {allowed : AssessmentError num → Prop}

private theorem assessNodes_error_of
    (expands : ∀ target ctx, Context.Extends catalog ctx (expand target ctx).2)
    (stable : ∀ before after, Context.Extends catalog before after →
      invariant before → invariant after)
    {trees : List (RuleTree num)}
    (each : ∀ tree ∈ trees, ∀ ctx error after, invariant ctx →
      assessNode catalog expand ctx tree = (.error error, after) → allowed error) :
    ∀ ctx error after, invariant ctx →
      assessNodes catalog expand ctx trees = (.error error, after) → allowed error := by
  induction trees with
  | nil =>
      intro ctx error after _ failed
      rw [assessNodes] at failed
      cases failed
  | cons tree trees inductionHypothesis =>
      intro ctx error after holds failed
      rw [assessNodes] at failed
      rcases Outcome.andThen_eq_error_iff.mp failed with first | ⟨value, middle, treeEq, later⟩
      · exact each tree List.mem_cons_self ctx error after holds first
      · have extension := assessNode_extends expands tree ctx
        rw [treeEq] at extension
        have middleHolds := stable ctx middle extension holds
        rcases Outcome.andThen_eq_error_iff.mp later with second | ⟨values, last, _, impossible⟩
        · exact inductionHypothesis
            (fun other member => each other (List.mem_cons_of_mem tree member))
            middle error after middleHolds second
        · cases impossible

private theorem assessNode_error
    (expands : ∀ target ctx, Context.Extends catalog ctx (expand target ctx).2)
    (stable : ∀ before after, Context.Extends catalog before after →
      invariant before → invariant after)
    {tree : RuleTree num} {key : String} (resolved : ResolvedAt key tree)
    (leaves : ∀ label ∈ tree.preorder, ∀ reference, label.refId? = some reference →
      LeafAllows catalog expand invariant allowed reference) :
    ∀ ctx error after, invariant ctx →
      assessNode catalog expand ctx tree = (.error error, after) → allowed error := by
  induction tree using Tree.induction generalizing key with
  | node label children inductionHypothesis =>
      intro ctx error after holds failed
      have each : ∀ child ∈ children, ∀ ctx error after, invariant ctx →
          assessNode catalog expand ctx child = (.error error, after) → allowed error := by
        intro child member
        obtain ⟨place, childResolved⟩ := resolvedBelow_children resolved child member
        exact inductionHypothesis child member childResolved fun other otherMember =>
          leaves other (Tree.mem_preorder_node_iff.mpr (Or.inr ⟨child, member, otherMember⟩))
      have below := assessNodes_error_of expands stable each ctx error after holds
      rw [assessNode] at failed
      rcases Outcome.andThen_eq_error_iff.mp failed with inside | ⟨value, middle, _, impossible⟩
      · cases kind : label.kind with
        | root =>
            rw [kind] at inside
            rcases Outcome.andThen_eq_error_iff.mp inside with first | ⟨_, _, _, impossible⟩
            · exact below first
            · cases impossible
        | operator operator =>
            rw [kind] at inside
            rcases Outcome.andThen_eq_error_iff.mp inside with first | ⟨_, _, _, impossible⟩
            · exact below first
            · cases impossible
        | hedge hedge parameter =>
            obtain ⟨child, rfl⟩ := children_eq_singleton_of_hedge resolved kind
            rw [kind] at inside
            rcases Outcome.andThen_eq_error_iff.mp inside with first | ⟨_, _, _, impossible⟩
            · exact each child List.mem_cons_self ctx error after holds first
            · cases impossible
        | evaluation reference =>
            rw [kind] at inside
            have isLeaf : label.refId? = some reference := Node.refId?_eq_some_iff.mpr kind
            have isRoot : label ∈ (Tree.node label children).preorder :=
              Tree.mem_preorder_node_iff.mpr (Or.inl rfl)
            exact leaves label isRoot reference isLeaf label.key ctx error after holds inside
      · cases impossible

/-- Trees whose leaves fail only with errors that are allowed fail only with such errors. -/
theorem assessRoots_error (invariant : Context num → Prop)
    (expands : ∀ target ctx, Context.Extends catalog ctx (expand target ctx).2)
    (stable : ∀ before after, Context.Extends catalog before after →
      invariant before → invariant after)
    {roots : List (RuleTree num)} {parent : Option String}
    (resolved : ResolvedBelow parent roots)
    (leaves : ∀ reference ∈ leafRefs roots,
      LeafAllows catalog expand invariant allowed reference)
    {ctx after : Context num} {error : AssessmentError num} (holds : invariant ctx)
    (failed : assessRoots catalog expand ctx roots = (.error error, after)) :
    allowed error := by
  have each : ∀ root ∈ roots, ∀ ctx error after, invariant ctx →
      assessNode catalog expand ctx root = (.error error, after) → allowed error := by
    intro root member
    obtain ⟨key, rootResolved⟩ := resolved.of_mem member
    refine assessNode_error expands stable rootResolved fun label labelMember reference isLeaf =>
      leaves reference ?_
    have inForest : label ∈ Tree.preorderAll roots :=
      Tree.mem_preorderAll_iff.mpr ⟨root, member, labelMember⟩
    exact List.mem_filterMap.mpr ⟨label, inForest, isLeaf⟩
  unfold assessRoots at failed
  split at failed
  · next root => exact each root List.mem_cons_self ctx error after holds failed
  · rcases Outcome.andThen_eq_error_iff.mp failed with first | ⟨_, _, _, impossible⟩
    · exact assessNodes_error_of expands stable each ctx error after holds first
    · cases impossible

end Leaves

/-! ## Chains of references -/

/-- Interpretations each of which is referred to by the next one: the calls on the way to the
first one, innermost first. -/
def Catalog.IsPath (catalog : Catalog num) (path : List (Interpretation num)) : Prop :=
  (∀ interpretation ∈ path, interpretation ∈ catalog.interpretations) ∧
    path.IsChain fun target source => catalog.RefersTo source target

/-- Interpretations each of which refers to the next one. -/
def Catalog.IsReferenceChain (catalog : Catalog num) (chain : List (Interpretation num)) : Prop :=
  chain.IsChain catalog.RefersTo

namespace Catalog.IsPath

variable {catalog : Catalog num} {target : Interpretation num} {path : List (Interpretation num)}

theorem cons {next : Interpretation num} (isPath : catalog.IsPath (target :: path))
    (refers : catalog.RefersTo target next) :
    catalog.IsPath (next :: target :: path) := by
  refine ⟨?_, isPath.2.cons_cons refers⟩
  intro interpretation member
  rcases List.mem_cons.mp member with rfl | earlier
  · exact refers.mem
  · exact isPath.1 interpretation earlier

/-- No name is called twice on a path without circles. -/
theorem name_not_mem (isPath : catalog.IsPath (target :: path))
    (names : catalog.interpretationNames.Nodup) (acyclic : catalog.Acyclic) :
    target.name ∉ path.map (·.name) := by
  intro repeated
  obtain ⟨other, otherMember, sameName⟩ := List.mem_map.mp repeated
  have targetKnown := isPath.1 target List.mem_cons_self
  have otherKnown := isPath.1 other (List.mem_cons_of_mem target otherMember)
  rw [eq_of_name_eq names otherKnown targetKnown sameName] at otherMember
  exact acyclic.not_mem_of_isChain isPath.2 otherMember

end Catalog.IsPath

/-- The errors left to a checked catalog below a path of calls: a value that cannot be rated, or
a path that goes on for longer than allowed. -/
inductive Tolerated (catalog : Catalog num) (maxDepth : Nat) (path : List (Interpretation num)) :
    AssessmentError num → Prop
  | invalidData (property : String) (expected : RatableValue) (found : PropertyValue num) :
      Tolerated catalog maxDepth path (.invalidData property expected found)
  | tooDeep (node : String) (further : List (Interpretation num))
      (isPath : catalog.IsPath (further ++ path))
      (long : maxDepth < (further ++ path).length) :
      Tolerated catalog maxDepth path (.failed node (.tooDeep maxDepth))

theorem Tolerated.shorten {catalog : Catalog num} {maxDepth : Nat} {next : Interpretation num}
    {path : List (Interpretation num)} {error : AssessmentError num}
    (tolerated : Tolerated catalog maxDepth (next :: path) error) :
    Tolerated catalog maxDepth path error := by
  cases tolerated with
  | invalidData property expected found => exact .invalidData property expected found
  | tooDeep node further isPath long =>
      have sameEq : further ++ next :: path = (further ++ [next]) ++ path := by
        simp
      rw [sameEq] at isPath long
      exact .tooDeep node (further ++ [next]) isPath long

/-! ## Assessments by a checked catalog -/

section Checked

variable [Arith num] {catalog : Catalog num}

/-- An evaluation of a checked catalog fails only on a value that it cannot rate. -/
theorem assessEvaluation_error [FiniteOrder num] (checked : catalog.Checked)
    {evaluation : Evaluation num} (member : evaluation ∈ catalog.evaluations)
    {ctx after : Context num} {error : AssessmentError num}
    (failed : assessEvaluation catalog evaluation ctx = (.error error, after)) :
    ∃ found, error =
      .invalidData evaluation.propertyName evaluation.shape.ratable found := by
  obtain ⟨definition, compiled⟩ := checked.compiled evaluation member
  have sound := Evaluation.ofDefinition_sound compiled
  rw [assessEvaluation_eq] at failed
  dsimp only at failed
  cases result : evaluation.membership ctx.options.clampSpline
      (ctx.data.valueOf catalog evaluation.propertyName) with
  | ok rating =>
      rw [result] at failed
      cases failed
  | error cause =>
      rw [result] at failed
      cases failed
      cases cause with
      | invalidValue found => exact ⟨found, rfl⟩
      | noPoints =>
          exact absurd result (Evaluation.membership_ne_noPoints sound _ _)

/-- What can go wrong in an interpretation that is expanded at the end of a path of calls. -/
theorem expandWithin_tolerated [FiniteOrder num] (checked : catalog.Checked) {room : Nat}
    {target : Interpretation num} {path : List (Interpretation num)}
    (isPath : catalog.IsPath (target :: path)) {ctx after : Context num}
    {error : AssessmentError num} (calls : ctx.calls = path.map (·.name))
    (depth : room + path.length = ctx.options.maxDepth)
    (failed : expandWithin catalog room target ctx = (.error error, after)) :
    Tolerated catalog ctx.options.maxDepth (target :: path) error := by
  induction room generalizing target path ctx error after with
  | zero =>
      rw [expandWithin] at failed
      cases failed
      refine .tooDeep (ctx.entrance target.name) [] isPath ?_
      simp only [List.nil_append, List.length_cons]
      omega
  | succ room inductionHypothesis =>
      have notCalled : ¬ ctx.calls.contains target.name = true := by
        rw [calls]
        simpa using isPath.name_not_mem checked.names checked.acyclic
      rw [expandWithin, if_neg notCalled] at failed
      obtain ⟨middle, rootsFailed, _⟩ := Outcome.leaving_eq_iff.mp failed
      have known := isPath.1 target List.mem_cons_self
      obtain ⟨nodes, normalized⟩ := checked.normalized target known
      -- every leaf is assessed with the same calls and options
      refine assessRoots_error
        (fun inner => inner.calls = (target :: path).map (·.name) ∧ inner.options = ctx.options)
        (expandWithin_extends room) ?_ (normalize_resolved normalized) ?_ ?_ rootsFailed
      · intro before after extension holds
        exact ⟨extension.calls.trans holds.1, extension.options.trans holds.2⟩
      · intro reference leaf key inner innerError innerAfter holds leafFailed
        obtain ⟨found, resolved⟩ := checked.references target known reference leaf
        unfold assessLeaf at leafFailed
        rw [resolved] at leafFailed
        cases found with
        | evaluation evaluation =>
            obtain ⟨value, errorEq⟩ := assessEvaluation_error checked
              (Catalog.mem_of_resolve?_evaluation resolved) leafFailed
            rw [errorEq]
            exact .invalidData _ _ value
        | interpretation next =>
            obtain ⟨expanded, expansionFailed, _⟩ := Outcome.leaving_eq_iff.mp leafFailed
            have refers : catalog.RefersTo target next :=
              Catalog.refersTo_iff.mpr ⟨reference, leaf, resolved⟩
            have innerCalls : (inner.pushLeaf (inner.fullKey key)).calls =
                (target :: path).map (·.name) := holds.1
            have innerDepth : room + (target :: path).length =
                (inner.pushLeaf (inner.fullKey key)).options.maxDepth := by
              change _ = inner.options.maxDepth
              rw [holds.2, ← depth, List.length_cons]
              omega
            have tolerated := inductionHypothesis (isPath.cons refers) innerCalls innerDepth
              expansionFailed
            change Tolerated catalog inner.options.maxDepth _ _ at tolerated
            rw [holds.2] at tolerated
            exact tolerated.shorten
      · exact ⟨congrArg (target.name :: ·) calls, rfl⟩

/-- An interpretation that is expanded with success leaves room for every chain of references
from it. -/
theorem length_lt_of_expandWithin_ok (checked : catalog.Checked) {room : Nat}
    {target : Interpretation num} (known : target ∈ catalog.interpretations)
    {ctx after : Context num} {value : NodeValue num}
    (expanded : expandWithin catalog room target ctx = (.ok value, after))
    {chain : List (Interpretation num)} (isChain : catalog.IsReferenceChain (target :: chain)) :
    chain.length < room := by
  induction room generalizing target ctx after value chain with
  | zero =>
      rw [expandWithin] at expanded
      cases expanded
  | succ room inductionHypothesis =>
      cases chain with
      | nil => exact Nat.succ_pos room
      | cons next rest =>
          obtain ⟨refers, restChain⟩ := List.isChain_cons_cons.mp isChain
          obtain ⟨reference, leaf, resolved⟩ := Catalog.refersTo_iff.mp refers
          obtain ⟨label, inForest, isLeaf⟩ := List.mem_filterMap.mp leaf
          obtain ⟨nodes, normalized⟩ := checked.normalized target known
          rw [expandWithin] at expanded
          split at expanded
          · cases expanded
          · obtain ⟨middle, rootsAssessed, _⟩ := Outcome.leaving_eq_iff.mp expanded
            have visits := assessRoots_visits (normalize_resolved normalized) rootsAssessed
            have visited : label ∈ Tree.postorderAll target.roots :=
              (Tree.postorderAll_perm_preorderAll target.roots).mem_iff.mpr inForest
            obtain ⟨_, _, reached, left, _, _, here, _⟩ := visits.split visited
            cases here with
            | inner kind =>
                exact absurd (Node.refId?_eq_some_iff.mp isLeaf) (kind reference)
            | leaf kind rated =>
                cases (Node.refId?_eq_some_iff.mpr kind).symm.trans isLeaf
                unfold assessLeaf at rated
                rw [resolved] at rated
                obtain ⟨inner, nextExpanded, _⟩ := Outcome.leaving_eq_iff.mp rated
                have shorter := inductionHypothesis refers.mem nextExpanded restChain
                simp only [List.length_cons]
                omega

end Checked

/-! ## Assessments by a built catalog -/

/-- An interpretation of a built catalog is rated, or refused for a value that cannot be rated, or
for being nested too deep. The last happens only if the references from it make a chain with more
members than may be nested, and then it is never rated. -/
theorem assess_of_build {data : CatalogData Float} {catalog : Catalog Float}
    {target : Interpretation Float} (built : Catalog.build data = .ok catalog)
    (known : target ∈ catalog.interpretations) (subject : PropertyData Float)
    (options : AssessmentOptions) :
    let outcome := (assess catalog target.name target.roots (.start subject options)).1
    ((∃ rating, outcome = .ok rating) ∨
        (∃ property expected found, outcome = .error (.invalidData property expected found)) ∨
        ∃ node, outcome = .error (.failed node (.tooDeep options.maxDepth))) ∧
      ((∃ node limit, outcome = .error (.failed node (.tooDeep limit))) →
        ∃ chain, catalog.IsReferenceChain (target :: chain) ∧
          options.maxDepth < (target :: chain).length) ∧
      ∀ chain, catalog.IsReferenceChain (target :: chain) →
        options.maxDepth < (target :: chain).length → ∀ rating, outcome ≠ .ok rating := by
  intro outcome
  have outcomeEq : outcome = ((expandWithin catalog options.maxDepth target
      (.start subject options)).andThen fun value ctx => (.ok value.rating, ctx)).1 :=
    congrArg Prod.fst (assess_eq_expandWithin target (.start subject options))
  have checked := Catalog.build_checked built
  have isPath : catalog.IsPath [target] :=
    ⟨by simpa using known, List.isChain_singleton target⟩
  rcases result : expandWithin catalog options.maxDepth target (.start subject options) with
    ⟨error | value, after⟩
  · rw [result, Outcome.andThen_error] at outcomeEq
    rw [outcomeEq]
    have tolerated : Tolerated catalog options.maxDepth [target] error :=
      expandWithin_tolerated checked isPath rfl (Nat.add_zero options.maxDepth) result
    cases tolerated with
    | invalidData property expected found =>
        refine ⟨Or.inr (Or.inl ⟨property, expected, found, rfl⟩), ?_, by simp⟩
        rintro ⟨node, limit, impossible⟩
        cases impossible
    | tooDeep node further isFurtherPath long =>
        refine ⟨Or.inr (Or.inr ⟨node, rfl⟩), fun _ => ⟨further.reverse, ?_, ?_⟩, by simp⟩
        · have backwards := List.isChain_reverse.mpr isFurtherPath.2
          rwa [List.reverse_append, List.reverse_singleton, List.singleton_append] at backwards
        · simpa using long
  · rw [result, Outcome.andThen_ok] at outcomeEq
    rw [outcomeEq]
    refine ⟨Or.inl ⟨value.rating, rfl⟩, ?_, ?_⟩
    · rintro ⟨node, limit, impossible⟩
      cases impossible
    · intro chain isChain long
      have short := length_lt_of_expandWithin_ok checked known result isChain
      rw [List.length_cons] at long
      omega

/-- A site that is rated by its slope, where only one interpretation may be assessed at a time. -/
theorem assess_of_build_site :
    ∃ catalog site, Catalog.build Catalog.siteData = .ok catalog ∧
      site ∈ catalog.interpretations ∧ site.name = "Site" ∧
      let outcome := (assess catalog site.name site.roots (.start .empty ⟨true, .propagate, 1⟩)).1
      ((∃ rating, outcome = .ok rating) ∨
          (∃ property expected found, outcome = .error (.invalidData property expected found)) ∨
          ∃ node, outcome = .error (.failed node (.tooDeep 1))) ∧
        ((∃ node limit, outcome = .error (.failed node (.tooDeep limit))) →
          ∃ chain, catalog.IsReferenceChain (site :: chain) ∧ 1 < (site :: chain).length) ∧
        ∀ chain, catalog.IsReferenceChain (site :: chain) →
          1 < (site :: chain).length → ∀ rating, outcome ≠ .ok rating := by
  obtain ⟨catalog, slope, site, built, interpretationsEq, _, siteName⟩ :=
    Catalog.exists_build_siteData
  have known : site ∈ catalog.interpretations := by
    rw [interpretationsEq]
    simp
  exact ⟨catalog, site, built, known, siteName,
    assess_of_build built known .empty ⟨true, .propagate, 1⟩⟩

end FuzzyRating
