import FuzzyRating.Proofs.Assessment.Extension
import FuzzyRating.Proofs.Rule.Resolve

/-!
A successful assessment of resolved trees visits every node once, each after its children, and
records its rating.
-/

namespace FuzzyRating

/-! ## The children of leaves and hedges -/

section Arity

variable {num : Type} {label : Node num} {children : List (RuleTree num)} {key : String}

theorem children_eq_nil_of_evaluation {refId : String}
    (resolved : ResolvedAt key (.node label children)) (leaf : label.kind = .evaluation refId) :
    children = [] := by
  obtain ⟨_, admitted, _⟩ := resolvedAt_node_iff.mp resolved
  rw [leaf] at admitted
  have noChildren : children.length = 0 := by
    simpa [NodeKind.arity, Arity.admits] using admitted
  exact List.length_eq_zero_iff.mp noChildren

theorem children_eq_singleton_of_hedge {hedge : Hedge} {parameter : Option num}
    (resolved : ResolvedAt key (.node label children))
    (hedged : label.kind = .hedge hedge parameter) :
    ∃ child, children = [child] := by
  obtain ⟨_, admitted, _⟩ := resolvedAt_node_iff.mp resolved
  rw [hedged] at admitted
  have oneChild : children.length = 1 := by
    simpa [NodeKind.arity, Arity.admits] using admitted
  exact List.length_eq_one_iff.mp oneChild

theorem resolvedBelow_children (resolved : ResolvedAt key (.node label children)) :
    ∀ child ∈ children, ∃ place, ResolvedAt place child := by
  obtain ⟨_, _, below⟩ := resolvedAt_node_iff.mp resolved
  exact fun child member => below.of_mem member

theorem ResolvedAt.of_mem_subtrees {tree inner : RuleTree num} (resolved : ResolvedAt key tree)
    (within : inner ∈ tree.subtrees) :
    ∃ place, ResolvedAt place inner := by
  induction tree using Tree.induction generalizing key with
  | node label children inductionHypothesis =>
      rcases Tree.mem_subtrees_node_iff.mp within with ⟨child, member, inChild⟩ | rfl
      · obtain ⟨place, childResolved⟩ := resolvedBelow_children resolved child member
        exact inductionHypothesis child member childResolved inChild
      · exact ⟨key, resolved⟩

theorem Node.refId?_eq_some_iff {refId : String} :
    label.refId? = some refId ↔ label.kind = .evaluation refId := by
  unfold Node.refId?
  cases label.kind <;> simp

end Arity

/-! ## Visits -/

variable {num : Type} [Arith num] {catalog : Catalog num} {expand : Expansion num}

/-- A node whose children have been visited is rated and its rating recorded. -/
inductive Visited (catalog : Catalog num) (expand : Expansion num) (label : Node num) :
    Context num → Context num → Prop
  | leaf {refId : String} {before middle : Context num} {value : NodeValue num}
      (kind : label.kind = .evaluation refId)
      (rated : assessLeaf catalog expand label.key refId before = (.ok value, middle)) :
      Visited catalog expand label before (middle.record label.key value.rating)
  | inner {before : Context num} {rating : Option num}
      (kind : ∀ refId, label.kind ≠ .evaluation refId) :
      Visited catalog expand label before (before.record label.key rating)

/-- Nodes are visited one after the other. -/
inductive Visits (catalog : Catalog num) (expand : Expansion num) :
    List (Node num) → Context num → Context num → Prop
  | nil (ctx : Context num) : Visits catalog expand [] ctx ctx
  | cons {label : Node num} {labels : List (Node num)} {before middle after : Context num}
      (first : Visited catalog expand label before middle)
      (rest : Visits catalog expand labels middle after) :
      Visits catalog expand (label :: labels) before after

theorem Visited.extension
    (expands : ∀ target ctx, Context.Extends catalog ctx (expand target ctx).2)
    {label : Node num} {before after : Context num}
    (visited : Visited catalog expand label before after) :
    Context.Extends catalog before after := by
  cases visited with
  | @leaf refId _ middle value kind rated =>
      have extension := assessLeaf_extends expands label.key refId before
      rw [rated] at extension
      exact extension.trans (Context.Extends.record middle label.key value.rating)
  | @inner _ rating kind => exact Context.Extends.record before label.key rating

namespace Visits

theorem extension
    (expands : ∀ target ctx, Context.Extends catalog ctx (expand target ctx).2)
    {labels : List (Node num)} {before after : Context num}
    (visits : Visits catalog expand labels before after) :
    Context.Extends catalog before after := by
  induction visits with
  | nil ctx => exact Context.Extends.refl ctx
  | cons visited _ inductionHypothesis =>
      exact (visited.extension expands).trans inductionHypothesis

theorem single {label : Node num} {before after : Context num}
    (visited : Visited catalog expand label before after) :
    Visits catalog expand [label] before after :=
  cons visited (nil after)

theorem append {early late : List (Node num)} {before middle after : Context num}
    (first : Visits catalog expand early before middle)
    (second : Visits catalog expand late middle after) :
    Visits catalog expand (early ++ late) before after := by
  induction first with
  | nil ctx => exact second
  | cons visited _ inductionHypothesis => exact cons visited (inductionHypothesis second)

/-- A node that is visited is visited between those before and those after it. -/
theorem split {label : Node num} {labels : List (Node num)} {before after : Context num}
    (visits : Visits catalog expand labels before after) (member : label ∈ labels) :
    ∃ early late reached left, labels = early ++ label :: late ∧
      Visits catalog expand early before reached ∧ Visited catalog expand label reached left ∧
      Visits catalog expand late left after := by
  induction visits with
  | nil ctx => simp at member
  | @cons first labels before middle after visited rest inductionHypothesis =>
      rcases List.mem_cons.mp member with rfl | later
      · exact ⟨[], labels, before, middle, rfl, nil before, visited, rest⟩
      · obtain ⟨early, late, reached, left, labelsEq, earlier, here, afterwards⟩ :=
          inductionHypothesis later
        exact ⟨first :: early, late, reached, left, by rw [labelsEq, List.cons_append],
          cons visited earlier, here, afterwards⟩

end Visits

/-! ## Assessments as visits -/

private theorem assessNodes_visits_of {trees : List (RuleTree num)}
    (each : ∀ tree ∈ trees, ∀ before value after,
      assessNode catalog expand before tree = (.ok value, after) →
        Visits catalog expand tree.postorder before after) :
    ∀ before values after, assessNodes catalog expand before trees = (.ok values, after) →
      Visits catalog expand (Tree.postorderAll trees) before after := by
  induction trees with
  | nil =>
      intro before values after assessed
      rw [assessNodes] at assessed
      cases assessed
      rw [Tree.postorderAll_nil]
      exact Visits.nil before
  | cons tree trees inductionHypothesis =>
      intro before values after assessed
      rw [assessNodes] at assessed
      obtain ⟨value, middle, treeEq, restStep⟩ := Outcome.andThen_eq_ok_iff.mp assessed
      obtain ⟨restValues, last, restEq, resultEq⟩ := Outcome.andThen_eq_ok_iff.mp restStep
      cases resultEq
      rw [Tree.postorderAll_cons]
      have first := each tree List.mem_cons_self before value middle treeEq
      have rest := inductionHypothesis
        (fun other member => each other (List.mem_cons_of_mem tree member))
        middle restValues _ restEq
      exact first.append rest

theorem assessNode_visits {tree : RuleTree num} {key : String} (resolved : ResolvedAt key tree) :
    ∀ before value after, assessNode catalog expand before tree = (.ok value, after) →
      Visits catalog expand tree.postorder before after := by
  induction tree using Tree.induction generalizing key with
  | node label children inductionHypothesis =>
      intro before value after assessed
      rw [assessNode] at assessed
      obtain ⟨rated, middle, ratedEq, recorded⟩ := Outcome.andThen_eq_ok_iff.mp assessed
      cases recorded
      have below : ∀ values reached,
          assessNodes catalog expand before children = (.ok values, reached) →
            Visits catalog expand (Tree.postorderAll children) before reached :=
        assessNodes_visits_of (fun child member => by
          obtain ⟨place, childResolved⟩ := resolvedBelow_children resolved child member
          exact inductionHypothesis child member childResolved) before
      rw [Tree.postorder_node]
      cases kind : label.kind with
      | root =>
          rw [kind] at ratedEq
          obtain ⟨values, reached, childrenEq, combined⟩ := Outcome.andThen_eq_ok_iff.mp ratedEq
          cases combined
          exact (below values _ childrenEq).append (Visits.single (.inner (by simp [kind])))
      | operator operator =>
          rw [kind] at ratedEq
          obtain ⟨values, reached, childrenEq, combined⟩ := Outcome.andThen_eq_ok_iff.mp ratedEq
          cases combined
          exact (below values _ childrenEq).append (Visits.single (.inner (by simp [kind])))
      | hedge hedge parameter =>
          obtain ⟨child, rfl⟩ := children_eq_singleton_of_hedge resolved kind
          rw [kind] at ratedEq
          obtain ⟨childValue, reached, childEq, hedged⟩ := Outcome.andThen_eq_ok_iff.mp ratedEq
          cases hedged
          have alone : assessNodes catalog expand before [child] = (.ok [childValue], middle) := by
            rw [assessNodes, childEq, Outcome.andThen_ok, assessNodes, Outcome.andThen_ok]
          exact (below _ _ alone).append (Visits.single (.inner (by simp [kind])))
      | evaluation refId =>
          rw [children_eq_nil_of_evaluation resolved kind, Tree.postorderAll_nil]
          rw [kind] at ratedEq
          exact Visits.single (.leaf kind ratedEq)

theorem assessRoots_visits {roots : List (RuleTree num)} {parent : Option String}
    (resolved : ResolvedBelow parent roots) {before after : Context num} {value : NodeValue num}
    (assessed : assessRoots catalog expand before roots = (.ok value, after)) :
    Visits catalog expand (Tree.postorderAll roots) before after := by
  have each : ∀ root ∈ roots, ∀ before value after,
      assessNode catalog expand before root = (.ok value, after) →
        Visits catalog expand root.postorder before after := by
    intro root member
    obtain ⟨key, rootResolved⟩ := resolved.of_mem member
    exact assessNode_visits rootResolved
  unfold assessRoots at assessed
  split at assessed
  · next root =>
      have visits := each root List.mem_cons_self before value after assessed
      rwa [Tree.postorderAll_cons, Tree.postorderAll_nil, List.append_nil]
  · obtain ⟨values, reached, rootsEq, combined⟩ := Outcome.andThen_eq_ok_iff.mp assessed
    cases combined
    exact assessNodes_visits_of each before values _ rootsEq

end FuzzyRating
