import FuzzyRating.Assessment.Report
import FuzzyRating.Proofs.Assessment.Trace
import FuzzyRating.Proofs.Exact.Combination
import FuzzyRating.Proofs.Exact.Curve
import FuzzyRating.Proofs.Rule.WellFormed
import Mathlib.Algebra.Order.Ring.Rat
import Mathlib.Analysis.SpecialFunctions.Pow.Real

/-!
Ratings computed exactly stay between zero and one. The points of curves and the exponents of
hedges are checked when a catalog is built, and from there on every step keeps ratings in the unit
interval.
-/

namespace FuzzyRating

open Exact

variable {scalar : Type} [Field scalar] [LinearOrder scalar] [IsStrictOrderedRing scalar]
  {power : scalar → scalar → scalar}

section Trees

variable {catalog : Catalog (Exact power)} {subject : PropertyData (Exact power)}
  {options : AssessmentOptions}

/-- What has been checked of a node: its exponent, if it has one, and its evaluation. -/
structure Node.IsChecked (catalog : Catalog (Exact power)) (label : Node (Exact power)) :
    Prop where
  exponent : ∀ hedge parameter, label.kind = .hedge hedge parameter → ∀ exponent ∈ parameter,
    Arith.isFinite exponent = true ∧ Arith.le Arith.zero exponent = true
  evaluation : ∀ evaluation, catalog.evaluationOf? label = some evaluation →
    ∃ definition, Evaluation.ofDefinition definition = .ok evaluation

omit [IsStrictOrderedRing scalar] in
theorem Catalog.Checked.isChecked (checked : catalog.Checked)
    {target : Interpretation (Exact power)} (known : target ∈ catalog.interpretations)
    {label : Node (Exact power)} (member : label ∈ Tree.preorderAll (catalog.fullTrees target)) :
    label.IsChecked catalog := by
  constructor
  · intro hedge parameter kind
    obtain ⟨source, sourceKnown, own, ownMember, before, rfl⟩ :=
      exists_under_of_mem_fullTreesWithin known member
    obtain ⟨nodes, normalized⟩ := checked.normalized source sourceKnown
    exact normalize_exponents normalized ownMember kind
  · intro evaluation found
    obtain ⟨refId, _, resolved⟩ := evaluationOf?_eq_some_iff.mp found
    exact checked.compiled evaluation (mem_of_resolve?_evaluation resolved)

theorem NodeValue.together_inUnit (policy : MissingData) {values : List (NodeValue (Exact power))}
    (inUnit : ∀ value ∈ values, value.InUnit) : (together policy values).InUnit := by
  rcases values with _ | ⟨value, _ | ⟨second, rest⟩⟩
  · exact combine_inUnit policy .and inUnit
  · exact inUnit value List.mem_cons_self
  · exact combine_inUnit policy .and inUnit

theorem evaluationValue_inUnit (clamped : options.clampSpline = true)
    {definition : EvaluationDefinition (Exact power)} {evaluation : Evaluation (Exact power)}
    (compiled : Evaluation.ofDefinition definition = .ok evaluation) :
    (evaluationValue catalog subject options evaluation).InUnit := by
  unfold evaluationValue
  rw [clamped]
  split
  · next rating rated =>
      exact NodeValue.ofRating_inUnit (Evaluation.membership_inUnit compiled rated)
  · rintro value ⟨⟩

variable (keepsUnit : KeepsUnit power) (clamped : options.clampSpline = true)

include keepsUnit clamped

theorem nodeValue_inUnit {label : Node (Exact power)} (isChecked : label.IsChecked catalog)
    {values : List (NodeValue (Exact power))} (inUnit : ∀ value ∈ values, value.InUnit) :
    (nodeValue catalog subject options label values).InUnit := by
  unfold nodeValue
  cases kind : label.kind with
  | root => exact NodeValue.combine_inUnit _ .and inUnit
  | operator operator => exact NodeValue.combine_inUnit _ operator inUnit
  | hedge hedge parameter =>
      refine NodeValue.hedged_inUnit keepsUnit hedge (isChecked.exponent hedge parameter kind) ?_
      cases values with
      | nil => rintro value ⟨⟩
      | cons value rest => exact inUnit value List.mem_cons_self
  | evaluation refId =>
      cases found : catalog.evaluationOf? label with
      | none => exact NodeValue.together_inUnit _ inUnit
      | some evaluation =>
          obtain ⟨definition, compiled⟩ := isChecked.evaluation evaluation found
          exact evaluationValue_inUnit clamped compiled

theorem treeValue_inUnit (tree : RuleTree (Exact power))
    (isChecked : ∀ label ∈ tree.preorder, label.IsChecked catalog) :
    (treeValue catalog subject options tree).InUnit := by
  induction tree using Tree.induction with
  | node label children inductionHypothesis =>
      rw [treeValue_node]
      refine nodeValue_inUnit keepsUnit clamped
        (isChecked label (Tree.mem_preorder_node_iff.mpr (Or.inl rfl))) fun value member => ?_
      obtain ⟨child, childMember, rfl⟩ := List.mem_map.mp member
      exact inductionHypothesis child childMember fun inner innerMember =>
        isChecked inner (Tree.mem_preorder_node_iff.mpr (Or.inr ⟨child, childMember, innerMember⟩))

end Trees

/-- The powers of real numbers are of this sort. -/
theorem keepsUnit_rpow : KeepsUnit Real.rpow :=
  fun _ _ baseNonneg baseAtMostOne exponentNonneg =>
    ⟨Real.rpow_nonneg baseNonneg _, Real.rpow_le_one baseNonneg baseAtMostOne exponentNonneg⟩

/-- Computed exactly, all ratings that a successful assessment records lie between zero and one, and
the rating of the interpretation is neither refused nor bounded in the end. -/
theorem assess_inUnit (keepsUnit : KeepsUnit power) {data : CatalogData (Exact power)}
    {catalog : Catalog (Exact power)} {target : Interpretation (Exact power)}
    (built : Catalog.build data = .ok catalog) (known : target ∈ catalog.interpretations)
    {subject : PropertyData (Exact power)} {options : AssessmentOptions}
    (clamped : options.clampSpline = true) {rating : Option (Exact power)}
    {after : Context (Exact power)}
    (assessed : assess catalog target.name target.roots (.start subject options) =
      (.ok rating, after)) :
    (∀ entry ∈ Journal.current after.ratings, ∀ value ∈ entry.2, Arith.inUnit value = true) ∧
      (∀ value ∈ rating, Arith.inUnit value = true) ∧
      boundRating target.name rating = .ok rating := by
  have checked := Catalog.build_checked built
  have treeInUnit : ∀ tree ∈ Tree.subtreesAll (catalog.fullTrees target),
      (treeValue catalog subject options tree).InUnit := by
    intro tree member
    exact treeValue_inUnit keepsUnit clamped tree fun label inTree =>
      checked.isChecked known (Tree.mem_preorderAll_of_mem_subtreesAll member inTree)
  have rootInUnit : (interpretationValue catalog subject options target).InUnit := by
    refine NodeValue.together_inUnit _ fun value member => ?_
    obtain ⟨tree, treeMember, rfl⟩ := List.mem_map.mp member
    exact treeInUnit tree
      (Tree.mem_subtreesAll_iff.mpr ⟨tree, treeMember, Tree.mem_subtrees_self tree⟩)
  obtain ⟨rfl, _, _⟩ := assess_ok checked known assessed
  refine ⟨?_, fun value isRating => inUnit_iff.mpr (rootInUnit value isRating), ?_⟩
  · rintro ⟨key, nodeRating⟩ member value isRating
    obtain ⟨tree, treeMember, _, rfl⟩ := (mem_ratings_iff checked known assessed).mp member
    exact inUnit_iff.mpr (treeInUnit tree treeMember value isRating)
  · cases isRating : (interpretationValue catalog subject options target).rating with
    | none => rfl
    | some value =>
        have inUnit := rootInUnit value isRating
        change (if Arith.isNaN value = true then _ else
          Except.ok (some (Arith.clampUnit value))) = _
        rw [inUnit.isNaN, inUnit.clampUnit, if_neg Bool.false_ne_true]

/-- Powers with whole exponents. -/
def wholePower (base exponent : ℚ) : ℚ :=
  base ^ exponent.num.toNat

theorem keepsUnit_wholePower : KeepsUnit wholePower :=
  fun _ _ baseNonneg baseAtMostOne _ =>
    ⟨pow_nonneg baseNonneg _, pow_le_one₀ baseNonneg baseAtMostOne⟩

/-- How steep a hillside is by two bounds for its slope. -/
def steepness : RuleNode :=
  .node "average" none none none
    [.node "Steep" none none (some "Steep") [], .node "Sheer" none none (some "Sheer") []]

/-- A hillside is rated by its steepness, squared and cubed. -/
def hillsideData : CatalogData (Exact wholePower) where
  properties := [⟨"p1", "slope", none, none, none, "", false⟩]
  evaluations :=
    [⟨"e1", "Steep", "slope", "crisp", false, none, none, none, some "> 3"⟩,
     ⟨"e2", "Sheer", "slope", "crisp", false, none, none, none, some "> 7.5"⟩]
  rules :=
    [⟨"r1", "Hillside",
      [.node "Hillside" none none none [], .node "  sum" none none none [],
       .node "    very" none none none [steepness],
       .node "    Cubed" (some "power") (some "3") none [steepness]]⟩]

theorem assess_inUnit_hillside :
    ∃ catalog target rating after, Catalog.build hillsideData = .ok catalog ∧
      target ∈ catalog.interpretations ∧ rating = some (number (11 / 32)) ∧
      assess catalog target.name target.roots
        (.start (.ofList [("slope", .number (number 5))]) .standard) = (.ok rating, after) ∧
      (∀ entry ∈ Journal.current after.ratings, ∀ value ∈ entry.2, Arith.inUnit value = true) ∧
      (∀ value ∈ rating, Arith.inUnit value = true) ∧
      boundRating target.name rating = .ok rating := by
  have run : ((Catalog.build hillsideData).toOption.bind fun catalog =>
      (catalog.interpretation? "Hillside").map fun hillside =>
        (assess catalog hillside.name hillside.roots
          (.start (.ofList [("slope", .number (number 5))]) .standard)).1.toOption) =
      some (some (some (number (11 / 32)))) := by
    decide +kernel
  obtain ⟨catalog, target, built, known, ratedSome⟩ := Catalog.exists_of_build run
  have assessed : assess catalog target.name target.roots
      (.start (.ofList [("slope", .number (number 5))]) .standard) =
        (.ok (some (number (11 / 32))), _) :=
    Prod.ext (eq_ok_of_toOption ratedSome) rfl
  exact ⟨catalog, target, _, _, built, known, rfl, assessed,
    assess_inUnit keepsUnit_wholePower built known rfl assessed⟩

end FuzzyRating
