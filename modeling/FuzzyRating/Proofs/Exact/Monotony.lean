import FuzzyRating.Proofs.Exact.MissingData
import FuzzyRating.Proofs.Exact.Operators

/-!
Ratings rise with the ratings of leaves. All operators and all hedges but `not` are monotone on the
unit interval, and neither what is missing nor what is vetoed depends on how great a rating is.
-/

namespace FuzzyRating

open Exact

variable {scalar : Type} [Field scalar] [LinearOrder scalar] {power : scalar → scalar → scalar}

theorem forall₂_map_same {alpha beta : Type} {related : beta → beta → Prop}
    {first second : alpha → beta} {items : List alpha}
    (each : ∀ item ∈ items, related (first item) (second item)) :
    List.Forall₂ related (items.map first) (items.map second) := by
  rw [List.forall₂_map_left_iff, List.forall₂_map_right_iff, List.forall₂_same]
  exact each

/-! ## Ratings in order -/

namespace Exact

/-- A number is at most another one, both in the unit interval. -/
structure UnitLe (low high : scalar) : Prop where
  nonneg : 0 ≤ low
  atMost : low ≤ high
  atMostOne : high ≤ 1

/-- Two ratings are both absent, or the first is at most the second. -/
inductive Rises : Option (Exact power) → Option (Exact power) → Prop
  | absent : Rises none none
  | rated {low high : scalar} (unitLe : UnitLe low high) :
      Rises (some (number low)) (some (number high))

instance {low high : scalar} : Decidable (UnitLe low high) :=
  decidable_of_iff (0 ≤ low ∧ low ≤ high ∧ high ≤ 1)
    ⟨fun ⟨nonneg, atMost, atMostOne⟩ => ⟨nonneg, atMost, atMostOne⟩,
      fun ⟨nonneg, atMost, atMostOne⟩ => ⟨nonneg, atMost, atMostOne⟩⟩

instance : DecidableRel (Rises : Option (Exact power) → Option (Exact power) → Prop)
  | none, none => isTrue .absent
  | some (number low), some (number high) =>
      decidable_of_iff (UnitLe low high) ⟨.rated, fun | .rated unitLe => unitLe⟩
  | none, some _ | some _, none | some notANumber, some _ | some _, some notANumber =>
      isFalse nofun

theorem Rises.inUnit {low high : Option (Exact power)} (rises : Rises low high) :
    (∀ value ∈ low, value.InUnit) ∧ ∀ value ∈ high, value.InUnit := by
  cases rises with
  | absent => exact ⟨nofun, nofun⟩
  | rated unitLe =>
      constructor
      · rintro _ ⟨⟩
        exact .number unitLe.nonneg (unitLe.atMost.trans unitLe.atMostOne)
      · rintro _ ⟨⟩
        exact .number (unitLe.nonneg.trans unitLe.atMost) unitLe.atMostOne

/-- Greater bases have powers that are no less. -/
def RisesInBase (power : scalar → scalar → scalar) : Prop :=
  ∀ low high exponent, UnitLe low high → 0 ≤ exponent → power low exponent ≤ power high exponent

end Exact

/-! ## Operators -/

namespace Operator

section Numbers

variable [IsStrictOrderedRing scalar] {lower higher : List scalar}
  (rise : List.Forall₂ UnitLe lower higher)

include rise

theorem prod_unitLe : UnitLe lower.prod higher.prod := by
  induction rise with
  | nil => exact ⟨zero_le_one, le_rfl, le_rfl⟩
  | cons first _ inductionHypothesis =>
      have highNonneg := first.nonneg.trans first.atMost
      have restNonneg := inductionHypothesis.nonneg.trans inductionHypothesis.atMost
      rw [List.prod_cons, List.prod_cons]
      exact ⟨mul_nonneg first.nonneg inductionHypothesis.nonneg,
        mul_le_mul first.atMost inductionHypothesis.atMost inductionHypothesis.nonneg highNonneg,
        mul_le_one₀ first.atMostOne restNonneg inductionHypothesis.atMostOne⟩

/-- Complements are in the opposite order. -/
theorem complements_fall : List.Forall₂ UnitLe (higher.map (1 - ·)) (lower.map (1 - ·)) := by
  induction rise with
  | nil => exact .nil
  | cons first _ inductionHypothesis =>
      refine .cons ⟨sub_nonneg.mpr first.atMostOne, sub_le_sub_left first.atMost 1, ?_⟩
        inductionHypothesis
      exact sub_le_self 1 first.nonneg

/-- The values of an operator are in the order of its arguments. -/
theorem exactly_le (operator : Operator) : operator.exactly lower ≤ operator.exactly higher := by
  cases operator with
  | and =>
      cases rise with
      | nil => exact le_rfl
      | cons first rest =>
          rw [exactly_and List.min?_cons', exactly_and List.min?_cons']
          exact List.rel_foldl (P := LE.le) (R := UnitLe)
            (fun _ _ below _ _ next => min_le_min below next.atMost) first.atMost rest
  | or =>
      cases rise with
      | nil => exact le_rfl
      | cons first rest =>
          rw [exactly_or List.max?_cons', exactly_or List.max?_cons']
          exact List.rel_foldl (P := LE.le) (R := UnitLe)
            (fun _ _ below _ _ next => max_le_max below next.atMost) first.atMost rest
  | product => exact (prod_unitLe rise).atMost
  | sum => exact sub_le_sub_left (prod_unitLe (complements_fall rise)).atMost 1
  | times =>
      rcases rise with _ | ⟨first, _ | ⟨second, _⟩⟩
      · exact le_rfl
      · exact first.atMost
      · exact mul_le_mul first.atMost second.atMost second.nonneg
          (first.nonneg.trans first.atMost)
  | average =>
      have sums : lower.sum ≤ higher.sum :=
        List.Forall₂.sum_le_sum (rise.imp fun _ _ unitLe => unitLe.atMost)
      rw [exactly, exactly, rise.length_eq]
      exact div_le_div_of_nonneg_right sums (Nat.cast_nonneg _)

end Numbers

section Ratings

variable {lower higher : List (Option (Exact power))} (rise : List.Forall₂ Rises lower higher)

theorem combine_of_numbers_nil {ratings : List (Option (Exact power))}
    (noneRated : numbers ratings = []) (operator : Operator) :
    combine operator ratings = none := by
  unfold combine
  rw [rated_eq, noneRated]
  rfl

include rise

theorem numbers_rise : List.Forall₂ UnitLe (numbers lower) (numbers higher) := by
  induction rise with
  | nil => exact .nil
  | cons first _ inductionHypothesis =>
      cases first with
      | absent => exact inductionHypothesis
      | rated unitLe => exact .cons unitLe inductionHypothesis

theorem inUnit_of_rise : (∀ rating ∈ lower, ∀ value ∈ rating, value.InUnit) ∧
    ∀ rating ∈ higher, ∀ value ∈ rating, value.InUnit := by
  induction rise with
  | nil => exact ⟨nofun, nofun⟩
  | cons first _ inductionHypothesis =>
      obtain ⟨lowUnit, highUnit⟩ := first.inUnit
      rw [List.forall_mem_cons, List.forall_mem_cons]
      exact ⟨⟨lowUnit, inductionHypothesis.1⟩, highUnit, inductionHypothesis.2⟩

theorem combine_rises [IsStrictOrderedRing scalar] (operator : Operator) :
    Rises (combine operator lower) (combine operator higher) := by
  obtain ⟨lowerUnit, higherUnit⟩ := inUnit_of_rise rise
  have numbersRise := numbers_rise rise
  have atMost := exactly_le numbersRise operator
  by_cases noneRated : numbers lower = []
  · rw [noneRated, List.forall₂_nil_left_iff] at numbersRise
    rw [combine_of_numbers_nil noneRated, combine_of_numbers_nil numbersRise]
    exact .absent
  · have othersRated : numbers higher ≠ [] := by
      intro isNil
      rw [isNil, List.forall₂_nil_right_iff] at numbersRise
      exact noneRated numbersRise
    have lowerEq := combine_number operator (numbers_unit lowerUnit) noneRated
    have higherEq := combine_number operator (numbers_unit higherUnit) othersRated
    have lowInUnit := combine_inUnit operator lowerUnit _ lowerEq
    have highInUnit := combine_inUnit operator higherUnit _ higherEq
    rw [lowerEq, higherEq]
    cases lowInUnit with
    | number nonneg _ =>
        cases highInUnit with
        | number _ atMostOne => exact .rated ⟨nonneg, atMost, atMostOne⟩

end Ratings

end Operator

/-! ## Hedges -/

namespace Hedge

theorem raise_number {value : scalar} (nonneg : 0 ≤ value) (exponent : scalar) :
    raise (number exponent) (number value : Exact power) = number (power value exponent) := by
  unfold raise
  rw [zero_eq, greatest_number, max_eq_left nonneg, pow_number]

variable [IsStrictOrderedRing scalar]

/-- Every hedge but `not` leaves ratings in order. -/
theorem apply_rises (keepsUnit : KeepsUnit power) (risesInBase : RisesInBase power)
    {hedge : Hedge} (keepsOrder : hedge ≠ .not) {parameter : Option (Exact power)}
    (accepted : ∀ exponent ∈ parameter,
      Arith.isFinite exponent = true ∧ Arith.le Arith.zero exponent = true)
    {low high : Option (Exact power)} (rises : Rises low high) :
    Rises (hedge.apply parameter low) (hedge.apply parameter high) := by
  have raised (raises : hedge ∈ [Hedge.power, .very, .somewhat]) :
      Rises (hedge.apply parameter low) (hedge.apply parameter high) := by
    obtain ⟨exponent, exponentNonneg, applied⟩ := exists_raise raises accepted
    rw [applied, applied]
    cases rises with
    | absent => exact .absent
    | @rated low high unitLe =>
        have highNonneg := unitLe.nonneg.trans unitLe.atMost
        have lowAtMostOne := unitLe.atMost.trans unitLe.atMostOne
        rw [Option.map_some, Option.map_some, raise_number unitLe.nonneg, raise_number highNonneg]
        exact .rated ⟨(keepsUnit low exponent unitLe.nonneg lowAtMostOne exponentNonneg).1,
          risesInBase low high exponent unitLe exponentNonneg,
          (keepsUnit high exponent highNonneg unitLe.atMostOne exponentNonneg).2⟩
  cases hedge with
  | not => exact absurd rfl keepsOrder
  | power | very | somewhat => exact raised (by decide)
  | limit =>
      obtain ⟨lowUnit, highUnit⟩ := rises.inUnit
      cases rises with
      | absent => exact .absent
      | rated unitLe =>
          change Rises (some (Arith.clampUnit _)) (some (Arith.clampUnit _))
          rw [(lowUnit _ rfl).clampUnit, (highUnit _ rfl).clampUnit]
          exact .rated unitLe
  | nullOr =>
      cases rises with
      | absent =>
          change Rises (some Arith.zero) (some Arith.zero)
          rw [zero_eq]
          exact .rated ⟨le_rfl, le_rfl, zero_le_one⟩
      | rated unitLe => exact .rated unitLe
  | notNullAnd =>
      cases rises with
      | absent =>
          change Rises (some Arith.one) (some Arith.one)
          rw [one_eq]
          exact .rated ⟨zero_le_one, le_rfl, le_rfl⟩
      | rated unitLe => exact .rated unitLe
  | nullNotRated => exact rises

end Hedge

/-! ## What nodes come to -/

namespace NodeValue

/-- Two values are both vetoed, or their ratings are in order. -/
inductive Rises : NodeValue (Exact power) → NodeValue (Exact power) → Prop
  | vetoed : Rises vetoed vetoed
  | ofRating {low high : Option (Exact power)} (rises : Exact.Rises low high) :
      Rises (ofRating low) (ofRating high)

namespace Rises

variable {lower higher : NodeValue (Exact power)}

theorem of_rating (notVetoed : lower ≠ .vetoed) (otherNotVetoed : higher ≠ .vetoed)
    (rises : Exact.Rises lower.rating higher.rating) : Rises lower higher := by
  rw [← ofRating_rating notVetoed, ← ofRating_rating otherNotVetoed]
  exact .ofRating rises

theorem rating (rises : Rises lower higher) : Exact.Rises lower.rating higher.rating := by
  cases rises with
  | vetoed => exact .absent
  | ofRating rises => rwa [rating_ofRating, rating_ofRating]

theorem isVetoed (rises : Rises lower higher) : lower.isVetoed = higher.isVetoed := by
  cases rises with
  | vetoed => rfl
  | ofRating rises => cases rises <;> rfl

theorem isNotRated (rises : Rises lower higher) : lower.isNotRated = higher.isNotRated := by
  cases rises with
  | vetoed => rfl
  | ofRating rises => cases rises <;> rfl

end Rises

theorem any_eq_of_forall₂ {alpha : Type} {related : alpha → alpha → Prop} {test : alpha → Bool}
    (same : ∀ first second, related first second → test first = test second)
    {left right : List alpha} (pairs : List.Forall₂ related left right) :
    left.any test = right.any test := by
  induction pairs with
  | nil => rfl
  | cons first _ inductionHypothesis =>
      rw [List.any_cons, List.any_cons, same _ _ first, inductionHypothesis]

variable [IsStrictOrderedRing scalar]

section Combined

variable {lower higher : List (NodeValue (Exact power))} (rise : List.Forall₂ Rises lower higher)
  (policy : MissingData)

include rise

theorem combine_rises (operator : Operator) :
    Rises (combine policy operator lower) (combine policy operator higher) := by
  have ratings : List.Forall₂ Exact.Rises (lower.map rating) (higher.map rating) :=
    List.rel_map (fun _ _ => Rises.rating) rise
  have vetoed : lower.any isVetoed = higher.any isVetoed :=
    any_eq_of_forall₂ (fun _ _ rises => rises.isVetoed) rise
  have missing : lower.any isNotRated = higher.any isNotRated :=
    any_eq_of_forall₂ (fun _ _ rises => rises.isNotRated) rise
  unfold combine
  rw [vetoed, missing]
  split
  · exact .vetoed
  · split
    · exact .ofRating .absent
    · exact .ofRating (operator.combine_rises ratings)

theorem together_rises : Rises (together policy lower) (together policy higher) := by
  rcases rise with _ | ⟨first, _ | ⟨second, rest⟩⟩
  · exact combine_rises .nil policy .and
  · exact first
  · exact combine_rises (.cons first (.cons second rest)) policy .and

end Combined

theorem hedged_rises (keepsUnit : KeepsUnit power) (risesInBase : RisesInBase power)
    {hedge : Hedge} (keepsOrder : hedge ≠ .not) {parameter : Option (Exact power)}
    (accepted : ∀ exponent ∈ parameter,
      Arith.isFinite exponent = true ∧ Arith.le Arith.zero exponent = true)
    {lower higher : NodeValue (Exact power)} (rises : Rises lower higher) :
    Rises (lower.hedged hedge parameter) (higher.hedged hedge parameter) := by
  cases rises with
  | vetoed => exact .vetoed
  | ofRating rises =>
      have applied := hedge.apply_rises keepsUnit risesInBase keepsOrder accepted rises
      cases rises with
      | rated unitLe => exact .ofRating applied
      | absent =>
          change Rises (if hedge = .nullNotRated then NodeValue.vetoed else _)
            (if hedge = .nullNotRated then NodeValue.vetoed else _)
          split
          · exact .vetoed
          · exact .ofRating applied

end NodeValue

/-! ## Trees -/

section Trees

variable {catalog : Catalog (Exact power)} {subject other : PropertyData (Exact power)}
  {options : AssessmentOptions}

/-- What a node asks of two subjects for its rating to rise from one to the other: its exponent is
accepted, it is no hedge `not`, and if it is a leaf then the rating there rises. -/
structure Node.RisesAt (catalog : Catalog (Exact power)) (subject other : PropertyData (Exact power))
    (options : AssessmentOptions) (label : Node (Exact power)) : Prop where
  exponent : ∀ hedge parameter, label.kind = .hedge hedge parameter → ∀ exponent ∈ parameter,
    Arith.isFinite exponent = true ∧ Arith.le Arith.zero exponent = true
  keepsOrder : ∀ hedge parameter, label.kind = .hedge hedge parameter → hedge ≠ .not
  evaluation : ∀ evaluation, catalog.evaluationOf? label = some evaluation →
    (evaluationValue catalog subject options evaluation).Rises
      (evaluationValue catalog other options evaluation)

variable [IsStrictOrderedRing scalar] (keepsUnit : KeepsUnit power)
  (risesInBase : RisesInBase power)

include keepsUnit risesInBase

theorem nodeValue_rises {label : Node (Exact power)}
    (risesAt : label.RisesAt catalog subject other options)
    {lower higher : List (NodeValue (Exact power))}
    (rise : List.Forall₂ NodeValue.Rises lower higher) :
    (nodeValue catalog subject options label lower).Rises
      (nodeValue catalog other options label higher) := by
  unfold nodeValue
  cases kind : label.kind with
  | root => exact NodeValue.combine_rises rise _ .and
  | operator operator => exact NodeValue.combine_rises rise _ operator
  | hedge hedge parameter =>
      refine NodeValue.hedged_rises keepsUnit risesInBase (risesAt.keepsOrder hedge parameter kind)
        (risesAt.exponent hedge parameter kind) ?_
      cases rise with
      | nil => exact .ofRating .absent
      | cons first _ => exact first
  | evaluation refId =>
      cases found : catalog.evaluationOf? label with
      | none => exact NodeValue.together_rises rise _
      | some evaluation => exact risesAt.evaluation evaluation found

theorem treeValue_rises (tree : RuleTree (Exact power))
    (riseAt : ∀ label ∈ tree.preorder, label.RisesAt catalog subject other options) :
    (treeValue catalog subject options tree).Rises (treeValue catalog other options tree) := by
  induction tree using Tree.induction with
  | node label children inductionHypothesis =>
      have own := riseAt label (Tree.mem_preorder_node_iff.mpr (Or.inl rfl))
      have below : List.Forall₂ NodeValue.Rises
          (children.map (treeValue catalog subject options))
          (children.map (treeValue catalog other options)) := by
        apply forall₂_map_same
        intro child member
        apply inductionHypothesis child member
        intro inner innerMember
        apply riseAt
        exact Tree.mem_preorder_node_iff.mpr (Or.inr ⟨child, member, innerMember⟩)
      rw [treeValue_node, treeValue_node]
      exact nodeValue_rises keepsUnit risesInBase own below

end Trees

/-! ## Interpretations -/

section Interpretations

variable {catalog : Catalog (Exact power)} {target : Interpretation (Exact power)}
  {subject other : PropertyData (Exact power)} {options : AssessmentOptions}
  {rating otherRating : Option (Exact power)} {after otherAfter : Context (Exact power)}

/-- The same nodes have been recorded, and the rating of each of them rises. -/
def Context.Rises (lower higher : Context (Exact power)) : Prop :=
  List.Forall₂ (fun entry other => entry.1 = other.1 ∧ Exact.Rises entry.2 other.2)
    (Journal.current lower.ratings) (Journal.current higher.ratings)

section Assessed

variable (checked : catalog.Checked) (known : target ∈ catalog.interpretations)
  (assessed : assess catalog target.name target.roots (.start subject options) =
    (.ok rating, after))
  (otherAssessed : assess catalog target.name target.roots (.start other options) =
    (.ok otherRating, otherAfter))

include checked known assessed otherAssessed

/-- The values of an evaluation rise if the ratings recorded at the leaf do. -/
theorem evaluationValue_rises
    (leavesRise : ∀ leaf ∈ Tree.leavesAll (catalog.fullTrees target), ∀ low high,
      (leaf.key, low) ∈ Journal.current after.ratings →
      (leaf.key, high) ∈ Journal.current otherAfter.ratings → Exact.Rises low high)
    {label : Node (Exact power)} (member : label ∈ Tree.preorderAll (catalog.fullTrees target))
    {evaluation : Evaluation (Exact power)}
    (stands : catalog.evaluationOf? label = some evaluation) :
    (evaluationValue catalog subject options evaluation).Rises
      (evaluationValue catalog other options evaluation) := by
  obtain ⟨leaf, recorded⟩ := mem_ratings_of_evaluation checked known assessed member stands
  obtain ⟨_, otherRecorded⟩ := mem_ratings_of_evaluation checked known otherAssessed member stands
  exact .of_rating (evaluationValue_ne_vetoed evaluation) (evaluationValue_ne_vetoed evaluation)
    (leavesRise label leaf _ _ recorded otherRecorded)

/-- Two assessments record the same nodes in the same order, each with what its tree comes to. -/
theorem rises_of_treeValues
    (rise : ∀ tree ∈ Tree.subtreesAll (catalog.fullTrees target),
      (treeValue catalog subject options tree).Rises (treeValue catalog other options tree)) :
    after.Rises otherAfter := by
  let nodes : Journal (RuleTree (Exact power)) :=
    ((Tree.subtreesAll (catalog.fullTrees target)).map fun tree => (tree.label.key, tree)).reverse
  have recorded {subject : PropertyData (Exact power)} {rating : Option (Exact power)}
      {after : Context (Exact power)}
      (assessed : assess catalog target.name target.roots (.start subject options) =
        (.ok rating, after)) :
      Journal.current after.ratings = (Journal.current nodes).map
        (Prod.map id fun tree => (treeValue catalog subject options tree).rating) := by
    rw [← Journal.current_map, ratings_of_assess checked known assessed, List.map_reverse,
      List.map_map]
    rfl
  unfold Context.Rises
  rw [recorded assessed, recorded otherAssessed]
  apply forall₂_map_same
  rintro ⟨key, tree⟩ isCurrent
  have inNodes := mem_of_lookup (Journal.mem_current_iff.mp isCurrent)
  obtain ⟨_, member, entryEq⟩ := List.mem_map.mp (List.mem_reverse.mp inNodes)
  cases entryEq
  exact ⟨rfl, (rise tree member).rating⟩

end Assessed

variable [IsStrictOrderedRing scalar]

/-- Where no hedge is `not`, the ratings of two subjects are in order at all nodes, and altogether,
if they are in order at all leaves. -/
theorem assess_rises (keepsUnit : KeepsUnit power) (risesInBase : RisesInBase power)
    {data : CatalogData (Exact power)} (built : Catalog.build data = .ok catalog)
    (known : target ∈ catalog.interpretations)
    (keepsOrder : ∀ label ∈ Tree.preorderAll (catalog.fullTrees target), ∀ hedge parameter,
      label.kind = .hedge hedge parameter → hedge ≠ .not)
    (assessed : assess catalog target.name target.roots (.start subject options) =
      (.ok rating, after))
    (otherAssessed : assess catalog target.name target.roots (.start other options) =
      (.ok otherRating, otherAfter))
    (leavesRise : ∀ leaf ∈ Tree.leavesAll (catalog.fullTrees target), ∀ low high,
      (leaf.key, low) ∈ Journal.current after.ratings →
      (leaf.key, high) ∈ Journal.current otherAfter.ratings → Rises low high) :
    (∀ label ∈ Tree.preorderAll (catalog.fullTrees target),
      ∃ nodeRating, (label.key, nodeRating) ∈ Journal.current after.ratings) ∧
      after.Rises otherAfter ∧ Rises rating otherRating := by
  have checked := Catalog.build_checked built
  have riseAt : ∀ label ∈ Tree.preorderAll (catalog.fullTrees target),
      label.RisesAt catalog subject other options := fun label member =>
    ⟨(checked.isChecked known member).exponent, keepsOrder label member, fun _ stands =>
      evaluationValue_rises checked known assessed otherAssessed leavesRise member stands⟩
  have rise : ∀ tree ∈ Tree.subtreesAll (catalog.fullTrees target),
      (treeValue catalog subject options tree).Rises (treeValue catalog other options tree) := by
    intro tree member
    apply treeValue_rises keepsUnit risesInBase
    intro label inTree
    exact riseAt label (Tree.mem_preorderAll_of_mem_subtreesAll member inTree)
  refine ⟨?_, rises_of_treeValues checked known assessed otherAssessed rise, ?_⟩
  · intro label member
    obtain ⟨tree, treeMember, rfl⟩ := Tree.exists_mem_subtreesAll member
    exact ⟨_, (mem_ratings_iff_of_mem checked known assessed treeMember).mpr rfl⟩
  · rw [(assess_ok checked known assessed).1, (assess_ok checked known otherAssessed).1]
    have roots : List.Forall₂ NodeValue.Rises
        ((catalog.fullTrees target).map (treeValue catalog subject options))
        ((catalog.fullTrees target).map (treeValue catalog other options)) := by
      apply forall₂_map_same
      intro tree member
      exact rise tree (Tree.mem_subtreesAll_iff.mpr ⟨tree, member, Tree.mem_subtrees_self tree⟩)
    exact (NodeValue.together_rises roots options.missingData).rating

end Interpretations

theorem risesInBase_wholePower : RisesInBase wholePower :=
  fun _ _ _ unitLe _ => pow_le_pow_left₀ unitLe.nonneg unitLe.atMost _

/-- A hillside of a slope of eight is rated higher than one of a slope of five. -/
theorem assess_rises_hillside :
    ∃ catalog target after otherAfter, Catalog.build hillsideData = .ok catalog ∧
      target ∈ catalog.interpretations ∧
      assess catalog target.name target.roots
          (.start (.ofList [("slope", .number (number 5))]) .standard) =
        (.ok (some (number (11 / 32))), after) ∧
      assess catalog target.name target.roots
          (.start (.ofList [("slope", .number (number 8))]) .standard) =
        (.ok (some (number 1)), otherAfter) ∧
      (∀ label ∈ Tree.preorderAll (catalog.fullTrees target),
        ∃ nodeRating, (label.key, nodeRating) ∈ Journal.current after.ratings) ∧
      after.Rises otherAfter ∧
      Rises (some (number (11 / 32))) (some (number 1 : Exact wholePower)) := by
  have run : ((Catalog.build hillsideData).toOption.bind fun catalog =>
      (catalog.interpretation? "Hillside").map fun hillside =>
        let outcome (slope : ℚ) := assess catalog hillside.name hillside.roots
          (.start (.ofList [("slope", .number (number slope))]) .standard)
        ((outcome 5).1.toOption, (outcome 8).1.toOption,
          (Tree.preorderAll (catalog.fullTrees hillside)).all fun label =>
            match label.kind with
            | .hedge hedge _ => hedge ≠ .not
            | _ => true,
          decide (∀ leaf ∈ Tree.leavesAll (catalog.fullTrees hillside),
            ∀ entry ∈ (outcome 5).2.ratings, ∀ other ∈ (outcome 8).2.ratings,
              entry.1 = leaf.key → other.1 = leaf.key → Rises entry.2 other.2))) =
      some (some (some (number (11 / 32))), some (some (number 1)), true, true) := by
    decide +kernel
  obtain ⟨catalog, target, built, known, readings⟩ := Catalog.exists_of_build run
  simp only [Prod.mk.injEq, decide_eq_true_eq] at readings
  obtain ⟨gentleRun, steepRun, keepsOrder, leavesRise⟩ := readings
  have assessed : assess catalog target.name target.roots
      (.start (.ofList [("slope", .number (number 5))]) .standard) =
        (.ok (some (number (11 / 32))), _) :=
    Prod.ext (eq_ok_of_toOption gentleRun) rfl
  have otherAssessed : assess catalog target.name target.roots
      (.start (.ofList [("slope", .number (number 8))]) .standard) =
        (.ok (some (number 1)), _) :=
    Prod.ext (eq_ok_of_toOption steepRun) rfl
  refine ⟨catalog, target, _, _, built, known, assessed, otherAssessed,
    assess_rises keepsUnit_wholePower risesInBase_wholePower built known ?_ assessed otherAssessed
      ?_⟩
  · intro label member hedge parameter kind
    have isOther := List.all_eq_true.mp keepsOrder label member
    simpa [kind] using isOther
  · intro leaf member low high recorded otherRecorded
    have inFirst := mem_of_lookup (Journal.mem_current_iff.mp recorded)
    have inSecond := mem_of_lookup (Journal.mem_current_iff.mp otherRecorded)
    exact leavesRise leaf member _ inFirst _ inSecond rfl rfl

end FuzzyRating
