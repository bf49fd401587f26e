import FuzzyRating.Proofs.Assessment.FullTree

/-!
The properties that an interpretation of a built catalog requires are those that the evaluations at
the leaves of its full trees read, each where it is read first.
-/

namespace FuzzyRating.Catalog

variable {num : Type}

/-! ## Evaluations at leaves -/

/-- The evaluations at the leaves of the full trees, in order. -/
def evaluationsRead (catalog : Catalog num) (target : Interpretation num) :
    List (Evaluation num) :=
  (Tree.preorderAll (catalog.fullTrees target)).filterMap catalog.evaluationOf?

theorem mem_evaluationsRead_iff {catalog : Catalog num} {target : Interpretation num}
    {evaluation : Evaluation num} :
    evaluation ∈ catalog.evaluationsRead target ↔
      ∃ leaf ∈ Tree.subtreesAll (catalog.fullTrees target),
        catalog.evaluationOf? leaf.label = some evaluation := by
  unfold evaluationsRead
  simp only [List.mem_filterMap, ← Tree.mem_postorderAll_iff, ← Tree.map_label_subtreesAll,
    List.mem_map, exists_exists_and_eq_and]

/-- The evaluations that a reference of a leaf leads to. -/
def evaluationsReadBy (catalog : Catalog num) (reference : String) : List (Evaluation num) :=
  match catalog.resolve? reference with
  | some (.evaluation evaluation) => [evaluation]
  | some (.interpretation target) => catalog.evaluationsRead target
  | none => []

section Leaves

variable {catalog : Catalog num} {target : Interpretation num}

/-- What stands in front of the keys does not matter to the evaluations. -/
private theorem evaluations_fullTreesWithin (depth : Nat) (front other : String) :
    (Tree.preorderAll (catalog.fullTreesWithin depth front target)).filterMap
        catalog.evaluationOf? =
      (Tree.preorderAll (catalog.fullTreesWithin depth other target)).filterMap
        catalog.evaluationOf? := by
  induction depth generalizing front other target with
  | zero => rfl
  | succ depth inductionHypothesis =>
      simp only [preorderAll_fullTreesWithin, List.filterMap_flatMap]
      refine List.flatMap_congr fun label _ => ?_
      have below : (Tree.preorderAll (catalog.treesBelow (catalog.fullTreesWithin depth) front
            label)).filterMap catalog.evaluationOf? =
          (Tree.preorderAll (catalog.treesBelow (catalog.fullTreesWithin depth) other
            label)).filterMap catalog.evaluationOf? := by
        unfold treesBelow
        cases catalog.subRule? label with
        | none => rfl
        | some next => exact inductionHypothesis _ _
      rw [List.filterMap_cons, List.filterMap_cons, below]
      rfl

/-- Leaf by leaf, the evaluations of an interpretation are those that its references lead to. -/
theorem evaluationsRead_eq (acyclic : catalog.Acyclic) (known : target ∈ catalog.interpretations) :
    catalog.evaluationsRead target =
      (leafRefs target.roots).flatMap catalog.evaluationsReadBy := by
  unfold evaluationsRead fullTrees leafRefs
  rw [fullTreesUnder_eq acyclic known, preorderAll_map_fullTree, List.filterMap_flatMap,
    List.filterMap_eq_flatMap_toList, List.flatMap_assoc]
  refine List.flatMap_congr fun label _ => ?_
  have own : catalog.evaluationOf? (label.under "") = catalog.evaluationOf? label := rfl
  rw [List.filterMap_cons, own]
  cases leaf : label.refId? with
  | none => simp [treesBelow, subRule?, evaluationOf?, leaf]
  | some reference =>
      unfold treesBelow subRule? evaluationOf? evaluationsReadBy
      rw [leaf, Option.bind_some, Option.toList_some, List.flatMap_singleton]
      cases catalog.resolve? reference with
      | none => rfl
      | some stands =>
          cases stands with
          | evaluation evaluation => rfl
          | interpretation next => exact evaluations_fullTreesWithin _ _ _

end Leaves

/-! ## Meeting properties -/

/-- Meets properties one after the other. Each comes in front unless one of its name was met. -/
def meetAll (met properties : List (Property num)) : List (Property num) :=
  properties.foldl
    (fun met property =>
      if met.any (·.name == property.name) then met else property :: met)
    met

section Meeting

variable {met properties : List (Property num)} {property : Property num}

theorem Gathered.meet_properties (gathered : Gathered num) (property : Property num) :
    (gathered.meet property).properties = meetAll gathered.properties [property] := by
  unfold Gathered.meet meetAll
  rw [List.foldl_cons, List.foldl_nil]
  split <;> rfl

theorem Gathered.meet_entered (gathered : Gathered num) (property : Property num) :
    (gathered.meet property).entered = gathered.entered := by
  unfold Gathered.meet
  split <;> rfl

theorem meetAll_append (met early late : List (Property num)) :
    meetAll met (early ++ late) = meetAll (meetAll met early) late :=
  List.foldl_append

theorem meetAll_cons (met : List (Property num)) (property : Property num)
    (properties : List (Property num)) :
    meetAll met (property :: properties) = meetAll (meetAll met [property]) properties :=
  rfl

theorem meetAll_singleton_of_met (isMet : ∃ other ∈ met, other.name = property.name) :
    meetAll met [property] = met := by
  have anyMet : (met.any (·.name == property.name)) = true := by
    simpa using isMet
  simp only [meetAll, List.foldl_cons, List.foldl_nil, anyMet, if_true]

theorem meetAll_singleton_of_new (isNew : ∀ other ∈ met, other.name ≠ property.name) :
    meetAll met [property] = property :: met := by
  have noneMet : (met.any (·.name == property.name)) = false := by
    simpa using isNew
  simp only [meetAll, List.foldl_cons, List.foldl_nil, noneMet, Bool.false_eq_true, if_false]

/-- Meeting a property again changes nothing, and meeting a new one puts it in front. -/
theorem meetAll_singleton_cases (met : List (Property num)) (property : Property num) :
    (meetAll met [property] = met ∧ ∃ other ∈ met, other.name = property.name) ∨
      (meetAll met [property] = property :: met ∧ ∀ other ∈ met, other.name ≠ property.name) := by
  by_cases isMet : ∃ other ∈ met, other.name = property.name
  · exact Or.inl ⟨meetAll_singleton_of_met isMet, isMet⟩
  · have isNew : ∀ other ∈ met, other.name ≠ property.name := by
      simpa using isMet
    exact Or.inr ⟨meetAll_singleton_of_new isNew, isNew⟩

theorem subset_meetAll (met properties : List (Property num)) :
    met ⊆ meetAll met properties := by
  induction properties generalizing met with
  | nil => exact List.Subset.refl met
  | cons property properties inductionHypothesis =>
      rw [meetAll_cons]
      have rest := inductionHypothesis (meetAll met [property])
      rcases meetAll_singleton_cases met property with ⟨same, _⟩ | ⟨added, _⟩
      · rwa [same] at rest ⊢
      · rw [added] at rest ⊢
        exact fun other member => rest (List.mem_cons_of_mem property member)

theorem mem_or_mem_of_mem_meetAll (member : property ∈ meetAll met properties) :
    property ∈ met ∨ property ∈ properties := by
  induction properties generalizing met with
  | nil => exact Or.inl member
  | cons first properties inductionHypothesis =>
      rw [meetAll_cons] at member
      rcases inductionHypothesis member with early | late
      · rcases meetAll_singleton_cases met first with ⟨same, _⟩ | ⟨added, _⟩
        · exact Or.inl (same ▸ early)
        · rw [added] at early
          rcases List.mem_cons.mp early with rfl | before
          · exact Or.inr List.mem_cons_self
          · exact Or.inl before
      · exact Or.inr (List.mem_cons_of_mem first late)

/-- After meeting properties each of them has been met. -/
theorem exists_mem_meetAll (met : List (Property num)) (member : property ∈ properties) :
    ∃ other ∈ meetAll met properties, other.name = property.name := by
  obtain ⟨early, late, rfl⟩ := List.append_of_mem member
  have isMet : ∃ other ∈ meetAll (meetAll met early) [property], other.name = property.name := by
    rcases meetAll_singleton_cases (meetAll met early) property with ⟨same, isMet⟩ | ⟨added, _⟩
    · rwa [same]
    · exact ⟨property, added ▸ List.mem_cons_self, rfl⟩
  obtain ⟨other, otherMember, sameName⟩ := isMet
  rw [meetAll_append, meetAll_cons]
  exact ⟨other, subset_meetAll _ late otherMember, sameName⟩

theorem meetAll_of_met
    (allMet : ∀ property ∈ properties, ∃ other ∈ met, other.name = property.name) :
    meetAll met properties = met := by
  induction properties with
  | nil => rfl
  | cons property properties inductionHypothesis =>
      rw [meetAll_cons, meetAll_singleton_of_met (allMet property List.mem_cons_self)]
      exact inductionHypothesis fun other member =>
        allMet other (List.mem_cons_of_mem property member)

theorem meetAll_names_nodup (distinct : (met.map (·.name)).Nodup)
    (properties : List (Property num)) :
    ((meetAll met properties).map (·.name)).Nodup := by
  induction properties generalizing met with
  | nil => exact distinct
  | cons property properties inductionHypothesis =>
      rw [meetAll_cons]
      apply inductionHypothesis
      rcases meetAll_singleton_cases met property with ⟨same, _⟩ | ⟨added, isNew⟩
      · rwa [same]
      · rw [added, List.map_cons, List.nodup_cons]
        refine ⟨?_, distinct⟩
        simpa using isNew

end Meeting

/-! ## Gathering -/

/-- The properties that evaluations read. -/
def propertiesOf (catalog : Catalog num) (evaluations : List (Evaluation num)) :
    List (Property num) :=
  evaluations.filterMap fun evaluation => catalog.property? evaluation.propertyName

/-- The properties that an interpretation reads, as often as it reads them. -/
def propertiesRead (catalog : Catalog num) (target : Interpretation num) : List (Property num) :=
  catalog.propertiesOf (catalog.evaluationsRead target)

section Gathering

variable {catalog : Catalog num} {met properties : List (Property num)}

/-- All properties that an interpretation reads have been met. -/
def Covered (catalog : Catalog num) (met : List (Property num))
    (interpretation : Interpretation num) : Prop :=
  ∀ property ∈ catalog.propertiesRead interpretation, ∃ other ∈ met, other.name = property.name

theorem Covered.meetAll {interpretation : Interpretation num}
    (covered : catalog.Covered met interpretation) (properties : List (Property num)) :
    catalog.Covered (meetAll met properties) interpretation := by
  intro property read
  obtain ⟨other, member, sameName⟩ := covered property read
  exact ⟨other, subset_meetAll met properties member, sameName⟩

/-- A part of the gathering meets properties. It enters only interpretations that are covered in
the end. -/
structure Gathers (catalog : Catalog num) (before : Gathered num) (properties : List (Property num))
    (after : Gathered num) : Prop where
  properties : after.properties = meetAll before.properties properties
  entered : ∀ interpretation ∈ catalog.interpretations, interpretation.name ∈ after.entered →
    interpretation.name ∈ before.entered ∨ catalog.Covered after.properties interpretation

theorem Gathers.refl (gathered : Gathered num) :
    catalog.Gathers gathered [] gathered where
  properties := rfl
  entered _ _ := Or.inl

theorem Gathers.meet (gathered : Gathered num) (property : Property num) :
    catalog.Gathers gathered [property] (gathered.meet property) where
  properties := gathered.meet_properties property
  entered interpretation _ member := by
    rw [Gathered.meet_entered] at member
    exact Or.inl member

theorem Gathers.trans {before middle after : Gathered num} {early late : List (Property num)}
    (first : catalog.Gathers before early middle) (second : catalog.Gathers middle late after) :
    catalog.Gathers before (early ++ late) after where
  properties := by
    rw [second.properties, first.properties, meetAll_append]
  entered interpretation known member := by
    rcases second.entered interpretation known member with inMiddle | covered
    · rcases first.entered interpretation known inMiddle with inBefore | covered
      · exact Or.inl inBefore
      · rw [second.properties]
        exact Or.inr (covered.meetAll late)
    · exact Or.inr covered

/-- What has been entered is covered unless it still waits. -/
def CoveredUnless (catalog : Catalog num) (gathered : Gathered num)
    (waits : Interpretation num → Prop) : Prop :=
  ∀ interpretation ∈ catalog.interpretations, interpretation.name ∈ gathered.entered →
    catalog.Covered gathered.properties interpretation ∨ waits interpretation

theorem Gathers.coveredUnless {before after : Gathered num} {waits : Interpretation num → Prop}
    (gathers : catalog.Gathers before properties after)
    (covered : catalog.CoveredUnless before waits) :
    catalog.CoveredUnless after waits := by
  intro interpretation known member
  rcases gathers.entered interpretation known member with inBefore | covered
  · rcases covered interpretation known inBefore with already | waiting
    · rw [gathers.properties]
      exact Or.inl (already.meetAll properties)
    · exact Or.inr waiting
  · exact Or.inl covered

/-- Gathering through references one after the other gathers what each of them leads to. -/
private theorem foldl_gathers {waits : Interpretation num → Prop}
    {step : Gathered num → String → Gathered num} {references : List String}
    (each : ∀ reference ∈ references, ∀ gathered, catalog.CoveredUnless gathered waits →
      catalog.Gathers gathered (catalog.propertiesOf (catalog.evaluationsReadBy reference))
        (step gathered reference))
    (gathered : Gathered num) (covered : catalog.CoveredUnless gathered waits) :
    catalog.Gathers gathered
      (catalog.propertiesOf (references.flatMap catalog.evaluationsReadBy))
      (references.foldl step gathered) := by
  induction references generalizing gathered with
  | nil => exact Gathers.refl gathered
  | cons reference references inductionHypothesis =>
      have first := each reference List.mem_cons_self gathered covered
      have rest := inductionHypothesis
        (fun other member => each other (List.mem_cons_of_mem reference member))
        (step gathered reference) (first.coveredUnless covered)
      rw [List.flatMap_cons, propertiesOf, List.filterMap_append, List.foldl_cons]
      exact first.trans rest

/-- An interpretation is gathered with all that its full trees read, if what was entered before is
covered or refers to it. -/
theorem gatherWithin_gathers (acyclic : catalog.Acyclic)
    (names : catalog.interpretationNames.Nodup) {limit : Nat} {target : Interpretation num}
    (known : target ∈ catalog.interpretations)
    (enough : ∀ chain, catalog.IsReferenceChain (target :: chain) → chain.length < limit)
    (gathered : Gathered num)
    (covered : catalog.CoveredUnless gathered fun interpretation =>
      Relation.TransGen catalog.RefersTo interpretation target) :
    catalog.Gathers gathered (catalog.propertiesRead target)
      (catalog.gatherWithin limit gathered target) := by
  induction limit generalizing target gathered with
  | zero => exact absurd (enough [] (List.isChain_singleton target)) (Nat.not_lt_zero _)
  | succ limit inductionHypothesis =>
      rw [gatherWithin]
      split
      · next enteredBefore =>
          have enteredBefore : target.name ∈ gathered.entered := by
            simpa using enteredBefore
          have already := (covered target known enteredBefore).resolve_right
            (acyclic.not_transGen_refersTo target)
          exact ⟨(meetAll_of_met already).symm, fun _ _ => Or.inl⟩
      · -- while the references of the interpretation are followed, it waits too
        have entered : catalog.CoveredUnless (gathered.enter target.name) fun interpretation =>
            interpretation = target ∨
              Relation.TransGen catalog.RefersTo interpretation target := by
          intro interpretation isKnown member
          rcases List.mem_cons.mp member with sameName | before
          · exact Or.inr (Or.inl (eq_of_name_eq names isKnown known sameName))
          · exact (covered interpretation isKnown before).imp_right Or.inr
        suffices gathers : catalog.Gathers (gathered.enter target.name)
            (catalog.propertiesRead target) _ by
          refine ⟨gathers.properties, fun interpretation isKnown member => ?_⟩
          rcases gathers.entered interpretation isKnown member with inBefore | already
          · rcases List.mem_cons.mp inBefore with sameName | before
            · obtain rfl := eq_of_name_eq names isKnown known sameName
              refine Or.inr fun property read => ?_
              rw [gathers.properties]
              exact exists_mem_meetAll _ read
            · exact Or.inl before
          · exact Or.inr already
        rw [propertiesRead, evaluationsRead_eq acyclic known]
        refine foldl_gathers (fun reference leaf current currentCovered => ?_) _ entered
        unfold evaluationsReadBy
        cases resolved : catalog.resolve? reference with
        | none => exact Gathers.refl current
        | some stands =>
            cases stands with
            | evaluation evaluation =>
                cases found : catalog.property? evaluation.propertyName with
                | none => simpa [propertiesOf, found] using Gathers.refl current
                | some property => simpa [propertiesOf, found] using Gathers.meet current property
            | interpretation next =>
                have refers : catalog.RefersTo target next :=
                  refersTo_iff.mpr ⟨reference, leaf, resolved⟩
                refine inductionHypothesis refers.mem (fun chain isChain => ?_) current ?_
                · have longer := enough (next :: chain) (isChain.cons_cons refers)
                  exact Nat.lt_of_succ_lt_succ longer
                · intro interpretation isKnown member
                  refine (currentCovered interpretation isKnown member).imp_right ?_
                  rintro (rfl | way)
                  · exact .single refers
                  · exact way.tail refers

/-- Nothing but what is read first counts of what is read several times. -/
theorem requiredProperties_eq (acyclic : catalog.Acyclic)
    (names : catalog.interpretationNames.Nodup) {target : Interpretation num}
    (known : target ∈ catalog.interpretations) :
    catalog.requiredProperties target = (meetAll [] (catalog.propertiesRead target)).reverse := by
  have enough : ∀ chain, catalog.IsReferenceChain (target :: chain) →
      chain.length < catalog.interpretations.length + 1 :=
    fun chain isChain => Nat.lt_succ_of_lt (length_lt_of_isReferenceChain acyclic known isChain)
  have nothingEntered : catalog.CoveredUnless .empty fun interpretation =>
      Relation.TransGen catalog.RefersTo interpretation target := by
    intro interpretation _ member
    cases member
  have gathers := gatherWithin_gathers acyclic names known enough .empty nothingEntered
  rw [requiredProperties, gathers.properties]
  rfl

end Gathering

/-! ## Built catalogs -/

section Built

/-- What is read does not depend on the properties that were entered. -/
theorem evaluationsRead_withRequired {catalog : Catalog num} (acyclic : catalog.Acyclic)
    {target : Interpretation num} (known : target ∈ catalog.interpretations) :
    catalog.withRequired.evaluationsRead (catalog.completed target) =
      catalog.evaluationsRead target := by
  induction target using acyclic.induction with
  | _ target inductionHypothesis =>
      have completedKnown : catalog.completed target ∈ catalog.withRequired.interpretations := by
        rw [interpretations_withRequired]
        exact List.mem_map_of_mem known
      rw [evaluationsRead_eq acyclic known,
        evaluationsRead_eq (acyclic_withRequired acyclic) completedKnown]
      refine List.flatMap_congr fun reference leaf => ?_
      unfold evaluationsReadBy
      rw [resolve?_withRequired]
      cases resolved : catalog.resolve? reference with
      | none => rfl
      | some stands =>
          cases stands with
          | evaluation evaluation => rfl
          | interpretation next =>
              have refers : catalog.RefersTo target next :=
                refersTo_iff.mpr ⟨reference, leaf, resolved⟩
              exact inductionHypothesis next refers refers.mem

variable [Arith num] {data : CatalogData num} {catalog : Catalog num} {target : Interpretation num}

/-- An interpretation of a built catalog requires what it reads, each property where it is read
first. -/
theorem required_eq_of_build (built : build data = .ok catalog)
    (known : target ∈ catalog.interpretations) :
    target.required = (meetAll [] (catalog.propertiesRead target)).reverse := by
  obtain ⟨assembled, assembledEq, noCircle, rfl⟩ := build_eq_ok_iff.mp built
  have names := (assemble_entered assembledEq).names
  have acyclic := acyclic_of_findCircle?_eq_none names noCircle
  rw [interpretations_withRequired] at known
  obtain ⟨old, oldKnown, rfl⟩ := List.mem_map.mp known
  have sameRead : assembled.withRequired.propertiesRead (assembled.completed old) =
      assembled.propertiesRead old := by
    unfold propertiesRead
    rw [evaluationsRead_withRequired acyclic oldKnown]
    rfl
  rw [sameRead]
  exact requiredProperties_eq acyclic names oldKnown

theorem required_names_nodup (built : build data = .ok catalog)
    (known : target ∈ catalog.interpretations) :
    (target.required.map (·.name)).Nodup := by
  have nothingMet : (([] : List (Property num)).map (·.name)).Nodup := List.nodup_nil
  rw [required_eq_of_build built known, List.map_reverse, List.nodup_reverse]
  exact meetAll_names_nodup nothingMet _

/-- A property is required if an evaluation at a leaf of the full trees reads it. -/
theorem mem_required_iff (built : build data = .ok catalog)
    (known : target ∈ catalog.interpretations) {property : Property num} :
    property ∈ target.required ↔
      ∃ evaluation ∈ catalog.evaluationsRead target,
        catalog.property? evaluation.propertyName = some property := by
  have distinct := (build_checked built).propertyNames
  have inCatalog : ∀ other ∈ catalog.propertiesRead target, other ∈ catalog.properties := by
    intro other read
    obtain ⟨_, _, found⟩ := List.mem_filterMap.mp read
    exact (mem_of_found found).1
  have fromMet : ∀ other ∈ meetAll [] (catalog.propertiesRead target),
      other ∈ catalog.propertiesRead target :=
    fun other met => (mem_or_mem_of_mem_meetAll met).resolve_left List.not_mem_nil
  rw [required_eq_of_build built known, List.mem_reverse]
  refine Iff.trans ⟨fromMet property, fun read => ?_⟩ List.mem_filterMap
  -- what was met may be another property of the same name, but names of properties differ
  obtain ⟨other, met, sameName⟩ := exists_mem_meetAll [] read
  have otherKnown := inCatalog other (fromMet other met)
  rwa [← List.inj_on_of_nodup_map distinct otherKnown (inCatalog property read) sameName]

theorem exists_required_of_mem_evaluationsRead (built : build data = .ok catalog)
    (known : target ∈ catalog.interpretations) {evaluation : Evaluation num}
    (read : evaluation ∈ catalog.evaluationsRead target) :
    ∃ property ∈ target.required,
      catalog.property? evaluation.propertyName = some property := by
  obtain ⟨label, _, stands⟩ := List.mem_filterMap.mp read
  obtain ⟨reference, _, resolved⟩ := evaluationOf?_eq_some_iff.mp stands
  have evaluationKnown := mem_of_resolve?_evaluation resolved
  obtain ⟨property, found⟩ := (build_checked built).known evaluation evaluationKnown
  exact ⟨property, (mem_required_iff built known).mpr ⟨evaluation, read, found⟩, found⟩

end Built

end FuzzyRating.Catalog
