import FuzzyRating.Proofs.Assessment.Subject
import FuzzyRating.Proofs.Assessment.Trace

/-!
What an assessment takes of its subject: the values under the names and ids of the properties that
the interpretation requires, and nothing else. It records them under the names by which evaluations
call the properties.
-/

namespace FuzzyRating

variable {num : Type}

/-! ## Values under the name and the id of a property -/

/-- Two subjects have the same under the name and under the id of a property. -/
def SameInput (first second : PropertyData num) (property : Property num) : Prop :=
  first.get? property.name = second.get? property.name ∧
    first.get? property.id = second.get? property.id

/-- Whatever name an evaluation has for a property, its value is looked up under the name and the id
of the property alone. -/
theorem PropertyData.valueOf_congr {catalog : Catalog num} {first second : PropertyData num}
    {key : String} {property : Property num} (found : catalog.property? key = some property)
    (same : SameInput first second property) :
    first.valueOf catalog key = second.valueOf catalog key := by
  have sameKey : first.get? key = second.get? key := by
    rcases (Catalog.mem_of_found found).2 with rfl | rfl
    · exact same.1
    · exact same.2
  unfold PropertyData.valueOf
  simp only [found, Option.bind_some, sameKey, same.1, same.2]

/-- Two subjects that have the same under the name and the id of each required property come to the
same, with the same ratings of nodes and the same values used. -/
theorem assess_eq_of_sameInput [Arith num] {data : CatalogData num} {catalog : Catalog num}
    (built : Catalog.build data = .ok catalog) {target : Interpretation num}
    (known : target ∈ catalog.interpretations) (options : AssessmentOptions)
    {first second : PropertyData num}
    (same : ∀ property ∈ target.required, SameInput first second property) :
    let one := assess catalog target.name target.roots (.start first options)
    let other := assess catalog target.name target.roots (.start second options)
    one.1 = other.1 ∧ Journal.current one.2.ratings = Journal.current other.2.ratings ∧
      Journal.current one.2.values = Journal.current other.2.values := by
  intro one other
  have agree : AgreeOn catalog first second one.2.values := by
    intro entry member
    obtain ⟨evaluation, read, nameEq⟩ :=
      exists_evaluation_of_mem_values (Catalog.build_checked built) known member
    obtain ⟨property, required, found⟩ :=
      Catalog.exists_required_of_mem_evaluationsRead built known read
    rw [← nameEq]
    exact PropertyData.valueOf_congr found (same property required)
  have sameRun : other = one.leaving (·.withData second) :=
    (assess_readsOnlyRecorded target).same (.start first options) agree
  rw [sameRun]
  exact ⟨rfl, rfl, rfl⟩

/-- It does not matter to a site with a slope of five that an altitude is given too. -/
theorem assess_eq_of_sameInput_altitude :
    ∃ catalog target, Catalog.build Catalog.siteData = .ok catalog ∧
      target ∈ catalog.interpretations ∧
      ∃ first second : PropertyData Float,
        (∀ property ∈ target.required, SameInput first second property) ∧
        first.get? "altitude" = none ∧ second.get? "altitude" = some (.text "high") ∧
        let one := assess catalog target.name target.roots (.start first .standard)
        let other := assess catalog target.name target.roots (.start second .standard)
        one.1 = other.1 ∧ Journal.current one.2.ratings = Journal.current other.2.ratings ∧
          Journal.current one.2.values = Journal.current other.2.values := by
  have run : ((Catalog.build Catalog.siteData).toOption.bind fun catalog =>
      (catalog.interpretation? "Site").map fun site =>
        site.required.map fun property => (property.name, property.id)) =
      some [("slope", "p1")] := by
    decide +kernel
  simp only [Option.bind_eq_some_iff, Option.map_eq_some_iff] at run
  obtain ⟨catalog, builtSome, target, found, requiredEq⟩ := run
  have built := eq_ok_of_toOption builtSome
  have known : target ∈ catalog.interpretations := List.mem_of_find?_eq_some found
  have same : ∀ property ∈ target.required,
      SameInput (.ofList [("slope", .number 5)])
        (.ofList [("altitude", .text "high"), ("slope", .number 5)]) property := by
    intro property required
    have keys : (property.name, property.id) ∈ [("slope", "p1")] := by
      rw [← requiredEq]
      exact List.mem_map_of_mem required
    obtain ⟨nameEq, idEq⟩ := Prod.mk.inj (List.mem_singleton.mp keys)
    rw [SameInput, nameEq, idEq]
    exact ⟨rfl, rfl⟩
  exact ⟨catalog, target, built, known, _, _, same, rfl, rfl,
    assess_eq_of_sameInput built known .standard same⟩

/-! ## One value for each property -/

/-- An assessment takes the same value for a property wherever it is read, and records that value
under the name of the property. -/
structure OneValueEach [Arith num] (catalog : Catalog num) (target : Interpretation num)
    (subject : PropertyData num) (options : AssessmentOptions) (after : Context num)
    (value : Property num → PropertyValue num) : Prop where
  /-- At each leaf the value of the property that is read is found and rated. -/
  leaves : ∀ leaf ∈ Tree.subtreesAll (catalog.fullTrees target), ∀ evaluation,
    catalog.evaluationOf? leaf.label = some evaluation →
      ∃ property ∈ target.required, ∃ leafRating,
        catalog.property? evaluation.propertyName = some property ∧
        subject.valueOf catalog evaluation.propertyName = value property ∧
        evaluation.membership options.clampSpline (value property) = .ok leafRating ∧
        (leaf.label.key, leafRating) ∈ Journal.current after.ratings
  recorded : (Journal.current after.values).Perm
    (target.required.map fun property => (property.name, value property))

/-- A successful assessment takes one value for each required property, and records it under the
name of the property, exactly if all evaluations that it uses call their properties by name. -/
theorem exists_oneValueEach_iff [Arith num] {data : CatalogData num} {catalog : Catalog num}
    (built : Catalog.build data = .ok catalog) {target : Interpretation num}
    (known : target ∈ catalog.interpretations) {subject : PropertyData num}
    {options : AssessmentOptions} {rating : Option num} {after : Context num}
    (assessed : assess catalog target.name target.roots (.start subject options) =
      (.ok rating, after)) :
    (∃ value, OneValueEach catalog target subject options after value) ↔
      ∀ evaluation ∈ catalog.evaluationsRead target, ∀ property,
        catalog.property? evaluation.propertyName = some property →
          property.name = evaluation.propertyName := by
  have checked := Catalog.build_checked built
  constructor
  · -- the name that the evaluation has is recorded, so it is the name of a required property
    rintro ⟨value, oneEach⟩ evaluation read property found
    have used : (evaluation.propertyName, subject.valueOf catalog evaluation.propertyName) ∈
        Journal.current after.values :=
      (mem_values_iff checked known assessed).mpr ⟨evaluation, read, rfl⟩
    obtain ⟨other, required, entryEq⟩ := List.mem_map.mp (oneEach.recorded.mem_iff.mp used)
    obtain ⟨_, _, otherFound⟩ := (Catalog.mem_required_iff built known).mp required
    have named : other.name = evaluation.propertyName := congrArg Prod.fst entryEq
    exact Catalog.name_eq_of_found found (Catalog.mem_of_found otherFound).1 named
  · intro byName
    refine ⟨fun property => subject.valueOf catalog property.name, ?_, ?_⟩
    · intro leaf member evaluation stands
      have read := Catalog.mem_evaluationsRead_iff.mpr ⟨leaf, member, stands⟩
      obtain ⟨property, required, found⟩ :=
        Catalog.exists_required_of_mem_evaluationsRead built known read
      obtain ⟨leafRating, rated, recorded⟩ :=
        exists_rating_of_leaf checked known assessed member stands
      have named := byName evaluation read property found
      rw [← named] at found rated ⊢
      exact ⟨property, required, leafRating, found, rfl, rated, recorded⟩
    · have valuesNodup : (Journal.current after.values).Nodup :=
        (Journal.current_keys_nodup after.values).of_map
      have requiredNodup : (target.required.map fun property =>
          (property.name, subject.valueOf catalog property.name)).Nodup := by
        apply List.Nodup.of_map Prod.fst
        rw [List.map_map]
        exact Catalog.required_names_nodup built known
      apply (List.perm_ext_iff_of_nodup valuesNodup requiredNodup).mpr
      intro entry
      rw [mem_values_iff checked known assessed, List.mem_map]
      constructor
      · rintro ⟨evaluation, read, rfl⟩
        obtain ⟨property, required, found⟩ :=
          Catalog.exists_required_of_mem_evaluationsRead built known read
        exact ⟨property, required, by rw [byName evaluation read property found]⟩
      · rintro ⟨property, required, rfl⟩
        obtain ⟨evaluation, read, found⟩ := (Catalog.mem_required_iff built known).mp required
        exact ⟨evaluation, read, by rw [byName evaluation read property found]⟩

/-- The site calls its only property by name. -/
theorem exists_oneValueEach_site :
    ∃ catalog target rating after, Catalog.build Catalog.siteData = .ok catalog ∧
      target ∈ catalog.interpretations ∧
      assess catalog target.name target.roots
        (.start (.ofList [("slope", .number 5)]) .standard) = (.ok rating, after) ∧
      ∃ value, OneValueEach catalog target (.ofList [("slope", .number 5)]) .standard after
        value := by
  have run : ((Catalog.build Catalog.siteData).toOption.bind fun catalog =>
      (catalog.interpretation? "Site").map fun site =>
        ((assess catalog site.name site.roots
            (.start (.ofList [("slope", .number 5)]) .standard)).1.toOption,
          (catalog.evaluationsRead site).map fun evaluation =>
            ((catalog.property? evaluation.propertyName).map (·.name),
              evaluation.propertyName))) =
      some (some (some 1), [(some "slope", "slope")]) := by
    decide +kernel
  simp only [Option.bind_eq_some_iff, Option.map_eq_some_iff, Prod.mk.injEq] at run
  obtain ⟨catalog, builtSome, target, found, ratedSome, readEq⟩ := run
  have built := eq_ok_of_toOption builtSome
  have known : target ∈ catalog.interpretations := List.mem_of_find?_eq_some found
  have assessed : assess catalog target.name target.roots
      (.start (.ofList [("slope", .number 5)]) .standard) = (.ok (some 1), _) :=
    Prod.ext (eq_ok_of_toOption ratedSome) rfl
  refine ⟨catalog, target, some 1, _, built, known, assessed,
    (exists_oneValueEach_iff built known assessed).mpr ?_⟩
  intro evaluation read property propertyFound
  have named : ((catalog.property? evaluation.propertyName).map (·.name),
      evaluation.propertyName) ∈ [(some "slope", "slope")] := by
    rw [← readEq]
    exact List.mem_map_of_mem read
  obtain ⟨propertyName, calledName⟩ := Prod.mk.inj (List.mem_singleton.mp named)
  rw [propertyFound, Option.map_some, Option.some.injEq] at propertyName
  rw [propertyName, calledName]

/-- A site is rated by its slope twice: one evaluation calls it by its name and one by its id. -/
def twoNamesData : CatalogData Float where
  properties := [⟨"p1", "slope", none, none, none, "", false⟩]
  evaluations :=
    [⟨"e1", "Steep", "slope", "crisp", false, none, none, none, some "> 3"⟩,
     ⟨"e2", "Gentle", "p1", "crisp", false, none, none, none, some "< 30"⟩]
  rules :=
    [⟨"r1", "Site",
      [.node "Site" none none none [], .node "  Steepness" none none (some "Steep") [],
       .node "  Gentleness" none none (some "Gentle") []]⟩]

/-- The slope is recorded a second time, under its id. -/
theorem not_oneValueEach_twoNames :
    ∃ catalog target rating after, Catalog.build twoNamesData = .ok catalog ∧
      target ∈ catalog.interpretations ∧
      assess catalog target.name target.roots
        (.start (.ofList [("slope", .number 5)]) .standard) = (.ok rating, after) ∧
      ¬ ∃ value, OneValueEach catalog target (.ofList [("slope", .number 5)]) .standard after
        value := by
  have run : ((Catalog.build twoNamesData).toOption.bind fun catalog =>
      (catalog.interpretation? "Site").map fun site =>
        let outcome := assess catalog site.name site.roots
          (.start (.ofList [("slope", .number 5)]) .standard)
        (outcome.1.toOption, (outcome.2.values.lookup "p1").isSome,
          site.required.map (·.name))) =
      some (some (some 1), true, ["slope"]) := by
    decide +kernel
  simp only [Option.bind_eq_some_iff, Option.map_eq_some_iff, Prod.mk.injEq] at run
  obtain ⟨catalog, builtSome, target, found, ratedSome, recordedSome, requiredEq⟩ := run
  have known : target ∈ catalog.interpretations := List.mem_of_find?_eq_some found
  obtain ⟨slope, recorded⟩ := Option.isSome_iff_exists.mp recordedSome
  refine ⟨catalog, target, some 1, _, eq_ok_of_toOption builtSome, known,
    Prod.ext (eq_ok_of_toOption ratedSome) rfl, ?_⟩
  rintro ⟨value, oneEach⟩
  have underId := oneEach.recorded.mem_iff.mp (Journal.mem_current_iff.mpr recorded)
  obtain ⟨property, required, entryEq⟩ := List.mem_map.mp underId
  have isName : property.name ∈ ["slope"] := by
    rw [← requiredEq]
    exact List.mem_map_of_mem required
  have isId : property.name = "p1" := congrArg Prod.fst entryEq
  rw [isId] at isName
  simp at isName

end FuzzyRating
