import FuzzyRating.Proofs.Assessment.Leaves

/-!
An interpretation of a built catalog requires the properties that the leaves of its full trees read,
in the order in which an assessment reads them first.
-/

namespace FuzzyRating.Catalog

variable {num : Type}

/-! ## First meetings -/

section FirstMeetings

variable [DecidableEq num]

/-- The loop by which a list is freed of repetitions meets properties as `meetAll` does, if no two of
them share a name. -/
private theorem eraseDups_loop_eq {met properties : List (Property num)}
    (sameName : ∀ first ∈ met ++ properties, ∀ second ∈ met ++ properties,
      first.name = second.name → first = second) :
    List.eraseDupsBy.loop (· == ·) properties met = (meetAll met properties).reverse := by
  induction properties generalizing met with
  | nil => rfl
  | cons property properties inductionHypothesis =>
      have own : property ∈ met ++ property :: properties := by simp
      have among {others : List (Property num)} (subset : others ⊆ met ++ property :: properties) :
          ∀ first ∈ others, ∀ second ∈ others, first.name = second.name → first = second :=
        fun first firstMember second secondMember =>
          sameName first (subset firstMember) second (subset secondMember)
      rw [List.eraseDupsBy.loop, meetAll_cons]
      rcases meetAll_singleton_cases met property with ⟨same, isMet⟩ | ⟨added, isNew⟩
      · obtain ⟨other, otherMember, otherName⟩ := isMet
        have known : property ∈ met := by
          rw [← sameName other (List.mem_append_left _ otherMember) property own otherName]
          exact otherMember
        have found : met.any (fun other => property == other) = true := by simpa using known
        rw [found, same]
        exact inductionHypothesis (among (by simp))
      · have missing : met.any (fun other => property == other) = false := by
          simp only [List.any_eq_false, beq_iff_eq]
          rintro other otherMember rfl
          exact isNew property otherMember rfl
        rw [missing, added]
        exact inductionHypothesis (among (by simp))

/-- Of properties that their names tell apart, those met are the first of each. -/
theorem reverse_meetAll_nil {properties : List (Property num)}
    (sameName : ∀ first ∈ properties, ∀ second ∈ properties,
      first.name = second.name → first = second) :
    (meetAll [] properties).reverse = properties.eraseDups := by
  rw [List.eraseDups, List.eraseDupsBy, eraseDups_loop_eq (by simpa using sameName)]

end FirstMeetings

/-! ## Built catalogs -/

section Built

variable [Arith num] {data : CatalogData num} {catalog : Catalog num} {target : Interpretation num}

/-- Every evaluation that is read has its property in a built catalog. -/
theorem map_property?_evaluationsRead (built : build data = .ok catalog)
    (known : target ∈ catalog.interpretations) :
    ((catalog.evaluationsRead target).map fun evaluation =>
        catalog.property? evaluation.propertyName) =
      (catalog.propertiesRead target).map some := by
  have each : ∀ evaluation ∈ catalog.evaluationsRead target,
      (catalog.property? evaluation.propertyName).isSome = true := by
    intro evaluation read
    obtain ⟨property, _, found⟩ := exists_required_of_mem_evaluationsRead built known read
    rw [found]
    rfl
  unfold propertiesRead propertiesOf
  generalize catalog.evaluationsRead target = evaluations at each
  induction evaluations with
  | nil => rfl
  | cons evaluation evaluations inductionHypothesis =>
      obtain ⟨property, found⟩ := Option.isSome_iff_exists.mp (each evaluation List.mem_cons_self)
      have rest := inductionHypothesis fun other member =>
        each other (List.mem_cons_of_mem evaluation member)
      rw [List.map_cons, List.filterMap_cons, found, rest]
      rfl

/-- The values that a successful assessment records are read at the leaves from left to right. -/
theorem values_eq_of_assess (checked : catalog.Checked) (known : target ∈ catalog.interpretations)
    {subject : PropertyData num} {options : AssessmentOptions} {rating : Option num}
    {after : Context num}
    (assessed : assess catalog target.name target.roots (.start subject options) =
      (.ok rating, after)) :
    after.values.reverse = (catalog.evaluationsRead target).map fun evaluation =>
      (evaluation.propertyName, subject.valueOf catalog evaluation.propertyName) := by
  obtain ⟨_, rfl, _⟩ := assess_ok checked known assessed
  have valuesEq : ((Context.start subject options).write
      (fullEntries catalog subject options (catalog.fullTrees target))).values =
        ((fullEntries catalog subject options (catalog.fullTrees target)).filterMap
          Entry.value?).reverse :=
    List.append_nil _
  rw [valuesEq, List.reverse_reverse, value?_fullEntries, evaluationsRead,
    Tree.filterMap_postorderAll fun inner within => (children_ne_nil_iff checked known within).mp]

/-- The required properties of an interpretation are those that its leaves read, each where it is
read first. An assessment reads the leaves in this order too. -/
theorem required_eq_eraseDups [DecidableEq num] (built : build data = .ok catalog)
    (known : target ∈ catalog.interpretations) :
    ∃ (evaluations : List (Evaluation num)) (read : List (Property num)),
      (Tree.leavesAll (catalog.fullTrees target)).map catalog.evaluationOf? =
        evaluations.map some ∧
      (evaluations.map fun evaluation => catalog.property? evaluation.propertyName) =
        read.map some ∧
      target.required = read.eraseDups ∧
      (target.required.map (·.name)).Nodup ∧
      ∀ subject options rating after,
        assess catalog target.name target.roots (.start subject options) = (.ok rating, after) →
        after.values.reverse = evaluations.map fun evaluation =>
          (evaluation.propertyName, subject.valueOf catalog evaluation.propertyName) := by
  have checked := build_checked built
  have sameName : ∀ first ∈ catalog.propertiesRead target,
      ∀ second ∈ catalog.propertiesRead target, first.name = second.name → first = second := by
    intro first firstRead second secondRead
    obtain ⟨_, _, firstFound⟩ := List.mem_filterMap.mp firstRead
    obtain ⟨_, _, secondFound⟩ := List.mem_filterMap.mp secondRead
    exact List.inj_on_of_nodup_map checked.propertyNames (mem_of_found firstFound).1
      (mem_of_found secondFound).1
  refine ⟨catalog.evaluationsRead target, catalog.propertiesRead target,
    map_evaluationOf?_leavesAll checked known, map_property?_evaluationsRead built known, ?_,
    required_names_nodup built known, fun subject options rating after assessed =>
      values_eq_of_assess checked known assessed⟩
  rw [required_eq_of_build built known, reverse_meetAll_nil sameName]

end Built

/-! ## A rule that is referred to twice -/

/-- The ground is rated by its depth and its slope, and the site by its slope and twice by the
ground. -/
def groundData : CatalogData Float where
  properties :=
    [⟨"p1", "depth", none, none, none, "", false⟩, ⟨"p2", "slope", none, none, none, "", false⟩]
  evaluations :=
    [⟨"e1", "Deep", "depth", "crisp", false, none, none, none, some "> 50"⟩,
     ⟨"e2", "Steep", "slope", "crisp", false, none, none, none, some "> 3"⟩]
  rules :=
    [⟨"r1", "Ground",
      [.node "Ground" none none none [], .node "  Depth" none none (some "Deep") [],
       .node "  Steepness" none none (some "Steep") []]⟩,
     ⟨"r2", "Site",
      [.node "Site" none none none [], .node "  Steepness" none none (some "Steep") [],
       .node "  Above" none none (some "Ground") [],
       .node "  Below" none none (some "Ground") []]⟩]

theorem required_eq_eraseDups_ground :
    ∃ (catalog : Catalog Float) (target : Interpretation Float)
      (evaluations : List (Evaluation Float)) (read : List (Property Float)),
      build groundData = .ok catalog ∧ target ∈ catalog.interpretations ∧
      evaluations.map (·.name) = ["Steep", "Deep", "Steep", "Deep", "Steep"] ∧
      (evaluations.map fun evaluation => catalog.property? evaluation.propertyName) =
        read.map some ∧
      target.required = read.eraseDups ∧
      target.required.map (·.name) = ["slope", "depth"] := by
  have run : ((build groundData).toOption.bind fun catalog =>
      (catalog.interpretation? "Site").map fun site =>
        ((Tree.leavesAll (catalog.fullTrees site)).map fun label =>
            (catalog.evaluationOf? label).map (·.name),
          site.required.map (·.name))) =
      some ([some "Steep", some "Deep", some "Steep", some "Deep", some "Steep"],
        ["slope", "depth"]) := by
    decide +kernel
  obtain ⟨catalog, target, built, known, readings⟩ := exists_of_build run
  obtain ⟨leaves, requiredNames⟩ := Prod.mk.inj readings
  obtain ⟨evaluations, read, atLeaves, properties, required, _⟩ :=
    required_eq_eraseDups built known
  refine ⟨catalog, target, evaluations, read, built, known, ?_, properties, required,
    requiredNames⟩
  have names : (evaluations.map (·.name)).map some =
      ["Steep", "Deep", "Steep", "Deep", "Steep"].map some := by
    have mapped := congrArg (List.map (Option.map (·.name))) atLeaves
    rw [List.map_map, List.map_map] at mapped
    rw [List.map_map]
    exact mapped.symm.trans leaves
  exact List.map_injective_iff.mpr (fun _ _ => Option.some.inj) names

end FuzzyRating.Catalog
