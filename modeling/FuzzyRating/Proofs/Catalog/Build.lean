import FuzzyRating.Catalog.Build
import FuzzyRating.Proofs.Catalog.Cycle

/-!
What holds of every catalog that is built: the names of its properties differ, those of its
evaluations differ, these were compiled and read properties of the catalog, the names of its
interpretations differ, their trees come from rules, and their references lead somewhere and not in
a circle.
-/

namespace FuzzyRating.Catalog

variable {num : Type} {catalog : Catalog num}

section Adding

variable [Arith num]

/-- What holds of a catalog while entries are added to it. -/
structure Entered (catalog : Catalog num) : Prop where
  propertyNames : (catalog.properties.map (·.name)).Nodup
  evaluationNames : (catalog.evaluations.map (·.name)).Nodup
  known : ∀ evaluation ∈ catalog.evaluations,
    ∃ property, catalog.property? evaluation.propertyName = some property
  compiled : ∀ evaluation ∈ catalog.evaluations,
    ∃ definition, Evaluation.ofDefinition definition = .ok evaluation
  names : catalog.interpretationNames.Nodup
  normalized : ∀ interpretation ∈ catalog.interpretations,
    ∃ nodes, normalize nodes = .ok interpretation.roots

/-- What holds of a catalog in which moreover the references have been checked. -/
structure Checked (catalog : Catalog num) : Prop extends Entered catalog where
  references : ∀ interpretation ∈ catalog.interpretations,
    ∀ reference ∈ leafRefs interpretation.roots, ∃ target, catalog.resolve? reference = some target
  acyclic : catalog.Acyclic

/-! ## Adding entries -/

theorem empty_entered :
    Entered (empty : Catalog num) where
  propertyNames := by simp [empty]
  evaluationNames := by simp [empty]
  known := by simp [empty]
  compiled := by simp [empty]
  names := by simp [empty, interpretationNames]
  normalized := by simp [empty]

theorem addProperty_entered {property : Property num} {after : Catalog num}
    (entered : Entered catalog) (added : addProperty catalog property = .ok after) :
    Entered after := by
  unfold addProperty at added
  split at added
  · cases added
  · next newName =>
      cases added
      refine { entered with propertyNames := ?_, known := ?_ }
      · have fresh : property.name ∉ catalog.properties.map (·.name) := by
          simpa using newName
        rw [List.map_append, List.map_singleton, List.nodup_append_comm]
        exact List.nodup_cons.mpr ⟨fresh, entered.propertyNames⟩
      · intro evaluation member
        -- a property that was found by its name or id is not lost by one more
        obtain ⟨before, found⟩ := entered.known evaluation member
        obtain ⟨beforeMember, identified⟩ := mem_of_found found
        apply Option.ne_none_iff_exists'.mp
        intro notFound
        have unlike := findEntry?_eq_none_iff.mp notFound before
          (List.mem_append_left [property] beforeMember)
        exact identified.elim unlike.1 unlike.2

theorem addEvaluation_entered {definition : EvaluationDefinition num} {after : Catalog num}
    (entered : Entered catalog) (added : addEvaluation catalog definition = .ok after) :
    Entered after := by
  unfold addEvaluation at added
  cases compiled : Evaluation.ofDefinition definition with
  | error error =>
      rw [compiled] at added
      cases added
  | ok evaluation =>
      rw [compiled] at added
      dsimp only at added
      split at added
      · cases added
      · next newName =>
        split at added
        · cases added
        · next known =>
            cases added
            refine { entered with evaluationNames := ?_, known := ?_, compiled := ?_ }
            · have fresh : evaluation.name ∉ catalog.evaluations.map (·.name) := by
                simpa using newName
              rw [List.map_append, List.map_singleton, List.nodup_append_comm]
              exact List.nodup_cons.mpr ⟨fresh, entered.evaluationNames⟩
            · intro other member
              rcases List.mem_append.mp member with before | last
              · exact entered.known other before
              · rw [List.mem_singleton.mp last]
                have found : catalog.property? evaluation.propertyName ≠ none := by
                  simpa using known
                exact Option.ne_none_iff_exists'.mp found
            · intro other member
              rcases List.mem_append.mp member with before | last
              · exact entered.compiled other before
              · rw [List.mem_singleton.mp last]
                exact ⟨definition, compiled⟩

theorem addRule_entered {rule : RuleDefinition} {after : Catalog num}
    (entered : Entered catalog) (added : addRule catalog rule = .ok after) :
    Entered after := by
  unfold addRule at added
  cases normalized : (normalize rule.nodes : Except RuleError (List (RuleTree num))) with
  | error error =>
      rw [normalized] at added
      cases added
  | ok roots =>
      rw [normalized] at added
      dsimp only at added
      split at added
      · cases added
      · next newName =>
          split at added
          · cases added
          · cases added
            refine { entered with names := ?_, normalized := ?_ }
            · have fresh : rule.name ∉ catalog.interpretationNames := by
                simpa [interpretationNames] using newName
              simp only [interpretationNames, List.map_append, List.map_cons, List.map_nil]
              rw [List.nodup_append_comm]
              exact List.nodup_cons.mpr ⟨fresh, entered.names⟩
            · intro interpretation member
              rcases List.mem_append.mp member with before | last
              · exact entered.normalized interpretation before
              · rw [List.mem_singleton.mp last]
                exact ⟨rule.nodes, normalized⟩

end Adding

/-! ## Entering the properties read -/

/-- An interpretation with the properties that it reads. -/
def completed (catalog : Catalog num) (interpretation : Interpretation num) :
    Interpretation num :=
  { interpretation with required := catalog.requiredProperties interpretation }

theorem interpretations_withRequired (catalog : Catalog num) :
    catalog.withRequired.interpretations = catalog.interpretations.map (completed catalog) :=
  rfl

theorem resolve?_withRequired (catalog : Catalog num) (reference : String) :
    catalog.withRequired.resolve? reference =
      match catalog.resolve? reference with
      | some (.interpretation target) => some (.interpretation (completed catalog target))
      | found => found := by
  have sameEvaluation : catalog.withRequired.evaluation? reference =
      catalog.evaluation? reference := rfl
  have sameName : ((fun interpretation : Interpretation num => interpretation.name == reference) ∘
      completed catalog) = fun interpretation => interpretation.name == reference := rfl
  unfold resolve? interpretation?
  rw [sameEvaluation, interpretations_withRequired, List.find?_map, sameName]
  cases catalog.evaluation? reference with
  | some evaluation => rfl
  | none =>
      cases catalog.interpretations.find? fun interpretation => interpretation.name == reference <;>
        rfl

theorem acyclic_withRequired (acyclic : catalog.Acyclic) :
    catalog.withRequired.Acyclic := by
  constructor
  intro source
  -- the references of an interpretation depend on its trees alone
  suffices general : ∀ (old new : Interpretation num), new.roots = old.roots →
      Acc (fun target source => catalog.withRequired.RefersTo source target) new from
    general source source rfl
  intro old
  induction old using acyclic.induction with
  | _ old inductionHypothesis =>
      intro new sameRoots
      constructor
      intro target refers
      obtain ⟨reference, leaf, resolved⟩ := refersTo_iff.mp refers
      rw [sameRoots] at leaf
      rw [resolve?_withRequired] at resolved
      split at resolved
      · next middle found =>
          cases resolved
          exact inductionHypothesis middle (refersTo_iff.mpr ⟨reference, leaf, found⟩) _ rfl
      · next notInterpretation =>
          exact absurd resolved (notInterpretation target)

theorem withRequired_checked [Arith num] (checked : Checked catalog) :
    Checked catalog.withRequired where
  propertyNames := checked.propertyNames
  evaluationNames := checked.evaluationNames
  known := checked.known
  compiled := checked.compiled
  names := by
    have names := checked.names
    rwa [interpretationNames, interpretations_withRequired, List.map_map]
  normalized := by
    intro interpretation member
    rw [interpretations_withRequired] at member
    obtain ⟨old, oldMember, rfl⟩ := List.mem_map.mp member
    exact checked.normalized old oldMember
  references := by
    intro interpretation member reference leaf
    rw [interpretations_withRequired] at member
    obtain ⟨old, oldMember, rfl⟩ := List.mem_map.mp member
    obtain ⟨target, resolved⟩ := checked.references old oldMember reference leaf
    rw [resolve?_withRequired, resolved]
    cases target <;> exact ⟨_, rfl⟩
  acyclic := acyclic_withRequired checked.acyclic

/-! ## Building -/

private theorem references_of_unresolved?
    (allResolved : catalog.interpretations.findSome? catalog.unresolved? = none) :
    ∀ interpretation ∈ catalog.interpretations, ∀ reference ∈ leafRefs interpretation.roots,
      ∃ target, catalog.resolve? reference = some target := by
  intro interpretation member reference leaf
  have noneHere := List.findSome?_eq_none_iff.mp allResolved interpretation member
  unfold unresolved? at noneHere
  have resolved := List.find?_eq_none.mp (Option.map_eq_none_iff.mp noneHere) reference leaf
  exact Option.ne_none_iff_exists'.mp (by simpa using resolved)

section Assembling

variable [Arith num] {data : CatalogData num}

/-- The catalog of what was authored, with all checks made but the one for circles. -/
def assemble (data : CatalogData num) : Except (ConfigurationError num) (Catalog num) := do
  let catalog ← data.properties.foldlM addProperty empty
  let catalog ← data.evaluations.foldlM addEvaluation catalog
  let catalog ← data.rules.foldlM addRule catalog
  match catalog.interpretations.findSome? catalog.unresolved? with
  | some (owner, reference) => throw (.unresolvedReference owner reference)
  | none => return catalog

theorem build_eq_assemble (data : CatalogData num) :
    build data = assemble data >>= fun catalog =>
      match catalog.findCircle? with
      | some chain => .error (.referenceCycle chain)
      | none => .ok catalog.withRequired := by
  unfold build assemble
  simp only [bind_assoc]
  refine bind_congr fun _ => bind_congr fun _ => bind_congr fun catalog => ?_
  cases catalog.interpretations.findSome? catalog.unresolved? with
  | some reference => rfl
  | none =>
      dsimp only
      rw [pure_bind]
      cases catalog.findCircle? <;> rfl

theorem assemble_entered (assembled : assemble data = .ok catalog) :
    Entered catalog := by
  obtain ⟨withProperties, properties, evaluationStep⟩ := bind_eq_ok_iff.mp assembled
  obtain ⟨withEvaluations, evaluations, ruleStep⟩ := bind_eq_ok_iff.mp evaluationStep
  obtain ⟨withRules, rules, check⟩ := bind_eq_ok_iff.mp ruleStep
  have propertiesEntered : Entered withProperties :=
    foldlM_induction (fun _ current => Entered current) empty_entered
      (fun _ _ _ _ _ _ entered added => addProperty_entered entered added) properties
  have evaluationsEntered : Entered withEvaluations :=
    foldlM_induction (fun _ current => Entered current) propertiesEntered
      (fun _ _ _ _ _ _ entered added => addEvaluation_entered entered added) evaluations
  have rulesEntered : Entered withRules :=
    foldlM_induction (fun _ current => Entered current) evaluationsEntered
      (fun _ _ _ _ _ _ entered added => addRule_entered entered added) rules
  split at check
  · cases check
  · cases check
    exact rulesEntered

theorem references_of_assemble (assembled : assemble data = .ok catalog) :
    ∀ interpretation ∈ catalog.interpretations, ∀ reference ∈ leafRefs interpretation.roots,
      ∃ target, catalog.resolve? reference = some target := by
  obtain ⟨_, _, evaluationStep⟩ := bind_eq_ok_iff.mp assembled
  obtain ⟨_, _, ruleStep⟩ := bind_eq_ok_iff.mp evaluationStep
  obtain ⟨_, _, check⟩ := bind_eq_ok_iff.mp ruleStep
  split at check
  · cases check
  · next allResolved =>
      cases check
      exact references_of_unresolved? allResolved

/-- A catalog is built if no circle is found, and then the properties read are entered. -/
theorem build_eq_ok_iff :
    build data = .ok catalog ↔
      ∃ assembled, assemble data = .ok assembled ∧ assembled.findCircle? = none ∧
        assembled.withRequired = catalog := by
  rw [build_eq_assemble, bind_eq_ok_iff]
  refine exists_congr fun assembled => and_congr_right fun _ => ?_
  cases assembled.findCircle? <;> simp

theorem build_checked (built : build data = .ok catalog) :
    Checked catalog := by
  obtain ⟨assembled, assembledEq, noCircle, rfl⟩ := build_eq_ok_iff.mp built
  have entered := assemble_entered assembledEq
  exact withRequired_checked
    { entered with
      references := references_of_assemble assembledEq
      acyclic := acyclic_of_findCircle?_eq_none entered.names noCircle }

end Assembling

/-- What is read off an interpretation of a catalog that is built comes from such a catalog. -/
theorem exists_of_build [Arith num] {data : CatalogData num} {name : String} {alpha : Type}
    {read : Catalog num → Interpretation num → alpha} {result : alpha}
    (run : ((build data).toOption.bind fun catalog =>
      (catalog.interpretation? name).map (read catalog)) = some result) :
    ∃ catalog target, build data = .ok catalog ∧ target ∈ catalog.interpretations ∧
      read catalog target = result := by
  simp only [Option.bind_eq_some_iff, Option.map_eq_some_iff] at run
  obtain ⟨catalog, built, target, found, resultEq⟩ := run
  exact ⟨catalog, target, eq_ok_of_toOption built, List.mem_of_find?_eq_some found, resultEq⟩

/-! ## A small catalog -/

/-- A site is rated by its slope, and the slope by whether it exceeds three. -/
def siteData : CatalogData Float where
  properties := [⟨"p1", "slope", none, none, none, "", false⟩]
  evaluations :=
    [⟨"e1", "Steep", "slope", "crisp", false, none, none, none, some "> 3"⟩]
  rules :=
    [⟨"r1", "Slope",
      [.node "Slope" none none none [], .node "  Steepness" none none (some "Steep") []]⟩,
     ⟨"r2", "Site",
      [.node "Site" none none none [], .node "  Terrain" none none (some "Slope") []]⟩]

theorem exists_build_siteData :
    ∃ catalog slope site, build siteData = .ok catalog ∧ catalog.interpretations = [slope, site] ∧
      slope.name = "Slope" ∧ site.name = "Site" := by
  have names : (build siteData).toOption.map interpretationNames = some ["Slope", "Site"] := by
    decide +kernel
  cases built : build siteData with
  | error error =>
      rw [built] at names
      cases names
  | ok catalog =>
      rw [built] at names
      simp only [Except.toOption, Option.map_some, Option.some.injEq, interpretationNames,
        List.map_eq_cons_iff, List.map_eq_nil_iff] at names
      obtain ⟨slope, _, interpretationsEq, slopeName, site, _, rfl, siteName, rfl⟩ := names
      exact ⟨catalog, slope, site, rfl, interpretationsEq, slopeName, siteName⟩

end FuzzyRating.Catalog
