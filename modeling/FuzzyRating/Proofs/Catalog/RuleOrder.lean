import FuzzyRating.Proofs.Assessment.Trace
import FuzzyRating.Proofs.Catalog.Circle
import FuzzyRating.Proofs.Engine.Created
import FuzzyRating.Proofs.Text.Suggestions

/-!
The order in which rules are authored decides nothing but the order in which interpretations are
listed. What is looked up, which references are followed and how subjects are rated stays the same.
-/

namespace FuzzyRating.Catalog

variable {num : Type}

/-! ## Catalogs with the same entries -/

/-- Two catalogs differ at most in the order of their interpretations. -/
structure Reordered (catalog other : Catalog num) : Prop where
  properties : catalog.properties = other.properties
  evaluations : catalog.evaluations = other.evaluations
  interpretations : catalog.interpretations.Perm other.interpretations
  names : catalog.interpretationNames.Nodup

namespace Reordered

variable {catalog other : Catalog num}

theorem names_perm (reordered : Reordered catalog other) :
    catalog.interpretationNames.Perm other.interpretationNames :=
  reordered.interpretations.map Interpretation.name

theorem symm (reordered : Reordered catalog other) :
    Reordered other catalog where
  properties := reordered.properties.symm
  evaluations := reordered.evaluations.symm
  interpretations := reordered.interpretations.symm
  names := reordered.names_perm.nodup_iff.mp reordered.names

theorem interpretation? (reordered : Reordered catalog other) (name : String) :
    catalog.interpretation? name = other.interpretation? name := by
  apply Option.ext
  intro target
  rw [interpretation?_eq_some_iff reordered.names,
    interpretation?_eq_some_iff reordered.symm.names, reordered.interpretations.mem_iff]

theorem property? (reordered : Reordered catalog other) (key : String) :
    catalog.property? key = other.property? key := by
  unfold Catalog.property?
  rw [reordered.properties]

theorem resolve? (reordered : Reordered catalog other) (reference : String) :
    catalog.resolve? reference = other.resolve? reference := by
  unfold Catalog.resolve? evaluation?
  rw [reordered.evaluations, reordered.interpretation?]

theorem unresolved? (reordered : Reordered catalog other) (interpretation : Interpretation num) :
    catalog.unresolved? interpretation = other.unresolved? interpretation := by
  unfold Catalog.unresolved?
  simp only [reordered.resolve?]

theorem findSome?_unresolved? (reordered : Reordered catalog other)
    (allResolved : catalog.interpretations.findSome? catalog.unresolved? = none) :
    other.interpretations.findSome? other.unresolved? = none := by
  rw [List.findSome?_eq_none_iff] at allResolved ⊢
  intro interpretation member
  rw [← reordered.unresolved?]
  exact allResolved interpretation (reordered.interpretations.mem_iff.mpr member)

/-! ## Circles -/

theorem hasEdge (reordered : Reordered catalog other) {source target : String}
    (edge : catalog.HasEdge source target) :
    other.HasEdge source target where
  leaf := by
    obtain ⟨interpretation, member, named, leaf⟩ := edge.leaf
    exact ⟨interpretation, reordered.interpretations.mem_iff.mp member, named, leaf⟩
  known := reordered.names_perm.mem_iff.mp edge.known
  notEvaluation := by
    rw [← reordered.evaluations]
    exact edge.notEvaluation

/-- The searches start at different interpretations, but there is a circle to be found in both or
in neither. -/
theorem findCircle?_eq_none (reordered : Reordered catalog other)
    (noCircle : catalog.findCircle? = none) :
    other.findCircle? = none := by
  by_contra found
  obtain ⟨name, way⟩ := (exists_findCircle?_iff reordered.symm.names).mp
    (Option.ne_none_iff_exists'.mp found)
  have sameWay : Relation.TransGen catalog.HasEdge name name :=
    way.lift id fun _ _ edge => reordered.symm.hasEdge edge
  obtain ⟨chain, circle⟩ := (exists_findCircle?_iff reordered.names).mpr ⟨name, sameWay⟩
  rw [noCircle] at circle
  cases circle

/-! ## The properties read -/

theorem gatherWithin (reordered : Reordered catalog other) (limit : Nat) :
    catalog.gatherWithin limit = other.gatherWithin limit := by
  induction limit with
  | zero =>
      funext gathered interpretation
      rw [Catalog.gatherWithin, Catalog.gatherWithin]
  | succ limit inductionHypothesis =>
      funext gathered interpretation
      rw [Catalog.gatherWithin, Catalog.gatherWithin, inductionHypothesis]
      simp only [reordered.resolve?, reordered.property?]

theorem completed (reordered : Reordered catalog other) :
    catalog.completed = other.completed := by
  funext interpretation
  unfold Catalog.completed requiredProperties
  rw [reordered.interpretations.length_eq, reordered.gatherWithin]

theorem withRequired (reordered : Reordered catalog other) :
    Reordered catalog.withRequired other.withRequired where
  properties := reordered.properties
  evaluations := reordered.evaluations
  interpretations := by
    rw [interpretations_withRequired, interpretations_withRequired, reordered.completed]
    exact reordered.interpretations.map other.completed
  names := by
    rw [interpretationNames, interpretations_withRequired, List.map_map]
    exact reordered.names

end Reordered

end FuzzyRating.Catalog

namespace FuzzyRating

/-! ## Rating -/

section Rating

variable {num : Type} [Arith num] {catalog other : Catalog num} {expand otherExpand : Expansion num}

private theorem assessNodes_congr_of {trees : List (RuleTree num)}
    (each : ∀ tree ∈ trees, ∀ ctx,
      assessNode catalog expand ctx tree = assessNode other otherExpand ctx tree) :
    ∀ ctx, assessNodes catalog expand ctx trees = assessNodes other otherExpand ctx trees := by
  induction trees with
  | nil =>
      intro ctx
      rw [assessNodes, assessNodes]
  | cons tree trees inductionHypothesis =>
      intro ctx
      have rest := inductionHypothesis fun next member =>
        each next (List.mem_cons_of_mem tree member)
      rw [assessNodes, assessNodes, each tree List.mem_cons_self]
      simp only [rest]

/-- Trees are rated alike where their leaves are. -/
theorem assessNode_congr (leaves : assessLeaf catalog expand = assessLeaf other otherExpand)
    (tree : RuleTree num) :
    ∀ ctx, assessNode catalog expand ctx tree = assessNode other otherExpand ctx tree := by
  induction tree using Tree.induction with
  | node label children inductionHypothesis =>
      intro ctx
      have below := assessNodes_congr_of inductionHypothesis
      rw [assessNode_eq, assessNode_eq]
      unfold assessKind
      dsimp only [Tree.label, Tree.children]
      cases label.kind with
      | root => simp only [below]
      | operator operator => simp only [below]
      | hedge hedge parameter =>
          cases children with
          | nil => rfl
          | cons child rest => simp only [inductionHypothesis child List.mem_cons_self]
      | evaluation refId => simp only [leaves]

theorem assessRoots_congr (leaves : assessLeaf catalog expand = assessLeaf other otherExpand)
    (ctx : Context num) (roots : List (RuleTree num)) :
    assessRoots catalog expand ctx roots = assessRoots other otherExpand ctx roots := by
  have each : ∀ ctx, assessNodes catalog expand ctx roots = assessNodes other otherExpand ctx roots :=
    assessNodes_congr_of fun tree _ => assessNode_congr leaves tree
  unfold assessRoots
  split
  · exact assessNode_congr leaves _ ctx
  · rw [each]

namespace Catalog.Reordered

theorem assessLeaf (reordered : Reordered catalog other) (expand : Expansion num) :
    assessLeaf catalog expand = assessLeaf other expand := by
  have names : catalog.referenceNames.Perm other.referenceNames := by
    unfold referenceNames
    rw [reordered.evaluations]
    exact reordered.names_perm.append_left _
  funext key refId ctx
  unfold FuzzyRating.assessLeaf assessEvaluation PropertyData.valueOf
  simp only [reordered.resolve?, reordered.property?, Text.suggestions_of_perm names]

theorem expandWithin (reordered : Reordered catalog other) (room : Nat) :
    expandWithin catalog room = expandWithin other room := by
  induction room with
  | zero =>
      funext target ctx
      rw [FuzzyRating.expandWithin, FuzzyRating.expandWithin]
  | succ room inductionHypothesis =>
      funext target ctx
      rw [FuzzyRating.expandWithin, FuzzyRating.expandWithin, inductionHypothesis,
        assessRoots_congr (reordered.assessLeaf _)]

theorem assess (reordered : Reordered catalog other) :
    assess catalog = assess other := by
  funext name roots ctx
  unfold FuzzyRating.assess
  split
  · rfl
  · dsimp only
    rw [reordered.expandWithin, assessRoots_congr (reordered.assessLeaf _)]

end Catalog.Reordered

end Rating

namespace Catalog

/-! ## Entering rules -/

/-- Two interpretations can stand in one catalog. -/
def Differ {num : Type} (first second : Interpretation num) : Prop :=
  first.name ≠ second.name ∧ first.hash ≠ second.hash

theorem Differ.symm {num : Type} {first second : Interpretation num}
    (differ : Differ first second) :
    Differ second first :=
  ⟨differ.1.symm, differ.2.symm⟩

section Entering

variable {num : Type} [Arith num] {catalog after : Catalog num}

/-- The interpretation that a rule is entered as. -/
def EnteredAs (rule : RuleDefinition) (interpretation : Interpretation num) : Prop :=
  ∃ roots, normalize rule.nodes = .ok roots ∧
    interpretation = ⟨rule.id, rule.name, InterpretationId.ofName rule.name, roots, []⟩

/-- A rule is entered behind all others if it differs from each of them. -/
theorem addRule_eq_ok_iff {rule : RuleDefinition} :
    addRule catalog rule = .ok after ↔
      ∃ added, EnteredAs rule added ∧ (∀ earlier ∈ catalog.interpretations, Differ earlier added) ∧
        { catalog with interpretations := catalog.interpretations ++ [added] } = after := by
  unfold addRule EnteredAs
  cases normalized : (normalize rule.nodes : Except RuleError (List (RuleTree num))) with
  | error error => simp
  | ok roots =>
      dsimp only
      by_cases taken : (catalog.interpretations.any (·.name == rule.name)) = true
      · rw [if_pos taken]
        obtain ⟨earlier, member, sameName⟩ := List.any_eq_true.mp taken
        constructor
        · intro impossible
          cases impossible
        · rintro ⟨_, ⟨_, _, rfl⟩, differ, _⟩
          exact absurd (beq_iff_eq.mp sameName) (differ earlier member).1
      · rw [if_neg taken]
        have names : ∀ earlier ∈ catalog.interpretations, earlier.name ≠ rule.name := by
          simpa using taken
        unfold interpretationById?
        split
        · next clash found =>
            have sameHash := List.find?_some found
            constructor
            · intro impossible
              cases impossible
            · rintro ⟨_, ⟨_, _, rfl⟩, differ, _⟩
              exact absurd (beq_iff_eq.mp sameHash) (differ clash (List.mem_of_find?_eq_some found)).2
        · next noClash =>
            have hashes : ∀ earlier ∈ catalog.interpretations,
                earlier.hash ≠ InterpretationId.ofName rule.name := by
              simpa using noClash
            constructor
            · intro added
              cases added
              exact ⟨_, ⟨roots, rfl, rfl⟩,
                fun earlier member => ⟨names earlier member, hashes earlier member⟩, rfl⟩
            · rintro ⟨_, ⟨_, sameRoots, rfl⟩, _, rfl⟩
              cases sameRoots
              rfl

/-- Rules are entered one after the other if all of them differ. -/
theorem foldlM_addRule_eq_ok_iff {rules : List RuleDefinition} :
    rules.foldlM addRule catalog = .ok after ↔
      ∃ added, List.Forall₂ EnteredAs rules added ∧
        (∀ earlier ∈ catalog.interpretations, ∀ new ∈ added, Differ earlier new) ∧
        added.Pairwise Differ ∧
        { catalog with interpretations := catalog.interpretations ++ added } = after := by
  induction rules generalizing catalog with
  | nil =>
      rw [List.foldlM_nil]
      constructor
      · intro same
        cases same
        exact ⟨[], .nil, by simp, .nil, by rw [List.append_nil]⟩
      · rintro ⟨_, entered, _, _, rfl⟩
        cases entered
        rw [List.append_nil]
        rfl
  | cons rule rules inductionHypothesis =>
      rw [List.foldlM_cons, bind_eq_ok_iff]
      constructor
      · rintro ⟨next, first, later⟩
        obtain ⟨added, enteredAs, differ, rfl⟩ := addRule_eq_ok_iff.mp first
        obtain ⟨rest, restEntered, restDiffer, distinct, rfl⟩ := inductionHypothesis.mp later
        refine ⟨added :: rest, .cons enteredAs restEntered, ?_, ?_, by simp⟩
        · intro earlier member new isNew
          rcases List.mem_cons.mp isNew with rfl | inRest
          · exact differ earlier member
          · exact restDiffer earlier (List.mem_append_left _ member) new inRest
        · exact List.pairwise_cons.mpr ⟨fun new inRest =>
            restDiffer added (List.mem_append_right _ List.mem_cons_self) new inRest, distinct⟩
      · rintro ⟨_, entered, differ, distinct, rfl⟩
        obtain ⟨added, rest, enteredAs, restEntered, rfl⟩ := List.forall₂_cons_left_iff.mp entered
        obtain ⟨differFirst, restDistinct⟩ := List.pairwise_cons.mp distinct
        refine ⟨_, addRule_eq_ok_iff.mpr ⟨added, enteredAs, fun earlier member =>
          differ earlier member added List.mem_cons_self, rfl⟩, ?_⟩
        refine inductionHypothesis.mpr ⟨rest, restEntered, ?_, restDistinct, by simp⟩
        intro earlier member new inRest
        rcases List.mem_append.mp member with before | isAdded
        · exact differ earlier before new (List.mem_cons_of_mem added inRest)
        · rw [List.mem_singleton.mp isAdded]
          exact differFirst new inRest

variable {data : CatalogData num} {rules : List RuleDefinition}

/-- Rules in another order pass the same checks. -/
theorem exists_assemble_reordered (reordered : data.rules.Perm rules)
    (assembled : assemble data = .ok catalog) :
    ∃ other, assemble { data with rules } = .ok other ∧ Reordered catalog other := by
  have names := (assemble_entered assembled).names
  obtain ⟨withProperties, properties, evaluationStep⟩ := bind_eq_ok_iff.mp assembled
  obtain ⟨withEvaluations, evaluations, ruleStep⟩ := bind_eq_ok_iff.mp evaluationStep
  obtain ⟨withRules, entered, check⟩ := bind_eq_ok_iff.mp ruleStep
  obtain ⟨added, enteredAs, differ, distinct, rfl⟩ := foldlM_addRule_eq_ok_iff.mp entered
  obtain ⟨others, othersEntered, samePlaces⟩ :=
    List.perm_comp_forall₂ reordered.symm enteredAs
  have othersDiffer : ∀ earlier ∈ withEvaluations.interpretations, ∀ new ∈ others,
      Differ earlier new :=
    fun earlier member new isNew => differ earlier member new (samePlaces.mem_iff.mp isNew)
  have othersDistinct : others.Pairwise Differ :=
    (samePlaces.pairwise_iff Differ.symm).mpr distinct
  have othersFolded := foldlM_addRule_eq_ok_iff.mpr
    ⟨others, othersEntered, othersDiffer, othersDistinct, rfl⟩
  split at check
  · cases check
  · next allResolved =>
      cases check
      have sameEntries : Reordered
          { withEvaluations with interpretations := withEvaluations.interpretations ++ added }
          { withEvaluations with interpretations := withEvaluations.interpretations ++ others } :=
        ⟨rfl, rfl, samePlaces.symm.append_left _, names⟩
      have othersResolved := sameEntries.findSome?_unresolved? allResolved
      refine ⟨_, bind_eq_ok_iff.mpr ⟨withProperties, properties, ?_⟩, sameEntries⟩
      refine bind_eq_ok_iff.mpr ⟨withEvaluations, evaluations, ?_⟩
      refine bind_eq_ok_iff.mpr ⟨_, othersFolded, ?_⟩
      rw [othersResolved]
      rfl

/-- Rules in another order build the same catalog up to the order of its interpretations. -/
theorem exists_build_reordered (reordered : data.rules.Perm rules)
    (built : build data = .ok catalog) :
    ∃ other, build { data with rules } = .ok other ∧ Reordered catalog other := by
  obtain ⟨assembled, assembledEq, noCircle, rfl⟩ := build_eq_ok_iff.mp built
  obtain ⟨other, otherAssembled, sameEntries⟩ := exists_assemble_reordered reordered assembledEq
  have otherBuilt := build_eq_ok_iff.mpr
    ⟨other, otherAssembled, sameEntries.findCircle?_eq_none noCircle, rfl⟩
  exact ⟨_, otherBuilt, sameEntries.withRequired⟩

end Entering

/-! ## Building -/

/-- Two catalogs have the same interpretations, in some order, and rate every subject alike. -/
structure RatesAlike {num : Type} [Arith num] (catalog other : Catalog num) : Prop where
  interpretations : catalog.interpretations.Perm other.interpretations
  /-- A name finds the same trees and required properties, or nothing, in both. -/
  found : ∀ name, catalog.interpretation? name = other.interpretation? name
  /-- Rating comes to the same, and records the same ratings and values, also where it fails. -/
  assessed : ∀ name roots ctx, assess catalog name roots ctx = assess other name roots ctx

theorem Reordered.ratesAlike {num : Type} [Arith num] {catalog other : Catalog num}
    (reordered : Reordered catalog other) :
    RatesAlike catalog other where
  interpretations := reordered.interpretations
  found := reordered.interpretation?
  assessed := fun _ _ _ => by rw [reordered.assess]

end Catalog

namespace Engine

variable {engine other : Engine}

/-- An engine tells by its catalog alone which names to suggest for one that it does not find. -/
theorem find_of_reordered (reordered : Catalog.Reordered engine.catalog other.catalog)
    (name : String) :
    engine.find name = other.find name := by
  unfold find
  rw [reordered.interpretation?, Text.suggestions_of_perm reordered.names_perm]

theorem recompute_of_reordered (reordered : Catalog.Reordered engine.catalog other.catalog)
    (sameConfig : engine.config = other.config)
    (found : Except (AssessmentError Float) (Interpretation Float)) (subject : PropertyData Float) :
    engine.recompute found subject = other.recompute found subject := by
  unfold recompute compute Interpretation.report
  rw [sameConfig, reordered.assess]

end Engine

/-- The order of the rules does not matter: either both orders build or none does, and then the
interpretations and all that is rated by name are the same. -/
theorem Catalog.build_reordered {data : CatalogData Float} {rules : List RuleDefinition}
    (reordered : data.rules.Perm rules) :
    ((∃ catalog, build data = .ok catalog) ↔ ∃ other, build { data with rules } = .ok other) ∧
      (∀ catalog other, build data = .ok catalog → build { data with rules } = .ok other →
        RatesAlike catalog other) ∧
      ∀ config created otherCreated engine other,
        Engine.create (.ok data) config created = .ok engine →
        Engine.create (.ok { data with rules }) config otherCreated = .ok other →
        ∀ name subject now otherNow,
          (engine.evaluate name subject now).1.map Served.report =
            (other.evaluate name subject otherNow).1.map Served.report := by
  have sameEntries : ∀ catalog other, build data = .ok catalog →
      build { data with rules } = .ok other → Reordered catalog other := by
    intro catalog other built otherBuilt
    obtain ⟨again, againBuilt, same⟩ := exists_build_reordered reordered built
    rw [againBuilt] at otherBuilt
    cases otherBuilt
    exact same
  refine ⟨⟨?_, ?_⟩, fun catalog other built otherBuilt =>
    (sameEntries catalog other built otherBuilt).ratesAlike, ?_⟩
  · rintro ⟨catalog, built⟩
    obtain ⟨other, otherBuilt, _⟩ := exists_build_reordered reordered built
    exact ⟨other, otherBuilt⟩
  · rintro ⟨other, otherBuilt⟩
    have back : ({ data with rules }.rules : List RuleDefinition).Perm data.rules := reordered.symm
    obtain ⟨catalog, built, _⟩ := exists_build_reordered back otherBuilt
    exact ⟨catalog, built⟩
  · intro config created otherCreated engine other creation otherCreation name subject now otherNow
    have new := Engine.createdFrom_of_create creation
    have otherNew := Engine.createdFrom_of_create otherCreation
    have same := sameEntries _ _ new.catalog otherNew.catalog
    rw [new.evaluate, otherNew.evaluate, Engine.find_of_reordered same,
      Engine.recompute_of_reordered same (new.config.trans otherNew.config.symm)]

/-- The site may be authored in front of the slope that it refers to. -/
theorem Catalog.build_reordered_site :
    siteData.rules.Perm siteData.rules.reverse ∧
      ∃ catalog other, build siteData = .ok catalog ∧
        build { siteData with rules := siteData.rules.reverse } = .ok other ∧
        RatesAlike catalog other := by
  have reversed := (List.reverse_perm siteData.rules).symm
  obtain ⟨catalog, _, _, built, _⟩ := exists_build_siteData
  obtain ⟨succeeds, alike, _⟩ := build_reordered reversed
  obtain ⟨other, otherBuilt⟩ := succeeds.mp ⟨catalog, built⟩
  exact ⟨reversed, catalog, other, built, otherBuilt, alike catalog other built otherBuilt⟩

end FuzzyRating
