import FuzzyRating.Proofs.Catalog.RuleOrder

/-!
Interpretations are found under the hashes of their names. Rules whose names have the same hash do
not stand in one catalog, so a hash leads to one interpretation at most, and an engine that is given
the id of a name does what it does when it is given the name.
-/

namespace FuzzyRating

/-! ## Catalogs -/

namespace Catalog

variable {num : Type} {catalog after : Catalog num}

/-- The interpretations of a catalog are the rules it was built from, each under the hash of its
name alone. -/
structure UniqueIds (catalog : Catalog num) (data : CatalogData num) : Prop where
  names : catalog.interpretationNames = data.rules.map (·.name)
  found : ∀ id target, catalog.interpretationById? id = some target ↔
    target ∈ catalog.interpretations ∧ InterpretationId.ofName target.name = id
  distinct : (catalog.interpretationNames.map InterpretationId.ofName).Nodup

theorem interpretations_addProperty {property : Property num}
    (added : addProperty catalog property = .ok after) :
    after.interpretations = catalog.interpretations := by
  unfold addProperty at added
  split at added
  · cases added
  · cases added
    rfl

section Built

variable [Arith num] {data : CatalogData num}

theorem interpretations_addEvaluation {definition : EvaluationDefinition num}
    (added : addEvaluation catalog definition = .ok after) :
    after.interpretations = catalog.interpretations := by
  unfold addEvaluation at added
  split at added
  · cases added
  · split at added
    · cases added
    · split at added
      · cases added
      · cases added
        rfl

/-- The interpretations of a built catalog were entered one after the other, and each of them differs
from all others. -/
theorem exists_enteredAs_of_build (built : build data = .ok catalog) :
    ∃ entered assembled, List.Forall₂ EnteredAs data.rules entered ∧ entered.Pairwise Differ ∧
      catalog.interpretations = entered.map (completed assembled) := by
  obtain ⟨assembled, assembledEq, _, rfl⟩ := build_eq_ok_iff.mp built
  obtain ⟨withProperties, properties, evaluationStep⟩ := bind_eq_ok_iff.mp assembledEq
  obtain ⟨withEvaluations, evaluations, ruleStep⟩ := bind_eq_ok_iff.mp evaluationStep
  obtain ⟨withRules, rules, check⟩ := bind_eq_ok_iff.mp ruleStep
  have noneAtFirst : withProperties.interpretations = [] :=
    foldlM_induction (fun _ current => current.interpretations = []) rfl
      (fun _ _ _ _ _ _ none added => (interpretations_addProperty added).trans none) properties
  have noneYet : withEvaluations.interpretations = [] :=
    foldlM_induction (fun _ current => current.interpretations = []) noneAtFirst
      (fun _ _ _ _ _ _ none added => (interpretations_addEvaluation added).trans none) evaluations
  obtain ⟨_, _, interpretations⟩ := withEvaluations
  obtain rfl : interpretations = [] := noneYet
  obtain ⟨entered, enteredAs, _, differ, rfl⟩ := foldlM_addRule_eq_ok_iff.mp rules
  split at check
  · cases check
  · cases check
    exact ⟨entered, _, enteredAs, differ, interpretations_withRequired _⟩

theorem names_of_enteredAs {rules : List RuleDefinition} {entered : List (Interpretation num)}
    (enteredAs : List.Forall₂ EnteredAs rules entered) :
    entered.map (·.name) = rules.map (·.name) ∧
      entered.map (·.hash) = (rules.map (·.name)).map InterpretationId.ofName := by
  induction enteredAs with
  | nil => exact ⟨rfl, rfl⟩
  | cons first _ inductionHypothesis =>
      obtain ⟨roots, _, rfl⟩ := first
      obtain ⟨names, hashes⟩ := inductionHypothesis
      exact ⟨List.cons_eq_cons.mpr ⟨rfl, names⟩, List.cons_eq_cons.mpr ⟨rfl, hashes⟩⟩

/-- Rules whose names have the same hash are not entered into one catalog. -/
theorem hashes_of_build (built : build data = .ok catalog) :
    catalog.interpretationNames = data.rules.map (·.name) ∧
      catalog.interpretations.map (·.hash) =
        catalog.interpretationNames.map InterpretationId.ofName ∧
      (catalog.interpretations.map (·.hash)).Nodup := by
  obtain ⟨entered, assembled, enteredAs, differ, interpretationsEq⟩ :=
    exists_enteredAs_of_build built
  obtain ⟨names, hashes⟩ := names_of_enteredAs enteredAs
  have sameNames : catalog.interpretationNames = entered.map (·.name) := by
    rw [interpretationNames, interpretationsEq, List.map_map]
    rfl
  have sameHashes : catalog.interpretations.map (·.hash) = entered.map (·.hash) := by
    rw [interpretationsEq, List.map_map]
    rfl
  refine ⟨sameNames.trans names, ?_, ?_⟩
  · rw [sameHashes, sameNames, hashes, names]
  · rw [sameHashes]
    exact List.pairwise_map.mpr (differ.imp And.right)

theorem uniqueIds_of_build (built : build data = .ok catalog) :
    catalog.UniqueIds data := by
  obtain ⟨names, hashes, distinct⟩ := hashes_of_build built
  have hashOfName : ∀ target ∈ catalog.interpretations,
      target.hash = InterpretationId.ofName target.name := by
    rw [interpretationNames, List.map_map] at hashes
    exact List.map_inj_left.mp hashes
  refine ⟨names, fun id target => ?_, hashes ▸ distinct⟩
  unfold interpretationById?
  rw [find?_key_eq_some_iff distinct]
  exact and_congr_right fun known => by rw [hashOfName target known]

end Built

end Catalog

/-! ## Engines -/

namespace Engine

variable {engine : Engine}

/-- The catalog of an engine was built. -/
def IsBuilt (engine : Engine) : Prop :=
  ∃ data, Catalog.build data = .ok engine.catalog

theorem isBuilt_of_load {supply : Supply} (loaded : load supply = .ok engine.catalog) :
    engine.IsBuilt := by
  obtain ⟨data, _, built⟩ := bind_eq_ok_iff.mp loaded
  exact ⟨data, built⟩

namespace IsBuilt

theorem reload (isBuilt : engine.IsBuilt) (now : Nat) :
    (engine.reload now).2.IsBuilt := by
  cases loaded : load engine.supply with
  | ok catalog =>
      rw [reload_of_ok loaded]
      exact isBuilt_of_load loaded
  | error error =>
      rw [reload_of_error loaded]
      exact isBuilt

theorem refresh (isBuilt : engine.IsBuilt) (now : Nat) :
    (engine.refresh now).IsBuilt := by
  unfold Engine.refresh
  split
  · exact isBuilt.reload now
  · exact isBuilt

theorem performUncached (isBuilt : engine.IsBuilt) (now : Nat) (request : Request) :
    (engine.performUncached now request).2.IsBuilt := by
  cases request with
  | reload => exact isBuilt.reload now
  | clearCache => exact isBuilt
  | pruneCache => exact isBuilt
  | withSupply supply => exact isBuilt
  | _ => exact isBuilt.refresh now

theorem runUncached (isBuilt : engine.IsBuilt) (requests : List (Nat × Request)) :
    (engine.runUncached requests).2.IsBuilt := by
  induction requests generalizing engine with
  | nil => exact isBuilt
  | cons first requests inductionHypothesis =>
      obtain ⟨now, request⟩ := first
      exact inductionHypothesis (isBuilt.performUncached now request)

end IsBuilt

theorem isBuilt_run {supply : Supply} {config : Config Float} {now : Nat}
    (created : create supply config now = .ok engine) (requests : List (Nat × Request)) :
    (engine.run requests).2.IsBuilt := by
  obtain ⟨catalog, loaded, engineEq⟩ := bind_eq_ok_iff.mp created
  have sound : Sound engine := by
    cases engineEq
    exact Sound.of_load loaded rfl rfl
  have isBuilt : engine.IsBuilt := by
    cases engineEq
    exact isBuilt_of_load loaded
  obtain ⟨_, agrees, _⟩ := run_transparent sound (Agrees.refl engine) requests
  unfold IsBuilt
  rw [agrees.catalog]
  exact isBuilt.runUncached requests

/-- The id of a name that is known finds what the name finds. -/
theorem findById_ofName (isBuilt : engine.IsBuilt) {name : String}
    (known : name ∈ engine.catalog.interpretationNames) :
    engine.findById (.ofName name) = engine.find name := by
  obtain ⟨data, built⟩ := isBuilt
  obtain ⟨target, member, rfl⟩ := List.mem_map.mp known
  have byId := ((Catalog.uniqueIds_of_build built).found _ target).mpr ⟨member, rfl⟩
  rw [find_of_mem (Catalog.build_checked built).names member]
  unfold findById
  rw [byId]

/-- Two interpretations of a catalog never have the same id. What an engine does for an id is what it
does for the name that the id was made of: the answer is the same, and so is the engine then, with its
cache and all counters. -/
theorem evaluateById_ofName {num : Type} [Arith num] :
    (∀ (data : CatalogData num) catalog, Catalog.build data = .ok catalog →
      catalog.UniqueIds data) ∧
    ∀ supply config start engine, create supply config start = .ok engine →
      ∀ requests now name subject,
        name ∈ ((engine.run requests).2.refresh now).catalog.interpretationNames →
        (engine.run requests).2.evaluateById (.ofName name) subject now =
          (engine.run requests).2.evaluate name subject now := by
  refine ⟨fun data catalog => Catalog.uniqueIds_of_build, ?_⟩
  intro supply config start engine created requests now name subject known
  have isBuilt := (isBuilt_run created requests).refresh now
  unfold evaluateById evaluate
  dsimp only
  rw [findById_ofName isBuilt known]

/-- The slope is asked for by its name, and by its id when the catalog has grown old. -/
theorem evaluateById_ofName_slope :
    ∃ catalog slope engine,
      Catalog.build Catalog.siteData = .ok catalog ∧ slope.name = "Slope" ∧
      catalog.interpretationById? (.ofName "Slope") = some slope ∧
      create (.ok Catalog.siteData) { Config.standard with catalogTtlSecs := some 1 } 0 =
        .ok engine ∧
      let asked := (engine.run
        [(1, .evaluate "Slope" ⟨[("slope", .number 5)], List.nodup_singleton _⟩)]).2
      "Slope" ∈ (asked.refresh 2000).catalog.interpretationNames ∧
        asked.evaluateById (.ofName "Slope") ⟨[("slope", .number 5)], List.nodup_singleton _⟩ 2000 =
          asked.evaluate "Slope" ⟨[("slope", .number 5)], List.nodup_singleton _⟩ 2000 := by
  obtain ⟨catalog, slope, site, built, interpretationsEq, slopeName, _⟩ :=
    Catalog.exists_build_siteData
  let config : Config Float := { Config.standard with catalogTtlSecs := some 1 }
  let engine : Engine :=
    { supply := .ok Catalog.siteData, config, catalog, loadedAt := 0, generation := 0,
      cache := .empty config.cacheMaxSize (milliseconds config.cacheTtlSecs),
      loads := 1, computed := 0 }
  have created : create (.ok Catalog.siteData) config 0 = .ok engine :=
    bind_eq_ok_iff.mpr ⟨catalog, bind_eq_ok_iff.mpr ⟨Catalog.siteData, rfl, built⟩, rfl⟩
  obtain ⟨uniqueIds, sameForBoth⟩ := @evaluateById_ofName Float _
  have found := ((uniqueIds _ _ built).found (.ofName "Slope") slope).mpr
    ⟨by simp [interpretationsEq], by rw [slopeName]⟩
  refine ⟨catalog, slope, engine, built, slopeName, found, created, ?_⟩
  intro asked
  have known : "Slope" ∈ (asked.refresh 2000).catalog.interpretationNames := by
    have new := createdFrom_of_create created
    have agrees := (run_transparent new.sound (Agrees.refl engine)
      [(1, .evaluate "Slope" ⟨[("slope", .number 5)], List.nodup_singleton _⟩)]).2.1.refresh 2000
    have notYetOld : engine.refresh 1 = engine := refresh_of_fresh rfl
    change Agrees (asked.refresh 2000) ((engine.refresh 1).refresh 2000) at agrees
    rw [notYetOld] at agrees
    rw [agrees.catalog, (new.refresh 2000).catalog]
    simp [engine, Catalog.interpretationNames, interpretationsEq, slopeName]
  exact ⟨known, sameForBoth _ _ _ _ created _ _ _ _ known⟩

end Engine

end FuzzyRating
