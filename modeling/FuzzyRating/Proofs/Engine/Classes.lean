import FuzzyRating.Proofs.Engine.Transparency
import FuzzyRating.Proofs.Reread

/-!
The classes in the answers of an engine. However its configuration was obtained and whatever it was
asked before, the class of a report is the one that its table gives to the rating.
-/

namespace FuzzyRating

open Json (Field Record Yields)

/-! ## Where tables come from -/

namespace RatingTable

/-- A table that was made of thresholds, is the standard one or was read on its own. -/
inductive Obtained : RatingTable Float → Prop
  | made {table : RatingTable Float} {thresholds : List (RatingThreshold Float)}
      (accepted : ofThresholds thresholds = .ok table) : Obtained table
  | standard : Obtained .standard
  | decoded {table : RatingTable Float} {source : String}
      (parsed : Json.parse reader source = .ok table) : Obtained table

variable {table : RatingTable Float}

theorem isTable_of_ofThresholds {thresholds : List (RatingThreshold Float)}
    (accepted : ofThresholds thresholds = .ok table) :
    IsTable table.thresholds := by
  obtain ⟨rfl, isTable⟩ := ofThresholds_eq_ok_iff.mp accepted
  exact isTable

/-- Reading a table does not get around the check. -/
theorem reader_yields (depth : Nat) : Yields reader depth fun table => IsTable table.thresholds := by
  intro text table rest result
  obtain ⟨thresholds, _, checked⟩ := (Yields.any _ depth).checked text table rest result
  exact isTable_of_ofThresholds (mapError_eq_ok_iff.mp checked)

theorem Obtained.isTable (obtained : table.Obtained) : IsTable table.thresholds := by
  cases obtained with
  | made accepted => exact isTable_of_ofThresholds accepted
  | standard => exact isTable_of_ofThresholds standard_made
  | decoded parsed =>
      obtain ⟨rest, result⟩ := Json.of_parse parsed
      exact reader_yields _ _ table rest result

end RatingTable

open RatingTable (ClassOf IsTable)

/-- A configuration with a table that was obtained somehow, or one that was read. -/
inductive Config.Obtained (config : Config Float) : Prop
  | given (ratingTable : config.ratingTable.Obtained)
  | decoded {source : String} (read : Config.ofJson source = .ok config)

/-- The table in a draft of a configuration, if there is one already, has been checked. -/
def ConfigDraft.HoldsTable (draft : ConfigDraft) : Prop :=
  ∀ table, draft.ratingTable = some table → IsTable table.thresholds

theorem ConfigDraft.holdsTable_kept (depth : Nat) :
    ∀ field ∈ Config.record.fields, field.Keeps depth HoldsTable := by
  simp only [Config.record, List.forall_mem_cons]
  refine ⟨?_, ?_, ?_, ?_, ?_, ?_, ?table, List.forall_mem_nil _⟩
  case table =>
    exact Field.of_keeps (RatingTable.reader_yields _) fun _ _ isTable _ =>
      Json.forall_eq_some isTable
  all_goals exact Field.of_keeps (Yields.any _ _) fun _ _ _ holds => holds

theorem Config.isTable_of_ofJson {source : String} {config : Config Float}
    (read : ofJson source = .ok config) :
    IsTable config.ratingTable.thresholds := by
  obtain ⟨rest, result⟩ := Json.of_parse (mapError_eq_ok_iff.mp read)
  have start : ConfigDraft.HoldsTable Config.record.empty := nofun
  obtain ⟨_, draft, holds, finishEq⟩ :=
    Record.yields start (ConfigDraft.holdsTable_kept _) _ config rest result
  cases finishEq
  change IsTable (draft.ratingTable.getD .standard).thresholds
  cases given : draft.ratingTable with
  | none => exact RatingTable.Obtained.standard.isTable
  | some table => exact holds table given

theorem Config.Obtained.isTable {config : Config Float} (obtained : config.Obtained) :
    IsTable config.ratingTable.thresholds := by
  cases obtained with
  | given ratingTable => exact ratingTable.isTable
  | decoded read => exact isTable_of_ofJson read

/-! ## Reports -/

/-- The rating, if there is one, is in the unit interval, and its class is the one of the table.
Without a rating, and only then, the class is "not rated". -/
structure Report.IsClassified (thresholds : List (RatingThreshold Float))
    (report : Report Float) : Prop where
  inUnit : ∀ rating, report.rating = some rating → Arith.inUnit rating = true
  notRated : report.rank = .notRated ↔ report.rating = none
  classOf : ∀ rating, report.rating = some rating → ClassOf thresholds rating report.rank

/-- A rating that passes for the rating of an interpretation has been bounded. -/
theorem within_of_boundRating {name : String} {given : Option Float} {rating : Float}
    (bounded : boundRating name given = .ok (some rating)) :
    Rounding.Within 0 1 rating := by
  cases given with
  | none => cases bounded
  | some value =>
      unfold boundRating at bounded
      by_cases isNaN : Arith.isNaN value = true
      · simp only [isNaN, if_true] at bounded
        cases bounded
      · simp only [isNaN] at bounded
        cases bounded
        exact Rounding.within_clampUnit (Bool.eq_false_iff.mpr isNaN)

theorem Interpretation.isClassified_of_report {config : Config Float} {catalog : Catalog Float}
    {interpretation : Interpretation Float} {data : PropertyData Float} {report : Report Float}
    (isTable : IsTable config.ratingTable.thresholds)
    (reported : interpretation.report config catalog data = .ok report) :
    report.IsClassified config.ratingTable.thresholds := by
  obtain ⟨given, _, reported⟩ := bind_eq_ok_iff.mp reported
  obtain ⟨rating, bounded, reported⟩ := bind_eq_ok_iff.mp reported
  cases reported
  cases rating with
  | none => exact ⟨nofun, ⟨fun _ => rfl, fun _ => rfl⟩, nofun⟩
  | some rating =>
      have within := within_of_boundRating bounded
      have isClass := RatingTable.classOf_classify isTable within.isFinite
      constructor
      · exact Json.forall_eq_some within.inUnit
      · exact ⟨fun notRated => absurd notRated (RatingTable.ne_notRated_of_classOf isTable isClass),
          nofun⟩
      · exact Json.forall_eq_some isClass

/-! ## Runs -/

namespace Engine

variable {engine : Engine} {report : Report Float}

theorem reload_config (engine : Engine) (now : Nat) :
    (engine.reload now).2.config = engine.config := by
  cases loaded : load engine.supply with
  | ok catalog => rw [reload_of_ok loaded]
  | error error => rw [reload_of_error loaded]

theorem refresh_config (engine : Engine) (now : Nat) :
    (engine.refresh now).config = engine.config := by
  by_cases stale : engine.isStale now = true
  · unfold refresh
    rw [if_pos stale]
    exact reload_config engine now
  · rw [refresh_of_fresh (Bool.eq_false_iff.mpr stale)]

theorem performUncached_config (engine : Engine) (now : Nat) (request : Request) :
    (engine.performUncached now request).2.config = engine.config := by
  cases request with
  | reload => exact reload_config engine now
  | clearCache | pruneCache | withSupply => rfl
  | _ => exact refresh_config engine now

variable (isTable : IsTable engine.config.ratingTable.thresholds)

include isTable

theorem isClassified_of_recompute
    {found : Except (AssessmentError Float) (Interpretation Float)} {data : PropertyData Float}
    (computed : engine.recompute found data = .ok report) :
    report.IsClassified engine.config.ratingTable.thresholds := by
  obtain ⟨interpretation, _, reported⟩ := bind_eq_ok_iff.mp computed
  exact Interpretation.isClassified_of_report isTable reported

theorem isClassified_of_performUncached {now : Nat} {request : Request}
    (answered : .ok report ∈ (engine.performUncached now request).1) :
    report.IsClassified engine.config.ratingTable.thresholds := by
  rw [← refresh_config engine now] at isTable ⊢
  cases request with
  | evaluate name data =>
      exact isClassified_of_recompute isTable (List.mem_singleton.mp answered).symm
  | evaluateById id data =>
      exact isClassified_of_recompute isTable (List.mem_singleton.mp answered).symm
  | evaluateBatch name records =>
      obtain ⟨data, _, computed⟩ := List.mem_map.mp answered
      exact isClassified_of_recompute isTable computed
  | _ => cases answered

theorem isClassified_of_runUncached {requests : List (Nat × Request)}
    {answers : List (Except (AssessmentError Float) (Report Float))}
    (asked : answers ∈ (engine.runUncached requests).1) (answered : .ok report ∈ answers) :
    report.IsClassified engine.config.ratingTable.thresholds := by
  induction requests generalizing engine with
  | nil => cases asked
  | cons first requests inductionHypothesis =>
      obtain ⟨now, request⟩ := first
      rcases List.mem_cons.mp asked with rfl | later
      · exact isClassified_of_performUncached isTable answered
      · rw [← performUncached_config engine now request] at isTable ⊢
        exact inductionHypothesis isTable later

omit isTable

/-- The thresholds that make a table are those that ascend, and in all that an engine with a table
is ever asked, the reports that it answers with are classified by it, kept or not. -/
theorem classified_of_create :
    (∀ (thresholds : List (RatingThreshold Float)) (table : RatingTable Float),
      RatingTable.ofThresholds thresholds = .ok table ↔ table = ⟨thresholds⟩ ∧ IsTable thresholds) ∧
    ∀ (supply : Supply) (config : Config Float) (now : Nat) (engine : Engine),
      config.Obtained → create supply config now = .ok engine →
      ∀ (requests : List (Nat × Request)), ∀ answers ∈ (engine.run requests).1,
        ∀ served, .ok served ∈ answers →
          served.report.IsClassified config.ratingTable.thresholds := by
  refine ⟨fun _ _ => RatingTable.ofThresholds_eq_ok_iff, ?_⟩
  intro supply config now engine obtained created requests answers asked served answered
  have configEq : engine.config = config := by
    obtain ⟨catalog, _, engineEq⟩ := bind_eq_ok_iff.mp created
    cases engineEq
    rfl
  have isTable := obtained.isTable
  rw [← configEq] at isTable ⊢
  have computed : .ok served.report ∈ answers.map (·.map Served.report) :=
    List.mem_map.mpr ⟨.ok served, answered, rfl⟩
  have recomputed : answers.map (·.map Served.report) ∈ (engine.runUncached requests).1 := by
    rw [← (transparent_of_create created requests).answers]
    exact List.mem_map_of_mem asked
  exact isClassified_of_runUncached isTable recomputed computed

/-- A steep site is rated twice, the second time from the cache, and then a site of unknown slope. -/
def siteRequests : List (Nat × Request) :=
  [(1, .evaluate "Site" ⟨[("slope", .number 5)], List.nodup_singleton _⟩),
    (2, .evaluate "Site" ⟨[("slope", .number 5)], List.nodup_singleton _⟩),
    (3, .evaluate "Site" .empty)]

theorem classified_site :
    ∃ config engine, Config.ofJson hourText = .ok config ∧
      create (.ok Catalog.siteData) config 0 = .ok engine ∧
      (engine.run siteRequests).1.map (·.map fun answer =>
          answer.toOption.map fun served => (served.serial, served.report.rank)) =
        [[some (0, .severe)], [some (0, .severe)], [some (1, .notRated)]] ∧
      ∀ answers ∈ (engine.run siteRequests).1, ∀ served, .ok served ∈ answers →
        served.report.IsClassified config.ratingTable.thresholds := by
  have ranks : ((Config.ofJson hourText).toOption.bind fun config =>
      (create (.ok Catalog.siteData) config 0).toOption.map fun engine =>
        (engine.run siteRequests).1.map (·.map fun answer =>
          answer.toOption.map fun served => (served.serial, served.report.rank))) =
      some [[some (0, .severe)], [some (0, .severe)], [some (1, .notRated)]] := by
    decide +kernel
  obtain ⟨config, configEq, ranks⟩ := Option.bind_eq_some_iff.mp ranks
  obtain ⟨engine, engineEq, ranks⟩ := Option.map_eq_some_iff.mp ranks
  have read := eq_ok_of_toOption configEq
  have created := eq_ok_of_toOption engineEq
  refine ⟨config, engine, read, created, ranks, ?_⟩
  exact classified_of_create.2 _ config 0 engine (.decoded read) created siteRequests

end Engine

end FuzzyRating
