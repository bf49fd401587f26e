import FuzzyRating.Proofs.Command.Files
import FuzzyRating.Proofs.Engine.Created
import Mathlib.Data.List.Forall2

/-!
A batch says about each subject what rating it alone says, and fails as a whole if one of its
subjects does. All subjects of a batch share an engine, and each rating alone has one of its own.
-/

namespace FuzzyRating

/-- The member of an object under a name. -/
def Json.Value.member? (name : String) : Json.Value → Option Json.Value
  | .object members => members.lookup name
  | _ => none

/-- A rating as a member that is left out when it is `null`. -/
def ratedMember : Json.Value → List (String × Json.Value)
  | .null => []
  | rating => [("rating", rating)]

/-- What rating a subject alone prints in JSON says the same as one object of a batch. -/
inductive SameVerdict (index : Nat) : Output → Json.Value → Prop
  | rated {report rating rank : Json.Value} (isRating : report.member? "rating" = some rating)
      (isClass : report.member? "ratingClass" = some rank) :
      SameVerdict index ⟨.success, report.pretty ++ "\n", ""⟩
        (.object ([("index", .natural index)] ++ ratedMember rating ++ [("ratingClass", rank)]))
  | failed {status : ExitStatus} {message : String} (failure : status.code ≠ 0) :
      SameVerdict index
        ⟨status, "", (Json.Value.object [("error", .text message)]).pretty ++ "\n"⟩
        (.object [("index", .natural index), ("error", .text message)])

/-! ## Rating alone -/

section Single

variable {around : Surroundings} {config : Config Float} {path : String} {engine : Engine}

theorem createdFrom_of_engine (opens : around.engine path config = .ok engine) :
    ∃ data, engine.CreatedFrom data config := by
  obtain ⟨data, _, creation⟩ := bind_eq_ok_iff.mp opens
  cases created : Engine.create (.ok data) config 0 with
  | error error =>
      rw [created] at creation
      cases creation
  | ok other =>
      rw [created] at creation
      cases creation
      exact ⟨data, Engine.createdFrom_of_create created⟩

/-- What is printed in JSON for a subject that is rated alone. -/
def singleOutput (clock : Option Timestamp) :
    Except (AssessmentError Float) (Report Float) → Output
  | .ok report => ⟨.success, (report.toJson clock).pretty ++ "\n", ""⟩
  | .error error => failedRating error true

theorem runEval_eq_ok {file interpretation : String} {subject : PropertyData Float}
    (opens : around.engine path config = .ok engine)
    (holds : around.contents file "property data" PropertyData.reader = .ok subject)
    (colored : Bool) :
    runEval around colored config path interpretation [] (some file) true =
      .ok (singleOutput around.clock (engine.recompute (engine.find interpretation) subject)) := by
  obtain ⟨data, new⟩ := createdFrom_of_engine opens
  have answered := new.evaluate interpretation subject 0
  have dataEq : around.data (some file) [] = .ok subject := by
    unfold Surroundings.data
    simp only [holds]
    rfl
  rw [← answered]
  unfold runEval
  rw [opens, dataEq]
  simp only [bind, Except.bind, if_true]
  split
  · next answer =>
      rw [answer]
      rfl
  · next answer =>
      rw [answer]
      rfl

theorem ratedMember_ofOption (rating : Option Float) :
    ratedMember (.ofOption .number rating) =
      Json.Value.optionalMember "rating" .number rating := by
  cases rating <;> rfl

theorem sameVerdict_single (clock : Option Timestamp) (index : Nat)
    (verdict : Except (AssessmentError Float) (Report Float)) :
    SameVerdict index (singleOutput clock verdict) (numberedJson index verdict) := by
  cases verdict with
  | error error =>
      apply SameVerdict.failed
      cases error <;> simp [AssessmentError.exitStatus, ExitStatus.code]
  | ok report =>
      have written : numberedJson index (.ok report) = .object
          ([("index", .natural index)] ++ ratedMember (.ofOption .number report.rating) ++
            [("ratingClass", .text report.rank.label)]) := by
        rw [ratedMember_ofOption]
        rfl
      rw [written]
      exact .rated rfl rfl

theorem code_singleOutput_eq_zero_iff (clock : Option Timestamp)
    (verdict : Except (AssessmentError Float) (Report Float)) :
    (singleOutput clock verdict).status.code = 0 ↔ verdict.toOption.isNone = false := by
  cases verdict with
  | error error => cases error <;> simp [singleOutput, failedRating, AssessmentError.exitStatus,
      ExitStatus.code, Except.toOption]
  | ok report => simp [singleOutput, ExitStatus.code, Except.toOption]

end Single

/-! ## Rating together -/

section Together

variable {around : Surroundings} {config : Config Float} {catalog interpretation records : String}
  {engine : Engine} {subjects : List (PropertyData Float)}

/-- The exit status of a batch with these verdicts. -/
def batchStatus (verdicts : List (Except (AssessmentError Float) (Report Float))) : ExitStatus :=
  if (verdicts.filter fun verdict => verdict.toOption.isNone).length = 0 then .success
  else .badData

theorem runBatch_eq_ok (opens : around.engine catalog config = .ok engine)
    (holds : around.contents records "records" (Json.listReader PropertyData.reader) = .ok subjects)
    (colored : Bool) :
    runBatch around colored config catalog interpretation records true =
      let verdicts := subjects.map (engine.recompute (engine.find interpretation))
      .ok ⟨batchStatus verdicts,
        (Json.Value.array (verdicts.mapIdx numberedJson)).pretty ++ "\n", ""⟩ := by
  obtain ⟨data, new⟩ := createdFrom_of_engine opens
  have answered := new.evaluateBatch interpretation subjects 0
  dsimp only
  rw [← answered]
  unfold runBatch
  rw [opens, holds]
  rfl

theorem code_batchStatus_eq_zero_iff
    (verdicts : List (Except (AssessmentError Float) (Report Float))) :
    (batchStatus verdicts).code = 0 ↔
      ∀ verdict ∈ verdicts, verdict.toOption.isNone = false := by
  unfold batchStatus
  simp only [List.length_eq_zero_iff, List.filter_eq_nil_iff, Bool.not_eq_true]
  split
  · next noneFailed => exact ⟨fun _ => noneFailed, fun _ => rfl⟩
  · next someFailed => exact ⟨nofun, fun all => absurd all someFailed⟩

theorem code_batchStatus_of_failed
    {verdicts : List (Except (AssessmentError Float) (Report Float))}
    (failed : (batchStatus verdicts).code ≠ 0) :
    (batchStatus verdicts).code = 65 := by
  unfold batchStatus at failed ⊢
  split
  · next noneFailed =>
      rw [if_pos noneFailed] at failed
      exact absurd rfl failed
  · rfl

/-- A file, in surroundings with the same catalog, that holds the data of one subject. -/
structure HoldsAlone (around : Surroundings) (catalog : String) (place : Surroundings × String)
    (subject : PropertyData Float) : Prop where
  catalog : place.1.read catalog = around.read catalog
  subject : place.1.contents place.2 "property data" PropertyData.reader = .ok subject

section

variable {places : List (Surroundings × String)}

/-- What is printed for each subject where it is rated alone. -/
def singleOutputs (engine : Engine) (interpretation : String)
    (places : List (Surroundings × String)) (subjects : List (PropertyData Float)) : List Output :=
  List.zipWith (fun place subject => singleOutput place.1.clock
    (engine.recompute (engine.find interpretation) subject)) places subjects

theorem runEval_singleOutputs (opens : around.engine catalog config = .ok engine)
    (apart : List.Forall₂ (HoldsAlone around catalog) places subjects) (colored : Bool) :
    List.Forall₂ (fun place single =>
      runEval place.1 colored config catalog interpretation [] (some place.2) true = .ok single)
      places (singleOutputs engine interpretation places subjects) := by
  induction apart with
  | nil => exact .nil
  | cons alone _ inductionHypothesis =>
      have opensAlone := (Surroundings.engine_congr alone.catalog config).trans opens
      exact .cons (runEval_eq_ok opensAlone alone.subject colored) inductionHypothesis

theorem sameVerdict_singleOutputs {index : Nat} {single : Output} {item : Json.Value}
    (isSingle : (singleOutputs engine interpretation places subjects)[index]? = some single)
    (isItem : ((subjects.map (engine.recompute (engine.find interpretation))).mapIdx
      numberedJson)[index]? = some item) :
    SameVerdict index single item := by
  obtain ⟨place, subject, _, isSubject, rfl⟩ := List.getElem?_zipWith_eq_some.mp isSingle
  rw [List.getElem?_mapIdx, List.getElem?_map, isSubject] at isItem
  cases isItem
  exact sameVerdict_single place.1.clock index _

theorem code_singleOutputs_eq_zero_iff
    (apart : List.Forall₂ (HoldsAlone around catalog) places subjects) :
    (∀ single ∈ singleOutputs engine interpretation places subjects, single.status.code = 0) ↔
      ∀ subject ∈ subjects,
        (engine.recompute (engine.find interpretation) subject).toOption.isNone = false := by
  induction apart with
  | nil => simp [singleOutputs]
  | cons _ _ inductionHypothesis =>
      rw [List.forall_mem_cons, ← inductionHypothesis, ← code_singleOutput_eq_zero_iff]
      exact List.forall_mem_cons

/-- A batch prints for each subject, in order, what rating it alone prints, and succeeds if all of
them succeed alone. What else the batch holds does not matter. -/
theorem runBatch_agrees (opens : around.engine catalog config = .ok engine)
    (holds : around.contents records "records" (Json.listReader PropertyData.reader) = .ok subjects)
    (apart : List.Forall₂ (HoldsAlone around catalog) places subjects)
    (interpretation : String) (colored : Bool) :
    ∃ status items singles,
      Task.run around colored config (.batch catalog interpretation records true) =
        .ok ⟨status, (Json.Value.array items).pretty ++ "\n", ""⟩ ∧
      List.Forall₂ (fun place single =>
        Task.run place.1 colored config (.eval catalog interpretation [] (some place.2) true) =
          .ok single) places singles ∧
      items.length = subjects.length ∧
      (∀ index single item, singles[index]? = some single → items[index]? = some item →
        SameVerdict index single item) ∧
      (status.code = 0 ↔ ∀ single ∈ singles, single.status.code = 0) ∧
      (status.code ≠ 0 → status.code = 65) := by
  refine ⟨_, _, singleOutputs engine interpretation places subjects,
    runBatch_eq_ok opens holds colored, runEval_singleOutputs opens apart colored, by simp,
    fun _ _ _ => sameVerdict_singleOutputs, ?_, code_batchStatus_of_failed⟩
  rw [code_batchStatus_eq_zero_iff, code_singleOutputs_eq_zero_iff apart, List.forall_mem_map]

end

end Together

/-! ## A hill -/

/-- A hill is rated by its slope. All entries are written as lists of their members. -/
def hillCatalog : String :=
  "[[[\"p1\",\"slope\"]],[[\"e1\",\"Steep\",\"slope\",\"fuzzy\",false,[[0,0],[10,1]]]]," ++
    "[[\"r1\",\"Hill\",[[\"Hill\"],[\" Slope\",null,null,\"Steep\"]]]]]"

/-- A slope, no slope, one that is no number, and the first one again. -/
def hillSubjects : List (PropertyData Float) :=
  [.ofList [("slope", .number 5)], .empty, .ofList [("slope", .text "steep")],
    .ofList [("slope", .number 5)]]

/-- The catalog, all records in one file, and files with one record each. -/
def hillFiles : List (String × String) :=
  ("catalog.json", hillCatalog) ::
    ("records.json", (Json.Value.array (hillSubjects.map PropertyData.toJson)).compact) ::
      ["first.json", "second.json", "third.json"].zip
        (hillSubjects.map (·.toJson.compact))

def hillSurroundings : Surroundings where
  configPath := none
  read path := ((hillFiles.lookup path).map .ok).getD (.error .missing)
  terminal := false
  clock := none

private theorem eq_ok_of_entries {alpha : Type} {outcome : Except LoadFailure alpha} {value : alpha}
    {entries : alpha → List (List (String × PropertyValue Float))}
    (injective : Function.Injective entries)
    (sameEntries : outcome.toOption.map entries = some (entries value)) :
    outcome = .ok value := by
  obtain ⟨other, isSome, same⟩ := Option.map_eq_some_iff.mp sameEntries
  rw [eq_ok_of_toOption isSome, injective same]

/-- The third record fails, here and alone, and the others are rated. -/
theorem runBatch_agrees_hill :
    ∃ engine, hillSurroundings.engine "catalog.json" .standard = .ok engine ∧
      hillSurroundings.contents "records.json" "records" (Json.listReader PropertyData.reader) =
        .ok hillSubjects ∧
      ∃ places, places.map Prod.snd = ["first.json", "second.json", "third.json", "first.json"] ∧
        List.Forall₂ (HoldsAlone hillSurroundings "catalog.json") places hillSubjects ∧
        ∃ status items singles,
          Task.run hillSurroundings false .standard (.batch "catalog.json" "Hill" "records.json" true) =
            .ok ⟨status, (Json.Value.array items).pretty ++ "\n", ""⟩ ∧
          List.Forall₂ (fun place single =>
            Task.run place.1 false .standard
              (.eval "catalog.json" "Hill" [] (some place.2) true) = .ok single) places singles ∧
          items.length = hillSubjects.length ∧
          (∀ index single item, singles[index]? = some single → items[index]? = some item →
            SameVerdict index single item) ∧
          (status.code = 0 ↔ ∀ single ∈ singles, single.status.code = 0) ∧
          (status.code ≠ 0 → status.code = 65) := by
  have entriesInjective :
      Function.Injective (PropertyData.entries : PropertyData Float → _) := by
    rintro ⟨entries, _⟩ ⟨_, _⟩ rfl
    rfl
  have opens : (hillSurroundings.engine "catalog.json" .standard).toOption.isSome = true := by
    decide +kernel
  obtain ⟨engine, engineSome⟩ := Option.isSome_iff_exists.mp opens
  have opened := eq_ok_of_toOption engineSome
  have holds : hillSurroundings.contents "records.json" "records"
      (Json.listReader PropertyData.reader) = .ok hillSubjects :=
    eq_ok_of_entries (List.map_injective_iff.mpr entriesInjective) (by decide +kernel)
  have alone {file : String} {subject : PropertyData Float}
      (entries : (hillSurroundings.contents file "property data"
        PropertyData.reader).toOption.map (fun data => [data.entries]) = some [subject.entries]) :
      HoldsAlone hillSurroundings "catalog.json" (hillSurroundings, file) subject :=
    ⟨rfl, eq_ok_of_entries (fun _ _ same => entriesInjective (by simpa using same)) entries⟩
  have apart : List.Forall₂ (HoldsAlone hillSurroundings "catalog.json")
      (["first.json", "second.json", "third.json", "first.json"].map fun file =>
        (hillSurroundings, file)) hillSubjects :=
    .cons (alone (by decide +kernel)) (.cons (alone (by decide +kernel))
      (.cons (alone (by decide +kernel)) (.cons (alone (by decide +kernel)) .nil)))
  exact ⟨engine, opened, holds, _, rfl, apart, runBatch_agrees opened holds apart "Hill" false⟩

end FuzzyRating
