import FuzzyRating.Command.Run
import FuzzyRating.Proofs.File

/-!
The files that a run reads. It depends on no files but those that its arguments name, so they may be
read in advance, and in a directory other files may be added.
-/

namespace FuzzyRating

namespace Surroundings

/-- Surroundings that differ in nothing but files at other paths. -/
structure AlikeAt (paths : List String) (around other : Surroundings) : Prop where
  configPath : around.configPath = other.configPath
  terminal : around.terminal = other.terminal
  clock : around.clock = other.clock
  read : ∀ path ∈ paths, around.read path = other.read path

section

variable {around other : Surroundings} {path : String}
  (sameFile : around.read path = other.read path)

include sameFile

theorem text_congr : around.text path = other.text path := by
  unfold text
  rw [sameFile]

theorem contents_congr {alpha : Type} (kind : String) (reader : Json.Reader alpha) :
    around.contents path kind reader = other.contents path kind reader := by
  unfold contents
  rw [text_congr sameFile]

theorem catalogData_congr : around.catalogData path = other.catalogData path := by
  unfold catalogData
  rw [text_congr sameFile]

theorem catalog_congr : around.catalog path = other.catalog path := by
  unfold catalog
  rw [catalogData_congr sameFile]

theorem engine_congr (config : Config Float) :
    around.engine path config = other.engine path config := by
  unfold engine
  rw [catalogData_congr sameFile]

end

section

variable {around other : Surroundings} {path : Option String}
  (sameFile : ∀ file ∈ path, around.read file = other.read file)

include sameFile

theorem config_congr : around.config path = other.config path := by
  cases path with
  | none => rfl
  | some file =>
      unfold config
      dsimp only
      rw [text_congr (sameFile file rfl)]

theorem data_congr (properties : List (String × String)) :
    around.data path properties = other.data path properties := by
  cases path with
  | none => rfl
  | some file =>
      unfold data
      dsimp only
      rw [contents_congr (sameFile file rfl)]

end

end Surroundings

section

variable {around other : Surroundings}

theorem runCheck_congr {files : List String}
    (sameFiles : ∀ file ∈ files, around.read file = other.read file) (colored json : Bool) :
    runCheck around colored files json = runCheck other colored files json := by
  have checked : (files.map fun file => (file, around.catalog file)) =
      files.map fun file => (file, other.catalog file) := by
    apply List.map_congr_left
    intro file named
    rw [Surroundings.catalog_congr (sameFiles file named)]
  unfold runCheck
  rw [checked]

/-- A task reads no files but its own. -/
theorem Task.run_congr {task : Task} (alike : around.AlikeAt task.paths other) (colored : Bool)
    (config : Config Float) : task.run around colored config = task.run other colored config := by
  cases task with
  | check files json => exact congrArg Except.ok (runCheck_congr alike.read colored json)
  | eval catalog interpretation properties data json =>
      have sameCatalog := alike.read catalog List.mem_cons_self
      have sameData : ∀ file ∈ data, around.read file = other.read file := by
        intro file isData
        exact alike.read file (List.mem_cons_of_mem catalog (Option.mem_toList.mpr isData))
      change runEval _ _ _ _ _ _ _ _ = runEval _ _ _ _ _ _ _ _
      unfold runEval
      rw [Surroundings.engine_congr sameCatalog, Surroundings.data_congr sameData, alike.clock]
  | batch catalog interpretation records json =>
      have sameCatalog := alike.read catalog List.mem_cons_self
      have sameRecords := alike.read records (List.mem_cons_of_mem catalog List.mem_cons_self)
      change runBatch _ _ _ _ _ _ _ = runBatch _ _ _ _ _ _ _
      unfold runBatch
      rw [Surroundings.engine_congr sameCatalog, Surroundings.contents_congr sameRecords]
  | tree catalog interpretation =>
      have sameCatalog := alike.read catalog List.mem_cons_self
      change runTree _ _ _ _ = runTree _ _ _ _
      unfold runTree
      rw [Surroundings.engine_congr sameCatalog]

theorem Invocation.run_congr {invocation : Invocation}
    (alike : around.AlikeAt (invocation.config.toList ++ invocation.task.paths) other) :
    invocation.run around = invocation.run other := by
  have sameConfig : ∀ file ∈ invocation.config, around.read file = other.read file := by
    intro file isConfig
    exact alike.read file (List.mem_append_left _ (Option.mem_toList.mpr isConfig))
  have taskAlike : around.AlikeAt invocation.task.paths other :=
    { alike with read := fun file named => alike.read file (List.mem_append_right _ named) }
  unfold Invocation.run
  rw [Surroundings.config_congr sameConfig, alike.terminal]
  simp only [Task.run_congr taskAlike]

/-- A run does not depend on files that its arguments do not name. -/
theorem runProgram_congr {arguments : List String}
    (alike : around.AlikeAt (namedPaths around.configPath arguments) other) :
    runProgram around arguments = runProgram other arguments := by
  unfold runProgram
  rw [← alike.configPath]
  unfold namedPaths at alike
  cases requested : Request.ofArguments around.configPath arguments with
  | error error => rfl
  | ok request =>
      rw [requested] at alike
      cases request with
      | tell notice => rfl
      | run invocation =>
          dsimp only
          rw [Invocation.run_congr alike]

end

/-- The files may be read before anything is done. -/
theorem runProgram_withFiles (around : Surroundings) (arguments : List String) :
    runProgram (around.withFiles ((namedPaths around.configPath arguments).map fun path =>
      (path, around.read path))) arguments = runProgram around arguments := by
  symm
  apply runProgram_congr
  refine ⟨rfl, rfl, rfl, ?_⟩
  intro path named
  change _ = (List.lookup path _).getD _
  rw [List.lookup_graph around.read named]
  rfl

section

variable {configPath : Option String} {arguments : List String}

theorem runProgram_inDirectory_congr {directory other : Directory}
    (sameFiles : ∀ path ∈ namedPaths configPath arguments, directory.read path = other.read path) :
    runProgram (.inDirectory directory configPath) arguments =
      runProgram (.inDirectory other configPath) arguments := by
  apply runProgram_congr
  exact ⟨rfl, rfl, rfl, sameFiles⟩

/-- Files that are added to a directory do not change a run whose files were all there. -/
theorem runProgram_append {directory : Directory}
    (readable : ∀ path ∈ namedPaths configPath arguments, ∃ text, directory.read path = .ok text)
    (more : Directory) :
    runProgram (.inDirectory (directory ++ more) configPath) arguments =
      runProgram (.inDirectory directory configPath) arguments := by
  apply runProgram_inDirectory_congr
  intro path named
  obtain ⟨text, wasRead⟩ := readable path named
  rw [wasRead]
  exact Directory.read_append more wasRead

/-- Where all files that are named lie at plain paths, nothing else in the directory matters. -/
theorem runProgram_ofFiles {files others : List (String × ByteArray)}
    (plain : ∀ path ∈ namedPaths configPath arguments, Directory.IsPlain path)
    (sameFiles : ∀ path ∈ namedPaths configPath arguments,
      ∃ bytes, files.lookup path = some bytes ∧ others.lookup path = some bytes) :
    runProgram (.inDirectory (.ofFiles files) configPath) arguments =
      runProgram (.inDirectory (.ofFiles others) configPath) arguments := by
  apply runProgram_inDirectory_congr
  intro path named
  obtain ⟨bytes, inFiles, inOthers⟩ := sameFiles path named
  have isPlain := plain path named
  rw [Directory.read_ofFiles isPlain inFiles, Directory.read_ofFiles isPlain inOthers]

end

end FuzzyRating
