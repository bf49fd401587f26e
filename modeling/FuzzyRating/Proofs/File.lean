import FuzzyRating.File
import FuzzyRating.Proofs.Except
import FuzzyRating.Proofs.Keyed
import Mathlib.Data.List.Basic

/-!
Where paths lead in a directory. Only its files are read, each is found under its own path, and
files that are added later leave what was read before as it was.
-/

namespace FuzzyRating.Directory

variable {directory : Directory} {place next : Place} {location names : List String}
  {part path text : String} {bytes : ByteArray}

/-! ## What is read -/

theorem ofBytes_eq_ok_iff : FileText.ofBytes bytes = .ok text ↔ bytes = text.toUTF8 := by
  unfold FileText.ofBytes String.fromUTF8?
  constructor
  · intro decoded
    by_cases valid : bytes.IsValidUTF8
    · rw [dif_pos valid] at decoded
      cases decoded
      rfl
    · rw [dif_neg valid] at decoded
      cases decoded
  · intro isText
    have valid : bytes.IsValidUTF8 := isText ▸ text.isValidUTF8
    rw [dif_pos valid]
    subst isText
    rfl

theorem readAt_of_file (found : directory.file? place = some bytes) :
    directory.readAt place = .ofBytes bytes := by
  unfold readAt
  rw [found]

theorem readAt_eq_ok_iff :
    directory.readAt place = .ok text ↔ directory.file? place = some text.toUTF8 := by
  unfold readAt
  cases directory.file? place with
  | some bytes =>
      rw [Option.some_inj]
      exact ofBytes_eq_ok_iff
  | none => exact ⟨nofun, nofun⟩

/-- Paths that are looked up at all. -/
structure IsPath (path : String) : Prop where
  nonempty : path ≠ ""
  withoutNul : '\x00' ∉ path.toList
  fits : path.utf8ByteSize ≤ longestPath

theorem read_of_isPath (isPath : IsPath path) :
    directory.read path = directory.follow path >>= directory.readAt := by
  have withoutNul : ¬path.contains '\x00' = true := by
    simpa [String.contains_char_eq] using isPath.withoutNul
  have nonempty : ¬path.isEmpty = true := by
    simpa using isPath.nonempty
  unfold read
  rw [if_neg withoutNul, if_neg nonempty, if_neg (Nat.not_lt.mpr isPath.fits)]

theorem isPath_of_read (read : directory.read path = .ok text) : IsPath path := by
  unfold Directory.read at read
  by_cases withNul : path.contains '\x00' = true
  · rw [if_pos withNul] at read
    cases read
  · by_cases isEmpty : path.isEmpty = true
    · rw [if_neg withNul, if_pos isEmpty] at read
      cases read
    · by_cases isLong : path.utf8ByteSize > longestPath
      · rw [if_neg withNul, if_neg isEmpty, if_pos isLong] at read
        cases read
      · rw [String.contains_char_eq, decide_eq_true_iff] at withNul
        exact ⟨by simpa using isEmpty, withNul, Nat.not_lt.mp isLong⟩

/-- A path is read if it leads to a file that holds a text. -/
theorem read_eq_ok_iff : directory.read path = .ok text ↔ IsPath path ∧
    ∃ place, directory.follow path = .ok place ∧ directory.file? place = some text.toUTF8 := by
  constructor
  · intro read
    have isPath := isPath_of_read read
    rw [read_of_isPath isPath] at read
    obtain ⟨place, led, readAt⟩ := bind_eq_ok_iff.mp read
    exact ⟨isPath, place, led, readAt_eq_ok_iff.mp readAt⟩
  · intro ⟨isPath, place, led, found⟩
    rw [read_of_isPath isPath]
    exact bind_eq_ok_iff.mpr ⟨place, led, readAt_eq_ok_iff.mpr found⟩

/-- Nothing but the files of the directory is read, wherever the path leads. -/
theorem exists_file_of_read (read : directory.read path = .ok text) :
    ∃ location, (location, text.toUTF8) ∈ directory := by
  obtain ⟨_, place, _, found⟩ := read_eq_ok_iff.mp read
  cases place with
  | inside location => exact ⟨location, mem_of_lookup found⟩
  | outside => cases found

/-! ## Files under their own paths -/

/-- A part of a path that is looked up as it stands. -/
structure IsName (part : String) : Prop where
  nonempty : part ≠ ""
  notHere : part ≠ "."
  notAround : part ≠ ".."
  fits : part.utf8ByteSize ≤ longestName

theorem step_of_isName (isDirectory : directory.isDirectory (.inside location) = true)
    (isName : IsName part) :
    directory.step (.inside location) part = .ok (.inside (location ++ [part])) := by
  unfold step
  rw [if_pos isDirectory, if_neg (not_or_intro isName.nonempty isName.notHere),
    if_neg isName.notAround, if_neg (Nat.not_lt.mpr isName.fits)]

/-- The places on the way to a file are directories. -/
theorem isDirectory_above (listed : (location ++ part :: names, bytes) ∈ directory) :
    directory.isDirectory (.inside location) = true := by
  have isAbove : (location.length < (location ++ part :: names).length &&
      location.isPrefixOf (location ++ part :: names)) = true := by
    have isPrefix := List.isPrefixOf_iff_prefix.mpr (List.prefix_append location (part :: names))
    simp [isPrefix]
  exact (Bool.or_eq_true _ _).mpr (.inr (List.any_eq_true.mpr ⟨_, listed, isAbove⟩))

theorem foldlM_step_names (areNames : ∀ name ∈ names, IsName name)
    (listed : (location ++ names, bytes) ∈ directory) :
    names.foldlM directory.step (.inside location) = .ok (.inside (location ++ names)) := by
  induction names generalizing location with
  | nil =>
      rw [List.append_nil]
      rfl
  | cons name names inductionHypothesis =>
      have isDirectory := isDirectory_above listed
      have isName := areNames name List.mem_cons_self
      have later := fun other isLater => areNames other (List.mem_cons_of_mem name isLater)
      have split : location ++ name :: names = (location ++ [name]) ++ names :=
        List.append_cons location name names
      rw [split] at listed ⊢
      rw [List.foldlM_cons, step_of_isName isDirectory isName]
      exact inductionHypothesis later listed

theorem parts_injective : Function.Injective parts := by
  intro path other sameParts
  have ofListInjective : Function.Injective String.ofList := fun _ _ => String.ofList_injective
  have sameLists := List.map_injective_iff.mpr ofListInjective sameParts
  have joined (text : String) : ['/'].intercalate (text.toList.splitOn '/') = text.toList :=
    List.intercalate_splitOn '/'
  apply String.toList_injective
  rw [← joined path, sameLists, joined other]

theorem lookup_ofFiles (files : List (String × ByteArray)) (path : String) :
    (ofFiles files).lookup (parts path) = files.lookup path := by
  induction files with
  | nil => rfl
  | cons file files inductionHypothesis =>
      obtain ⟨other, bytes⟩ := file
      change List.lookup (parts path) ((parts other, bytes) :: ofFiles files) = _
      rw [List.lookup_cons, List.lookup_cons, inductionHypothesis]
      by_cases same : path = other
      · rw [same, beq_self_eq_true, beq_self_eq_true]
      · rw [beq_false_of_ne same, beq_false_of_ne (parts_injective.ne same)]

/-- A path with a slash in front has an empty part. -/
theorem startsWith_slash_eq_false (areNames : ∀ name ∈ parts path, IsName name) :
    path.startsWith "/" = false := by
  rw [String.startsWith_string_eq_false_iff]
  intro ⟨rest, split⟩
  have isPart : "" ∈ parts path := by
    unfold parts
    rw [← split]
    exact List.mem_cons_self
  exact (areNames "" isPart).nonempty rfl

/-- Paths of which every part is a name. -/
structure IsPlain (path : String) : Prop extends IsPath path where
  names : ∀ name ∈ parts path, IsName name

/-- A file at a plain path is read there. -/
theorem read_ofFiles {files : List (String × ByteArray)} (plain : IsPlain path)
    (listed : files.lookup path = some bytes) : (ofFiles files).read path = .ofBytes bytes := by
  have found : (ofFiles files).lookup ([] ++ parts path) = some bytes :=
    (lookup_ofFiles files path).trans listed
  have led := foldlM_step_names plain.names (mem_of_lookup found)
  rw [read_of_isPath plain.toIsPath]
  unfold follow
  rw [startsWith_slash_eq_false plain.names, if_neg Bool.false_ne_true, led]
  exact readAt_of_file found

example (bytes : ByteArray) :
    (ofFiles [("site/catalog.json", bytes)]).read "site/catalog.json" = .ofBytes bytes := by
  have site : IsName "site" := ⟨by decide, by decide, by decide, by decide⟩
  have catalog : IsName "catalog.json" := ⟨by decide, by decide, by decide, by decide⟩
  have names : ∀ name ∈ ["site", "catalog.json"], IsName name :=
    List.forall_mem_cons.mpr ⟨site, List.forall_mem_singleton.mpr catalog⟩
  have plain : IsPlain "site/catalog.json" := ⟨⟨by decide, by decide, by decide⟩, names⟩
  exact read_ofFiles plain rfl

/-! ## Files that are added -/

section

variable (more : Directory)

theorem isDirectory_append (isDirectory : directory.isDirectory place = true) :
    Directory.isDirectory (directory ++ more) place = true := by
  cases place with
  | outside => rfl
  | inside location =>
      change (location.isEmpty || (directory ++ more).any _) = true
      rw [List.any_append, ← Bool.or_assoc]
      exact (Bool.or_eq_true _ _).mpr (.inl isDirectory)

theorem file?_append (found : directory.file? place = some bytes) :
    file? (directory ++ more) place = some bytes := by
  cases place with
  | outside => cases found
  | inside location =>
      change List.lookup location (directory ++ more) = some bytes
      change List.lookup location directory = some bytes at found
      rw [List.lookup_append, found, Option.some_or]

theorem step_append (stepped : directory.step place part = .ok next) :
    step (directory ++ more) place part = .ok next := by
  unfold step at stepped ⊢
  by_cases isDirectory : directory.isDirectory place = true
  · rw [if_pos isDirectory] at stepped
    rw [if_pos (isDirectory_append more isDirectory)]
    exact stepped
  · rw [if_neg isDirectory] at stepped
    by_cases isFile : (directory.file? place).isSome = true
    · rw [if_pos isFile] at stepped
      cases stepped
    · rw [if_neg isFile] at stepped
      cases stepped

theorem foldlM_step_append {parts : List String}
    (led : parts.foldlM directory.step place = .ok next) :
    parts.foldlM (step (directory ++ more)) place = .ok next := by
  induction parts generalizing place with
  | nil => exact led
  | cons part parts inductionHypothesis =>
      rw [List.foldlM_cons] at led ⊢
      obtain ⟨middle, stepped, later⟩ := bind_eq_ok_iff.mp led
      exact bind_eq_ok_iff.mpr ⟨middle, step_append more stepped, inductionHypothesis later⟩

/-- What is read stays the same if files are added behind those that are there. -/
theorem read_append (wasRead : directory.read path = .ok text) :
    read (directory ++ more) path = .ok text := by
  obtain ⟨isPath, place, led, found⟩ := read_eq_ok_iff.mp wasRead
  exact read_eq_ok_iff.mpr ⟨isPath, place, foldlM_step_append more led, file?_append more found⟩

end

end FuzzyRating.Directory
