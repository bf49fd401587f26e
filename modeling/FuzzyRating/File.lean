/-!
Files that are read as text, in a directory given by its contents. Paths may lead out of the
directory, but no file is found there.
-/

namespace FuzzyRating

/-- Why a file cannot be read as text. -/
inductive ReadFailure where
  | missing
  | notDirectory
  | isDirectory
  | nameTooLong
  | nulInName
  | notText
  /-- Another failure, in the words of the system. -/
  | other (reason : String)
  deriving DecidableEq, Repr

def ReadFailure.text : ReadFailure → String
  | missing => "No such file or directory (os error 2)"
  | notDirectory => "Not a directory (os error 20)"
  | isDirectory => "Is a directory (os error 21)"
  | nameTooLong => "File name too long (os error 36)"
  | nulInName => "file name contained an unexpected NUL byte"
  | notText => "stream did not contain valid UTF-8"
  | other reason => reason

/-- A file as it was read. -/
abbrev FileText :=
  Except ReadFailure String

def FileText.ofBytes (bytes : ByteArray) : FileText :=
  match String.fromUTF8? bytes with
  | some text => .ok text
  | none => .error .notText

/-- The files of a directory and its subdirectories, each with its path from there. -/
abbrev Directory :=
  List (List String × ByteArray)

/-- Where a path has led so far. What lies around the directory are directories of which nothing
else is known. -/
inductive Place where
  | inside (path : List String)
  | outside
  deriving DecidableEq, Repr

/-- The place around a place. -/
def Place.parent : Place → Place
  | inside [] => outside
  | inside path => inside path.dropLast
  | outside => outside

/-- How many bytes a name between slashes may have. -/
def longestName : Nat :=
  255

/-- How many bytes a path may have. -/
def longestPath : Nat :=
  4095

namespace Directory

/-- The parts of a path between slashes. -/
def parts (path : String) : List String :=
  (path.toList.splitOn '/').map String.ofList

def ofFiles (files : List (String × ByteArray)) : Directory :=
  files.map fun (path, bytes) => (parts path, bytes)

/-- Whether there is a directory at a place. -/
def isDirectory (directory : Directory) : Place → Bool
  | .inside path =>
      path.isEmpty ||
        directory.any fun (file, _) => path.length < file.length && path.isPrefixOf file
  | .outside => true

/-- The contents of the file at a place. -/
def file? (directory : Directory) : Place → Option ByteArray
  | .inside path => directory.lookup path
  | .outside => none

/-- Follows one part of a path from `place`, which has to be a directory. An empty part or a dot
stays there. -/
def step (directory : Directory) (place : Place) (part : String) : Except ReadFailure Place :=
  if directory.isDirectory place then
    if part = "" ∨ part = "." then .ok place
    else if part = ".." then .ok place.parent
    else if part.utf8ByteSize > longestName then .error .nameTooLong
    else
      match place with
      | .inside path => .ok (.inside (path ++ [part]))
      | .outside => .error .missing
  else if (directory.file? place).isSome then
    .error .notDirectory
  else
    .error .missing

/-- Where a path leads. With a slash in front it starts outside, else in the directory. -/
def follow (directory : Directory) (path : String) : Except ReadFailure Place :=
  (parts path).foldlM directory.step (if path.startsWith "/" then .outside else .inside [])

/-- The text of the file at a place. -/
def readAt (directory : Directory) (place : Place) : FileText :=
  match directory.file? place with
  | some bytes => .ofBytes bytes
  | none => .error (if directory.isDirectory place then .isDirectory else .missing)

/-- The text of the file that a path leads to. -/
def read (directory : Directory) (path : String) : FileText :=
  if path.contains '\x00' then
    .error .nulInName
  else if path.isEmpty then
    .error .missing
  else if path.utf8ByteSize > longestPath then
    .error .nameTooLong
  else do
    let place ← directory.follow path
    directory.readAt place

end Directory

end FuzzyRating
