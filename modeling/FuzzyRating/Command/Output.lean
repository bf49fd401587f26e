import FuzzyRating.ConfigurationError
import FuzzyRating.File

/-!
What the program leaves behind: two texts and an exit status.
-/

namespace FuzzyRating

/-- How the program ends. -/
inductive ExitStatus where
  | success
  /-- The command line is wrong. -/
  | misuse
  /-- Something was asked for that does not exist. -/
  | unknownName
  /-- The data are wrong. -/
  | badData
  /-- The catalog or the configuration cannot be used. -/
  | broken
  deriving DecidableEq, Repr

def ExitStatus.code : ExitStatus → Nat
  | success => 0
  | misuse => 2
  | unknownName => 64
  | badData => 65
  | broken => 70

structure Output where
  status : ExitStatus
  stdout : String
  stderr : String
  deriving Repr

/-- Why a file cannot be used. -/
inductive LoadFailure where
  | unreadable (path : String) (failure : ReadFailure)
  | malformed (error : Json.Error)
  | invalid (path : String) (error : ConfigurationError Float)
  /-- The file does not hold the data that it should. -/
  | unfit (path content : String) (error : Json.Error)

namespace LoadFailure

def ofConfiguration (path : String) : ConfigurationError Float → LoadFailure
  | .json _ error => malformed error
  | error => invalid path error

def summary : LoadFailure → String
  | unreadable path _ => "Failed to read " ++ path
  | malformed error =>
      error.complaint.message ++ " (line " ++ toString error.line ++ ", column " ++
        toString error.column ++ ")"
  | invalid path error => path ++ ": " ++ error.message
  | unfit path content error => path ++ ": invalid " ++ content ++ ": " ++ error.message

/-- What is added below the summary. -/
def remarks : LoadFailure → List String
  | unreadable _ failure => ["  ╰─▶ " ++ failure.text]
  | malformed ⟨.missingField _, _, _⟩ =>
      ["  help: every catalog entry needs an `id` and a `name`"]
  | _ => []

/-- The failure as it is reported to users. -/
def report (failure : LoadFailure) : String :=
  String.join ((("  × " ++ failure.summary) :: failure.remarks).map (· ++ "\n"))

end LoadFailure

/-- Ways to set off a text. -/
inductive Style where
  | green
  | yellow
  | red
  | brightRed
  | dimmed
  | bold
  deriving DecidableEq, Repr

/-- The codes that turn a style on and off. -/
def Style.codes : Style → String × String
  | green => ("32", "39")
  | yellow => ("33", "39")
  | red => ("31", "39")
  | brightRed => ("91", "39")
  | dimmed => ("2", "0")
  | bold => ("1", "0")

/-- A text in a style, if output is colored. -/
def Style.paint (style : Style) (colored : Bool) (text : String) : String :=
  if colored then
    let (on, off) := style.codes
    "\x1b[" ++ on ++ "m" ++ text ++ "\x1b[" ++ off ++ "m"
  else
    text

end FuzzyRating
