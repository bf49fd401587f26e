import FuzzyRating.Command.Invocation
import FuzzyRating.Command.Listing
import FuzzyRating.Engine

/-!
Carrying out what a command line asks for.
-/

namespace FuzzyRating

/-- What the program finds around it. -/
structure Surroundings where
  /-- The path of the configuration according to the environment. -/
  configPath : Option String
  read : String → FileText
  /-- Whether output goes to a terminal. -/
  terminal : Bool
  /-- The time, if results are to show it. -/
  clock : Option Timestamp

def ColorChoice.isColored (choice : ColorChoice) (terminal : Bool) : Bool :=
  match choice with
  | auto => terminal
  | always => true
  | never => false

namespace Surroundings

/-- What a program finds that runs in a directory, with its output kept. -/
def inDirectory (directory : Directory) (configPath : Option String) : Surroundings where
  configPath
  read := directory.read
  terminal := false
  clock := none

/-- The surroundings with no files but these, which have been read. -/
def withFiles (around : Surroundings) (files : List (String × FileText)) : Surroundings :=
  { around with read := fun path => (files.lookup path).getD (.error .missing) }

/-- The text of a file. -/
def text (around : Surroundings) (path : String) : Except LoadFailure String :=
  (around.read path).mapError (.unreadable path)

/-- The contents of a file that holds data of a kind. -/
def contents {alpha : Type} (around : Surroundings) (path kind : String)
    (reader : Json.Reader alpha) : Except LoadFailure alpha := do
  let text ← around.text path
  (Json.parse reader text).mapError (.unfit path kind)

/-- The configuration in a file, or the standard one. -/
def config (around : Surroundings) : Option String → Except LoadFailure (Config Float)
  | none => .ok .standard
  | some path => do
      let text ← around.text path
      (Config.ofJson text).mapError (.ofConfiguration path)

def catalogData (around : Surroundings) (path : String) :
    Except LoadFailure (CatalogData Float) := do
  let text ← around.text path
  (CatalogData.ofJson path text).mapError (.ofConfiguration path)

/-- The catalog in a file. -/
def catalog (around : Surroundings) (path : String) : Except LoadFailure (Catalog Float) := do
  let data ← around.catalogData path
  (Catalog.build data).mapError (.ofConfiguration path)

/-- An engine on the catalog in a file. -/
def engine (around : Surroundings) (path : String) (config : Config Float) :
    Except LoadFailure Engine := do
  let data ← around.catalogData path
  (Engine.create (.ok data) config 0).mapError (.ofConfiguration path)

end Surroundings

def AssessmentError.exitStatus {num : Type} : AssessmentError num → ExitStatus
  | invalidData _ _ _ => .badData
  | notFound _ _ => .unknownName
  | failed _ _ => .broken

/-! ## Checking catalogs -/

abbrev CheckedFile :=
  String × Except LoadFailure (Catalog Float)

def CheckedFile.toJson (checked : CheckedFile) : Json.Value :=
  let (file, result) := checked
  let catalog := match result with
    | .ok catalog => catalog
    | .error _ => .empty
  let problem := match result with
    | .ok _ => none
    | .error failure => some failure.summary
  .object <|
    [("file", .text file), ("valid", .bool problem.isNone),
      ("interpretations", .natural catalog.interpretations.length),
      ("evaluations", .natural catalog.evaluations.length),
      ("properties", .natural catalog.properties.length)] ++
      Json.Value.optionalMember "error" .text problem

def CheckedFile.line (colored : Bool) (checked : CheckedFile) : String :=
  match checked with
  | (file, .ok catalog) =>
      Style.green.paint colored "✓" ++ " " ++ file ++ ": " ++
        toString catalog.interpretations.length ++ " interpretations, " ++
        toString catalog.evaluations.length ++ " evaluations, " ++
        toString catalog.properties.length ++ " properties\n"
  | (file, .error _) => Style.red.paint colored "✗" ++ " " ++ file ++ "\n"

def CheckedFile.complaint (checked : CheckedFile) : String :=
  match checked.2 with
  | .ok _ => ""
  | .error failure => failure.report

/-- Checks every file, also after a failure. -/
def runCheck (around : Surroundings) (colored : Bool) (files : List String) (json : Bool) :
    Output :=
  let checked : List CheckedFile := files.map fun file => (file, around.catalog file)
  let failed := (checked.filter fun file => file.2.toOption.isNone).length
  let status := if failed = 0 then ExitStatus.success else .badData
  if json then
    ⟨status, (Json.Value.array (checked.map CheckedFile.toJson)).pretty ++ "\n", ""⟩
  else
    let total :=
      if checked.length ≤ 1 then ""
      else "\n" ++ toString checked.length ++ " checked, " ++
        Style.bold.paint colored (toString failed) ++ " failed\n"
    ⟨status, String.join (checked.map (CheckedFile.line colored)) ++ total,
      String.join (checked.map CheckedFile.complaint)⟩

/-! ## Rating -/

/-- A value given on the command line: a finite number, `null` in any case, or else a text. -/
def PropertyValue.ofArgument (text : String) : PropertyValue Float :=
  if Text.lowerAscii text = "null" then
    .null
  else
    match (Decimal.ofText? text.toList).map Decimal.toFloat with
    | some value => if value.isFinite then .number value else .text text
    | none => .text text

/-- The data in a file, with what the command line says put in their place. -/
def Surroundings.data (around : Surroundings) (path : Option String)
    (properties : List (String × String)) : Except LoadFailure (PropertyData Float) := do
  let data ← match path with
    | some path => around.contents path "property data" PropertyData.reader
    | none => .ok .empty
  return properties.foldl (fun data (name, text) => data.insert name (.ofArgument text)) data

def failedRating (error : AssessmentError Float) (json : Bool) : Output :=
  let stderr :=
    if json then (Json.Value.object [("error", .text error.message)]).pretty
    else "Evaluation error: " ++ error.message
  ⟨error.exitStatus, "", stderr ++ "\n"⟩

/-- A report as text: the rating, the nodes, and the values if there are any. -/
def Report.text (report : Report Float) (roots : List (RuleTree Float)) (colored : Bool) :
    String :=
  let nodes := (Table.ofNodes roots report.nodes).render ++ "\n"
  let values :=
    if report.values.isEmpty then "" else (Table.ofValues report.values).render ++ "\n"
  report.interpretation ++ ": " ++ ratingText report.rating ++ " (" ++
    report.rank.painted colored ++ ")\n" ++ nodes ++ values

def runEval (around : Surroundings) (colored : Bool) (config : Config Float)
    (catalog interpretation : String) (properties : List (String × String))
    (data : Option String) (json : Bool) : Except LoadFailure Output := do
  let engine ← around.engine catalog config
  let data ← around.data data properties
  match engine.evaluate interpretation data 0 with
  | (.error error, _) => return failedRating error json
  | (.ok served, engine) =>
      if json then
        return ⟨.success, (served.report.toJson around.clock).pretty ++ "\n", ""⟩
      match engine.ruleTree interpretation 0 with
      | (.error error, _) => return failedRating error json
      | (.ok roots, _) => return ⟨.success, served.report.text roots colored, ""⟩

/-- The rating of a numbered subject. -/
def numberedJson (index : Nat) :
    Except (AssessmentError Float) (Report Float) → Json.Value
  | .ok report =>
      .object <| [("index", .natural index)] ++
        Json.Value.optionalMember "rating" .number report.rating ++
        [("ratingClass", .text report.rank.label)]
  | .error error => .object [("index", .natural index), ("error", .text error.message)]

/-- Rates several subjects. A failure is reported in its place. -/
def runBatch (around : Surroundings) (colored : Bool) (config : Config Float)
    (catalog interpretation records : String) (json : Bool) : Except LoadFailure Output := do
  let engine ← around.engine catalog config
  let records ← around.contents records "records" (Json.listReader PropertyData.reader)
  let (answers, _) := engine.evaluateBatch interpretation records 0
  let results := answers.map fun answer => answer.map Served.report
  let failed := (results.filter fun result => result.toOption.isNone).length
  let status := if failed = 0 then ExitStatus.success else .badData
  if json then
    return ⟨status, (Json.Value.array (results.mapIdx numberedJson)).pretty ++ "\n", ""⟩
  else
    return ⟨status, (Table.ofRatings colored results).render ++ "\n\n" ++
      toString results.length ++ " records, " ++ toString failed ++ " failed\n", ""⟩

/-! ## Showing rules -/

/-- The outline of an interpretation and the properties that it reads. -/
def showRule (engine : Engine) (name : String) : Output :=
  let (roots, engine) := engine.ruleTree name 0
  let (required, _) := engine.requiredProperties name 0
  match roots, required with
  | .ok roots, .ok required =>
      let properties :=
        if required.isEmpty then "" else "\n" ++ (Table.ofProperties required).render ++ "\n"
      ⟨.success, outline roots ++ properties, ""⟩
  | .error error, _ => ⟨error.exitStatus, "", error.message ++ "\n"⟩
  | _, .error error => ⟨error.exitStatus, "", error.message ++ "\n"⟩

def runTree (around : Surroundings) (config : Config Float) (catalog : String)
    (interpretation : Option String) : Except LoadFailure Output := do
  let engine ← around.engine catalog config
  match interpretation with
  | some name => return showRule engine name
  | none =>
      let interpretations := engine.catalog.interpretations
      return ⟨.success, (Table.ofInterpretations interpretations).render ++ "\n", ""⟩

/-! ## The program -/

def Notice.text : Notice → String
  | version => "fuzzy-interp 0.1.0\n"
  | help =>
      "Usage: fuzzy-interp [--color auto|always|never] [-v] [--config FILE] COMMAND\n\n" ++
      "  check FILES... [--json]\n" ++
      "  eval --catalog FILE INTERPRETATION [-p NAME=VALUE]... [--data FILE] [--json]\n" ++
      "  batch --catalog FILE INTERPRETATION RECORDS [--json]\n" ++
      "  tree --catalog FILE [INTERPRETATION]\n"

/-- Carries out a task once the configuration is known. -/
def Task.run (around : Surroundings) (colored : Bool) (config : Config Float) :
    Task → Except LoadFailure Output
  | check files json => .ok (runCheck around colored files json)
  | eval catalog interpretation properties data json =>
      runEval around colored config catalog interpretation properties data json
  | batch catalog interpretation records json =>
      runBatch around colored config catalog interpretation records json
  | tree catalog interpretation => runTree around config catalog interpretation

def Invocation.run (around : Surroundings) (invocation : Invocation) :
    Except LoadFailure Output := do
  let config ← around.config invocation.config
  invocation.task.run around (invocation.color.isColored around.terminal) config

/-- What the program does when it is called with these arguments. -/
def runProgram (around : Surroundings) (arguments : List String) : Output :=
  match Request.ofArguments around.configPath arguments with
  | .error error => ⟨.misuse, "", "error: " ++ error.message ++ "\n"⟩
  | .ok (.tell notice) => ⟨.success, notice.text, ""⟩
  | .ok (.run invocation) =>
      match invocation.run around with
      | .ok output => output
      | .error failure => ⟨.broken, "", failure.report⟩

end FuzzyRating
