import FuzzyRating.Command.Arguments

/-!
What a command line asks for.
-/

namespace FuzzyRating

/-- A command with its arguments. -/
inductive Task where
  | check (files : List String) (json : Bool)
  | eval (catalog interpretation : String) (properties : List (String × String))
      (data : Option String) (json : Bool)
  | batch (catalog interpretation records : String) (json : Bool)
  | tree (catalog : String) (interpretation : Option String)
  deriving DecidableEq, Repr

def Task.paths : Task → List String
  | check files _ => files
  | eval catalog _ _ data _ => catalog :: data.toList
  | batch catalog _ records _ => [catalog, records]
  | tree catalog _ => [catalog]

structure Invocation where
  color : ColorChoice
  verbose : Bool
  /-- The path of the configuration. -/
  config : Option String
  task : Task
  deriving DecidableEq, Repr

inductive Request where
  | tell (notice : Notice)
  | run (invocation : Invocation)
  deriving DecidableEq, Repr

/-- An argument that has to be there. -/
def demand (name : String) : Option String → Except UsageError String
  | some value => .ok value
  | none => .error (.missingArgument name)

/-- The task of a command, from what was gathered behind it. -/
def Command.task (command : Command) (gathered : Gathered) : Except UsageError Task := do
  let catalog := demand "CATALOG" (gathered.value? .catalog)
  let place (index : Nat) (name : String) := demand name gathered.places[index]?
  match command with
  | check =>
      if gathered.places.isEmpty then
        throw (.missingArgument "FILES")
      return .check gathered.places (gathered.has .json)
  | eval =>
      return .eval (← catalog) (← place 0 "INTERPRETATION")
        ((gathered.values .property).filterMap splitProperty?) (gathered.value? .data)
        (gathered.has .json)
  | batch =>
      return .batch (← catalog) (← place 0 "INTERPRETATION") (← place 1 "RECORDS")
        (gathered.has .json)
  | tree => return .tree (← catalog) gathered.places[0]?

namespace Request

/-- The path of the configuration: given behind the command, or in front of it, or else by the
environment. An empty path in the environment is an error wherever it would count. -/
def configPath (environment : Option String) (outer inner : Gathered) :
    Except UsageError (Option String) :=
  let given := (inner.value? .config).or (outer.value? .config)
  if environment = some "" ∧ ((inner.value? .config).isNone ∨ (outer.value? .config).isNone) then
    .error (.invalidValue Setting.config.name "")
  else
    .ok (given.or environment)

/-- The color choice behind the command, or else the one in front of it. -/
def colorChoice (outer inner : Gathered) : ColorChoice :=
  let given := (inner.value? .color).or (outer.value? .color)
  (given.bind fun name => ColorChoice.variants.lookup name).getD .auto

/-- Asks for help, possibly about a command. -/
def ofHelp : List String → Except UsageError Request
  | [] => .ok (.tell .help)
  | [name] =>
      if name == "help" || (Command.ofName? name).isSome then .ok (.tell .help)
      else .error (.unknownCommand name)
  | _ :: name :: _ => .error (.unknownCommand name)

/-- What the arguments of a command ask for, given what stood in front of it. -/
def ofCommand (environment : Option String) (outer : Gathered) (command : Command)
    (arguments : List String) : Except UsageError Request := do
  let (inner, _) ← gather (some command) none .empty arguments
  match inner.notice with
  | some notice => return .tell notice
  | none =>
      let task ← command.task inner
      let config ← configPath environment outer inner
      return .run { color := colorChoice outer inner
                    verbose := outer.has .verbose || inner.has .verbose
                    config, task }

/-- What the arguments of the program ask for. -/
def ofArguments (environment : Option String) (arguments : List String) :
    Except UsageError Request := do
  let (outer, rest) ← gather none none .empty arguments
  match outer.notice, rest with
  | some notice, _ => return .tell notice
  | none, [] => throw .noCommand
  | none, "help" :: rest => ofHelp rest
  | none, name :: rest =>
      match Command.ofName? name with
      | some command => ofCommand environment outer command rest
      | none => throw (.unknownCommand name)

/-- The files that may have to be read. -/
def paths : Request → List String
  | tell _ => []
  | run invocation => invocation.config.toList ++ invocation.task.paths

end Request

/-- The files that the arguments of the program name. -/
def namedPaths (environment : Option String) (arguments : List String) : List String :=
  match Request.ofArguments environment arguments with
  | .ok request => request.paths
  | .error _ => []

end FuzzyRating
