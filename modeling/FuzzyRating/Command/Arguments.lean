/-!
Command lines as they are written: options, which may take values, and plain arguments. An option
is known to the whole program or to one of its commands.
-/

namespace FuzzyRating

inductive Command where
  | check
  | eval
  | batch
  | tree
  deriving DecidableEq, Repr

namespace Command

def name : Command → String
  | check => "check"
  | eval => "eval"
  | batch => "batch"
  | tree => "tree"

def ofName? (name : String) : Option Command :=
  [check, eval, batch, tree].find? (·.name == name)

/-- How many plain arguments a command takes at most, if there is a limit. -/
def limit : Command → Option Nat
  | check => none
  | eval => some 1
  | batch => some 2
  | tree => some 1

/-- Whether the plain argument behind `index` others is a path. -/
def takesPath : Command → Nat → Bool
  | check, _ => true
  | batch, index => index == 1
  | _, _ => false

end Command

/-- An option without a value. -/
inductive Flag where
  | verbose
  | json
  deriving DecidableEq, Repr

/-- An option with a value. -/
inductive Setting where
  | color
  | config
  | catalog
  | property
  | data
  deriving DecidableEq, Repr

/-- An option that asks for a text about the program. -/
inductive Notice where
  | help
  | version
  deriving DecidableEq, Repr

inductive Word where
  | flag (flag : Flag)
  | setting (setting : Setting)
  | notice (notice : Notice)
  deriving DecidableEq, Repr

def Flag.name : Flag → String
  | verbose => "verbose"
  | json => "json"

def Setting.name : Setting → String
  | color => "color"
  | config => "config"
  | catalog => "catalog"
  | property => "property"
  | data => "data"

def Notice.name : Notice → String
  | help => "help"
  | version => "version"

namespace Word

/-- The name that follows two hyphens. -/
def name : Word → String
  | flag f => f.name
  | setting s => s.name
  | notice n => n.name

/-- The letter that follows one hyphen. -/
def letter? : Word → Option Char
  | flag .verbose => some 'v'
  | setting .property => some 'p'
  | notice .help => some 'h'
  | notice .version => some 'V'
  | _ => none

/-- The options known everywhere. -/
def everywhere : List Word :=
  [setting .color, flag .verbose, setting .config, notice .help]

/-- The options known behind a command, or in front of it. -/
def known : Option Command → List Word
  | none => everywhere ++ [notice .version]
  | some .check => everywhere ++ [flag .json]
  | some .eval =>
      everywhere ++ [setting .catalog, setting .property, setting .data, flag .json]
  | some .batch => everywhere ++ [setting .catalog, flag .json]
  | some .tree => everywhere ++ [setting .catalog]

end Word

/-- What is wrong with a command line. -/
inductive UsageError where
  | noCommand
  | unknownCommand (name : String)
  | unknownOption (option : String)
  | unexpectedArgument (argument : String)
  | missingArgument (name : String)
  | missingValue (option : String)
  | unneededValue (option : String)
  | repeated (option : String)
  | emptyPath
  | invalidValue (option value : String)
  deriving DecidableEq, Repr

def UsageError.message : UsageError → String
  | noCommand => "a command is required"
  | unknownCommand name => "unrecognized command '" ++ name ++ "'"
  | unknownOption option => "unknown option '" ++ option ++ "'"
  | unexpectedArgument argument => "unexpected argument '" ++ argument ++ "'"
  | missingArgument name => "missing argument <" ++ name ++ ">"
  | missingValue option => "option '--" ++ option ++ "' requires a value"
  | unneededValue option => "option '--" ++ option ++ "' takes no value"
  | repeated option => "option '--" ++ option ++ "' cannot be used multiple times"
  | emptyPath => "a path cannot be empty"
  | invalidValue option value => "invalid value '" ++ value ++ "' for '--" ++ option ++ "'"

/-- When output is colored. -/
inductive ColorChoice where
  | auto
  | always
  | never
  deriving DecidableEq, Repr

def ColorChoice.variants : List (String × ColorChoice) :=
  [("auto", auto), ("always", always), ("never", never)]

/-- The name and the text around the first equality sign. -/
def splitProperty? (value : String) : Option (String × String) :=
  let chars := value.toList
  match chars.dropWhile (· != '=') with
  | _ :: rest => some (String.ofList (chars.takeWhile (· != '=')), String.ofList rest)
  | [] => none

/-- Whether a setting can have a value. -/
def Setting.admits : Setting → String → Bool
  | color, value => (ColorChoice.variants.lookup value).isSome
  | property, value => (splitProperty? value).isSome
  | _, value => value != ""

/-- What was gathered from a command line, in order. -/
structure Gathered where
  flags : List Flag
  settings : List (Setting × String)
  places : List String
  /-- Set when a notice was asked for. Nothing behind it counts. -/
  notice : Option Notice
  deriving Repr

namespace Gathered

def empty : Gathered :=
  ⟨[], [], [], none⟩

def has (gathered : Gathered) (flag : Flag) : Bool :=
  gathered.flags.contains flag

/-- The value of a setting that is given once. -/
def value? (gathered : Gathered) (setting : Setting) : Option String :=
  gathered.settings.lookup setting

/-- The values of a setting that may be given several times. -/
def values (gathered : Gathered) (setting : Setting) : List String :=
  (gathered.settings.filter (·.1 == setting)).map Prod.snd

def addFlag (gathered : Gathered) (flag : Flag) : Except UsageError Gathered :=
  if gathered.has flag then .error (.repeated flag.name)
  else .ok { gathered with flags := gathered.flags ++ [flag] }

/-- Only properties may be given several times. -/
def addSetting (gathered : Gathered) (setting : Setting) (value : String) :
    Except UsageError Gathered :=
  if setting ≠ .property ∧ (gathered.value? setting).isSome then
    .error (.repeated setting.name)
  else if setting.admits value then
    .ok { gathered with settings := gathered.settings ++ [(setting, value)] }
  else
    .error (.invalidValue setting.name value)

def addPlace (gathered : Gathered) (command : Command) (argument : String) :
    Except UsageError Gathered :=
  let index := gathered.places.length
  if command.limit.any (· ≤ index) then .error (.unexpectedArgument argument)
  else if command.takesPath index && argument == "" then .error .emptyPath
  else .ok { gathered with places := gathered.places ++ [argument] }

/-- Adds an option given by its name. A setting without a value waits for it. -/
def addLong (level : Option Command) (gathered : Gathered) (name : String)
    (value : Option String) : Except UsageError (Gathered × Option Setting) :=
  match (Word.known level).find? (·.name == name), value with
  | none, _ => .error (.unknownOption ("--" ++ name))
  | some (.setting setting), some value => do
      return (← gathered.addSetting setting value, none)
  | some (.setting setting), none => .ok (gathered, some setting)
  | some word, some _ => .error (.unneededValue word.name)
  | some (.flag flag), none => do
      return (← gathered.addFlag flag, none)
  | some (.notice notice), none => .ok ({ gathered with notice := some notice }, none)

/-- Adds options given by their letters. What follows the letter of a setting is its value. -/
def addShort (level : Option Command) (gathered : Gathered) :
    List Char → Except UsageError (Gathered × Option Setting)
  | [] => .ok (gathered, none)
  | letter :: rest =>
      match (Word.known level).find? (·.letter? == some letter), rest with
      | none, _ => .error (.unknownOption ("-" ++ letter.toString))
      | some (.notice notice), _ => .ok ({ gathered with notice := some notice }, none)
      | some (.flag flag), rest => do
          addShort level (← gathered.addFlag flag) rest
      | some (.setting setting), [] => .ok (gathered, some setting)
      | some (.setting setting), '=' :: value => do
          return (← gathered.addSetting setting (String.ofList value), none)
      | some (.setting setting), value => do
          return (← gathered.addSetting setting (String.ofList value), none)

end Gathered

/-- What an argument looks like. -/
inductive ArgumentForm where
  /-- Two hyphens, behind which every argument is a plain one. -/
  | terminator
  | long (name : String) (value : Option String)
  | short (letters : List Char)
  | plain
  deriving Repr

def ArgumentForm.of (argument : String) : ArgumentForm :=
  match argument.toList with
  | ['-', '-'] => terminator
  | '-' :: '-' :: rest =>
      match splitProperty? (String.ofList rest) with
      | some (name, value) => long name (some value)
      | none => long (String.ofList rest) none
  | '-' :: letter :: rest => short (letter :: rest)
  | _ => plain

/-- Gathers arguments behind a command, or in front of it up to the first plain argument. A setting
that waits for its value is `pending`. Gives also what is left. -/
def gather (level : Option Command) (pending : Option Setting) (gathered : Gathered) :
    List String → Except UsageError (Gathered × List String)
  | [] =>
      match pending with
      | some setting => .error (.missingValue setting.name)
      | none => .ok (gathered, [])
  | argument :: rest =>
      match pending, ArgumentForm.of argument with
      | some setting, .plain => do
          gather level none (← gathered.addSetting setting argument) rest
      | some setting, _ => .error (.missingValue setting.name)
      | none, .terminator =>
          match level, rest with
          | some command, rest => do
              return (← rest.foldlM (·.addPlace command ·) gathered, [])
          | none, [] => .ok (gathered, [])
          | none, argument :: _ => .error (.unexpectedArgument argument)
      | none, .long name value => do
          let (gathered, pending) ← gathered.addLong level name value
          if gathered.notice.isSome then return (gathered, [])
          gather level pending gathered rest
      | none, .short letters => do
          let (gathered, pending) ← gathered.addShort level letters
          if gathered.notice.isSome then return (gathered, [])
          gather level pending gathered rest
      | none, .plain =>
          match level with
          | none => .ok (gathered, argument :: rest)
          | some command => do
              gather level none (← gathered.addPlace command argument) rest

end FuzzyRating
