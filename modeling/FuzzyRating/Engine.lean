import FuzzyRating.Assessment.Report
import FuzzyRating.Cache
import FuzzyRating.Catalog.Build

/-!
An engine rates subjects by the interpretations of a catalog, keeps results for later, and loads the
catalog again when it is told to or when it has grown old. Times are in milliseconds.
-/

namespace FuzzyRating

/-- What a source of catalogs delivers when it is asked. -/
abbrev Supply :=
  Except (ConfigurationError Float) (CatalogData Float)

/-- A report and the number that it got when it was computed. -/
structure Served where
  serial : Nat
  report : Report Float

structure Engine where
  /-- What loading the catalog would deliver now. -/
  supply : Supply
  config : Config Float
  /-- The catalog loaded last. -/
  catalog : Catalog Float
  /-- When the catalog was loaded, or loading it failed, last. -/
  loadedAt : Nat
  /-- How often the catalog was replaced. -/
  generation : Nat
  cache : Cache Served
  /-- How often the source was asked. -/
  loads : Nat
  /-- How many reports were computed. -/
  computed : Nat

/-- What is rated by a catalog and found nothing, or a report. -/
abbrev Answer :=
  Except (AssessmentError Float) Served

namespace Engine

/-- The catalog that the source delivers. -/
def load (supply : Supply) : Except (ConfigurationError Float) (Catalog Float) := do
  Catalog.build (← supply)

def milliseconds (seconds : Nat) : Nat :=
  1000 * seconds

def create (supply : Supply) (config : Config Float) (now : Nat) :
    Except (ConfigurationError Float) Engine := do
  let catalog ← load supply
  return { supply, config, catalog, loadedAt := now, generation := 0,
           cache := .empty config.cacheMaxSize (milliseconds config.cacheTtlSecs),
           loads := 1, computed := 0 }

/-! ## Loading -/

/-- Changes what the source delivers. -/
def withSupply (engine : Engine) (supply : Supply) : Engine :=
  { engine with supply }

/-- Loads the catalog again and forgets all results. If that fails, everything stays. -/
def reload (engine : Engine) (now : Nat) :
    Except (ConfigurationError Float) Unit × Engine :=
  let engine := { engine with loads := engine.loads + 1 }
  match load engine.supply with
  | .ok catalog =>
      (.ok (), { engine with
        catalog
        loadedAt := now
        generation := engine.generation + 1
        cache := engine.cache.clear })
  | .error error => (.error error, engine)

/-- Whether the catalog has grown old. -/
def isStale (engine : Engine) (now : Nat) : Bool :=
  match engine.config.catalogTtlSecs with
  | some ttl => milliseconds ttl ≤ now - engine.loadedAt
  | none => false

/-- Loads the catalog again if it has grown old. If that fails, the old one grows old anew. -/
def refresh (engine : Engine) (now : Nat) : Engine :=
  if engine.isStale now then
    { (engine.reload now).2 with loadedAt := now }
  else
    engine

/-! ## Rating -/

/-- Whether results for these data may be kept. Numbers that are not finite look alike in keys. -/
def isCacheable (data : PropertyData Float) : Bool :=
  data.entries.all fun (_, value) => value.number?.all Float.isFinite

/-- Computes a report without the cache. -/
def compute (engine : Engine) (interpretation : Interpretation Float)
    (data : PropertyData Float) : Except (AssessmentError Float) (Report Float) :=
  interpretation.report engine.config engine.catalog data

/-- Computes a report and numbers it. -/
def computeServed (engine : Engine) (interpretation : Interpretation Float)
    (data : PropertyData Float) : Answer × Engine :=
  match engine.compute interpretation data with
  | .ok report =>
      (.ok ⟨engine.computed, report⟩, { engine with computed := engine.computed + 1 })
  | .error error => (.error error, engine)

/-- Keeps a report that was computed by the catalog of a generation, unless that catalog has been
replaced since. -/
def keep (engine : Engine) (generation : Nat) (key : String) (served : Served) (now : Nat) :
    Engine :=
  if engine.generation = generation then
    { engine with cache := engine.cache.set key served now }
  else
    engine

/-- Serves a report from the cache, or computes it by the catalog of this generation and keeps
it. -/
def rate (engine : Engine) (generation : Nat) (interpretation : Interpretation Float)
    (data : PropertyData Float) (now : Nat) : Answer × Engine :=
  if isCacheable data then
    let key := cacheKey interpretation.name data
    let (hit, cache) := engine.cache.get key now
    let engine := { engine with cache }
    match hit with
    | some served => (.ok served, engine)
    | none =>
        match engine.computeServed interpretation data with
        | (.ok served, engine) => (.ok served, engine.keep generation key served now)
        | failure => failure
  else
    engine.computeServed interpretation data

/-- The interpretation with this name. -/
def find (engine : Engine) (name : String) :
    Except (AssessmentError Float) (Interpretation Float) :=
  match engine.catalog.interpretation? name with
  | some interpretation => .ok interpretation
  | none => .error (.notFound name (Text.suggestions name engine.catalog.interpretationNames))

/-- The interpretation with this id. -/
def findById (engine : Engine) (id : InterpretationId) :
    Except (AssessmentError Float) (Interpretation Float) :=
  match engine.catalog.interpretationById? id with
  | some interpretation => .ok interpretation
  | none => .error (.notFound id.text [])

/-- Rates by what was looked up in the catalog of this generation. -/
def rateFound (engine : Engine) (generation : Nat)
    (found : Except (AssessmentError Float) (Interpretation Float)) (data : PropertyData Float)
    (now : Nat) : Answer × Engine :=
  match found with
  | .ok interpretation => engine.rate generation interpretation data now
  | .error error => (.error error, engine)

/-- Rates a subject by the interpretation with this name. -/
def evaluate (engine : Engine) (name : String) (data : PropertyData Float) (now : Nat) :
    Answer × Engine :=
  let engine := engine.refresh now
  engine.rateFound engine.generation (engine.find name) data now

/-- Rates a subject by the interpretation with this id. -/
def evaluateById (engine : Engine) (id : InterpretationId) (data : PropertyData Float)
    (now : Nat) : Answer × Engine :=
  let engine := engine.refresh now
  engine.rateFound engine.generation (engine.findById id) data now

/-- Rates subjects one after the other by the catalog of this generation. -/
def rateEach (engine : Engine) (generation : Nat) (name : String) (now : Nat) :
    List (PropertyData Float) → List Answer × Engine
  | [] => ([], engine)
  | data :: records =>
      let (answer, engine) := engine.rateFound generation (engine.find name) data now
      let (answers, engine) := rateEach engine generation name now records
      (answer :: answers, engine)

/-- Rates several subjects with one catalog. One that fails does not stop the others. -/
def evaluateBatch (engine : Engine) (name : String) (records : List (PropertyData Float))
    (now : Nat) : List Answer × Engine :=
  let engine := engine.refresh now
  engine.rateEach engine.generation name now records

/-! ## The catalog and the cache -/

/-- The properties that an interpretation reads. -/
def requiredProperties (engine : Engine) (name : String) (now : Nat) :
    Except (AssessmentError Float) (List (Property Float)) × Engine :=
  let engine := engine.refresh now
  ((engine.find name).map (·.required), engine)

/-- The tree of an interpretation. -/
def ruleTree (engine : Engine) (name : String) (now : Nat) :
    Except (AssessmentError Float) (List (RuleTree Float)) × Engine :=
  let engine := engine.refresh now
  ((engine.find name).map (·.roots), engine)

def interpretationNames (engine : Engine) (now : Nat) : List String × Engine :=
  let engine := engine.refresh now
  (engine.catalog.interpretationNames, engine)

def clearCache (engine : Engine) : Engine :=
  { engine with cache := engine.cache.clear }

/-- Drops the results that are too old, and says how many. -/
def pruneCache (engine : Engine) (now : Nat) : Nat × Engine :=
  let (count, cache) := engine.cache.prune now
  (count, { engine with cache })

end Engine

end FuzzyRating
