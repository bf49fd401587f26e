import FuzzyRating.Assessment.Context
import FuzzyRating.ConfigurationError
import FuzzyRating.Json.Record
import FuzzyRating.Json.Value
import FuzzyRating.RatingTable

/-!
The settings of an engine. In JSON each may be left out and then has its standard value.
-/

namespace FuzzyRating

open Json (Record Value required)

structure Config (num : Type) where
  /-- How many results are kept. None are kept at zero. -/
  cacheMaxSize : Nat
  /-- For how many seconds a result is served. -/
  cacheTtlSecs : Nat
  /-- After how many seconds the catalog is loaded again, if ever. -/
  catalogTtlSecs : Option Nat
  clampSpline : Bool
  missingData : MissingData
  maxDepth : Nat
  ratingTable : RatingTable num

namespace Config

def standard {num : Type} [Arith num] : Config num where
  cacheMaxSize := 1000
  cacheTtlSecs := 3600
  catalogTtlSecs := none
  clampSpline := true
  missingData := .propagate
  maxDepth := 64
  ratingTable := .standard

def options {num : Type} (config : Config num) : AssessmentOptions :=
  ⟨config.clampSpline, config.missingData, config.maxDepth⟩

end Config

/-! ## In JSON -/

structure ThresholdDraft where
  threshold : Option Float
  rank : Option RatingClass

def RatingThreshold.record : Record ThresholdDraft (RatingThreshold Float) where
  name := "RatingThreshold"
  fields :=
    [.of "threshold" false Json.floatReader (·.threshold)
        fun x d => { d with threshold := some x },
      .of "class" false (Json.variantReader RatingClass.variants) (·.rank)
        fun x d => { d with rank := some x }]
  empty := ⟨none, none⟩
  finish draft := do
    return { threshold := ← required "threshold" draft.threshold
             rank := ← required "class" draft.rank }

def RatingTable.reader : Json.Reader (RatingTable Float) :=
  Json.checkedReader (Json.listReader RatingThreshold.record.reader) fun thresholds =>
    (RatingTable.ofThresholds thresholds).mapError TableError.message

def RatingTable.toJson (table : RatingTable Float) : Value :=
  .array <| table.thresholds.map fun entry =>
    .object [("threshold", .number entry.threshold), ("class", .text entry.rank.label)]

structure ConfigDraft where
  cacheMaxSize : Option Nat
  cacheTtlSecs : Option Nat
  catalogTtlSecs : Option (Option Nat)
  clampSpline : Option Bool
  missingData : Option MissingData
  maxDepth : Option Nat
  ratingTable : Option (RatingTable Float)

namespace Config

def record : Record ConfigDraft (Config Float) where
  name := "EngineConfig"
  fields :=
    [.of "cache_max_size" true (Json.naturalReader "usize") (·.cacheMaxSize)
        fun x d => { d with cacheMaxSize := some x },
      .of "cache_ttl_secs" true (Json.naturalReader "u64") (·.cacheTtlSecs)
        fun x d => { d with cacheTtlSecs := some x },
      .of "catalog_ttl_secs" true (Json.optionReader (Json.naturalReader "u64"))
        (·.catalogTtlSecs) fun x d => { d with catalogTtlSecs := some x },
      .of "clamp_spline" true Json.boolReader (·.clampSpline)
        fun x d => { d with clampSpline := some x },
      .of "missing_data" true (Json.variantReader MissingData.variants) (·.missingData)
        fun x d => { d with missingData := some x },
      .of "max_depth" true (Json.naturalReader "usize") (·.maxDepth)
        fun x d => { d with maxDepth := some x },
      .of "rating_thresholds" true RatingTable.reader (·.ratingTable)
        fun x d => { d with ratingTable := some x }]
  empty := ⟨none, none, none, none, none, none, none⟩
  finish draft :=
    let other : Config Float := standard
    .ok { cacheMaxSize := draft.cacheMaxSize.getD other.cacheMaxSize
          cacheTtlSecs := draft.cacheTtlSecs.getD other.cacheTtlSecs
          catalogTtlSecs := draft.catalogTtlSecs.getD other.catalogTtlSecs
          clampSpline := draft.clampSpline.getD other.clampSpline
          missingData := draft.missingData.getD other.missingData
          maxDepth := draft.maxDepth.getD other.maxDepth
          ratingTable := draft.ratingTable.getD other.ratingTable }

def toJson (config : Config Float) : Value :=
  .object [("cache_max_size", .natural config.cacheMaxSize),
    ("cache_ttl_secs", .natural config.cacheTtlSecs),
    ("catalog_ttl_secs", .ofOption .natural config.catalogTtlSecs),
    ("clamp_spline", .bool config.clampSpline),
    ("missing_data", .text config.missingData.name),
    ("max_depth", .natural config.maxDepth),
    ("rating_thresholds", config.ratingTable.toJson)]

/-- Reads a configuration. -/
def ofJson (source : String) : Except (ConfigurationError Float) (Config Float) :=
  (Json.parse record.reader source).mapError (.json "<config>")

end Config

/-- Whether two tables have the same thresholds, compared as numbers, with the same classes. -/
def RatingTable.same {num : Type} [Arith num] (a b : RatingTable num) : Bool :=
  a.thresholds.length == b.thresholds.length &&
    (a.thresholds.zip b.thresholds).all fun (x, y) =>
      Arith.eq x.threshold y.threshold && x.rank == y.rank

/-- Whether two configurations say the same. -/
def Config.same {num : Type} [Arith num] (a b : Config num) : Bool :=
  a.cacheMaxSize == b.cacheMaxSize && a.cacheTtlSecs == b.cacheTtlSecs &&
    a.catalogTtlSecs == b.catalogTtlSecs && a.options == b.options &&
    a.ratingTable.same b.ratingTable

end FuzzyRating
