import FuzzyRating.Assessment.Evaluate
import FuzzyRating.Catalog.Json
import FuzzyRating.Config

/-!
The result of rating a subject by an interpretation: the rating and its class, with the values used
and the ratings of all nodes.
-/

namespace FuzzyRating

structure Report (num : Type) where
  interpretation : String
  rating : Option num
  rank : RatingClass
  /-- The values used, in the order of their names. -/
  values : List (String × PropertyValue num)
  /-- The ratings of nodes, in the order of their keys. -/
  nodes : List (String × Option num)
  deriving Repr

/-- The rating of a whole interpretation: bounded to the unit interval, and an error if it is not a
number. -/
def boundRating {num : Type} [Arith num] (name : String) :
    Option num → Except (AssessmentError num) (Option num)
  | none => .ok none
  | some rating =>
      if Arith.isNaN rating then .error (.failed name .notANumber)
      else .ok (some (Arith.clampUnit rating))

/-- Rates a subject by an interpretation of a catalog. -/
def Interpretation.report {num : Type} [Arith num] (config : Config num) (catalog : Catalog num)
    (interpretation : Interpretation num) (data : PropertyData num) :
    Except (AssessmentError num) (Report num) := do
  let name := interpretation.name
  let (outcome, ctx) := assess catalog name interpretation.roots (.start data config.options)
  let rating ← boundRating name (← outcome)
  return { interpretation := name
           rating
           rank := config.ratingTable.classify rating
           values := Journal.current ctx.values
           nodes := Journal.current ctx.ratings }

/-- When a result was computed, in seconds and nanoseconds since the epoch. -/
structure Timestamp where
  seconds : Nat
  nanoseconds : Nat
  deriving DecidableEq, Repr

def Timestamp.toJson (timestamp : Timestamp) : Json.Value :=
  .object [("secs_since_epoch", .natural timestamp.seconds),
    ("nanos_since_epoch", .natural timestamp.nanoseconds)]

/-- A report with its time, if that is given. -/
def Report.toJson (report : Report Float) (timestamp : Option Timestamp) : Json.Value :=
  .object <|
    [("interpretation", .text report.interpretation),
      ("rating", .ofOption .number report.rating),
      ("ratingClass", .text report.rank.label),
      ("propertyValues", .object (report.values.map fun (name, value) => (name, value.toJson))),
      ("evaluationResults",
        .object (report.nodes.map fun (key, rating) => (key, .ofOption .number rating)))] ++
      Json.Value.optionalMember "timestamp" Timestamp.toJson timestamp

end FuzzyRating
