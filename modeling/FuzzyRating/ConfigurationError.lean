import FuzzyRating.Evaluation.Definition
import FuzzyRating.Json.Fault
import FuzzyRating.RatingTable
import FuzzyRating.Rule.Error

/-!
Why a catalog or a configuration cannot be used.
-/

namespace FuzzyRating

/-- The parts of a catalog whose names have to differ. -/
inductive CatalogPart where
  | property
  | evaluation
  | rule
  deriving DecidableEq, Repr

def CatalogPart.name : CatalogPart → String
  | property => "property"
  | evaluation => "evaluation"
  | rule => "rule"

inductive ConfigurationError (num : Type) where
  /-- The file could not be read. -/
  | unreadable (path reason : String)
  | json (origin : String) (error : Json.Error)
  | evaluation (name : String) (error : DefinitionError num)
  | rule (name : String) (error : RuleError)
  | unresolvedReference (owner reference : String)
  | duplicateName (part : CatalogPart) (name : String)
  /-- Two interpretations whose names have the same hash. -/
  | sameHash (first second : String)
  /-- Interpretations that refer to each other in a circle, the first one named again at the end. -/
  | referenceCycle (chain : List String)
  | ratingTable (error : TableError num)

/-- What is wrong with a definition, in words. -/
def DefinitionError.reason : DefinitionError Float → String
  | unknownKind kind => "unknown evaluation type '" ++ kind ++ "'"
  | noExpression => "crisp evaluation has no crispExpression"
  | badExpression error => error.message
  | infiniteDomain => "domain contains a non-finite value"
  | domainWithoutSigmoid => "domain-only curves require sigmoid interpolation"
  | noPoints => "curve has no points"
  | tooFewPoints count => "curve needs at least 2 points, got " ++ toString count
  | pointOutOfRange point =>
      "point (" ++ Layout.message.write point.x ++ ", " ++ Layout.message.write point.y ++
        ") is outside the curve's valid range"

/-- The message about the definition of an evaluation with this name. -/
def DefinitionError.message (name : String) (error : DefinitionError Float) : String :=
  match error with
  | badExpression _ => "crisp expression of evaluation '" ++ name ++ "': " ++ error.reason
  | _ => "invalid evaluation '" ++ name ++ "': " ++ error.reason

/-- Names from one to the next. -/
def chainText (chain : List String) : String :=
  " -> ".intercalate chain

namespace ConfigurationError

def message : ConfigurationError Float → String
  | unreadable path reason => "failed to read '" ++ path ++ "': " ++ reason
  | json origin error =>
      origin ++ ":" ++ toString error.line ++ ":" ++ toString error.column ++ ": " ++
        error.complaint.message
  | evaluation name error => error.message name
  | rule name error => error.message name
  | unresolvedReference owner reference =>
      "'" ++ owner ++ "' references unknown '" ++ reference ++ "'"
  | duplicateName part name => "duplicate " ++ part.name ++ " name '" ++ name ++ "'"
  | sameHash first second =>
      "duplicate interpretation id name '" ++ first ++ "' and '" ++ second ++ "'"
  | referenceCycle chain => "interpretation reference cycle: " ++ chainText chain
  | ratingTable error => error.message

end ConfigurationError

end FuzzyRating
