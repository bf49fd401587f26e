import FuzzyRating.ConfigurationError
import FuzzyRating.Evaluation.Membership
import FuzzyRating.Keyword

/-!
Why an interpretation gives no rating for a subject, not even "not rated".
-/

namespace FuzzyRating

/-- What goes wrong at a node. -/
inductive NodeFault where
  /-- Interpretations are nested deeper than allowed. -/
  | tooDeep (limit : Nat)
  /-- An interpretation is entered again while it is being assessed. -/
  | circle (chain : List String)
  | childlessHedge (hedge : Hedge)
  | noPoints
  /-- The rating of the whole is not a number. -/
  | notANumber
  deriving DecidableEq, Repr

def NodeFault.message : NodeFault → String
  | tooDeep limit => "maximum sub-rule depth of " ++ toString limit ++ " exceeded"
  | circle chain => "interpretation reference cycle: " ++ chainText chain
  | childlessHedge hedge => "hedge '" ++ hedge.name ++ "' has no child"
  | noPoints => "curve has no points"
  | notANumber => "rating is not a number"

/-- The values that an evaluation can rate. -/
inductive RatableValue where
  | number
  | numberOrText
  deriving DecidableEq, Repr

def RatableValue.text : RatableValue → String
  | number => "a finite number"
  | numberOrText => "a finite number or text"

inductive AssessmentError (num : Type) where
  /-- No interpretation has the name, or no entry of the catalog is what a leaf refers to. -/
  | notFound (name : String) (suggestions : List String)
  | invalidData (property : String) (expected : RatableValue) (found : PropertyValue num)
  | failed (node : String) (fault : NodeFault)
  deriving Repr

namespace AssessmentError

def message : AssessmentError Float → String
  | notFound name suggestions =>
      "interpretation not found: '" ++ name ++ "'" ++ suggestionText suggestions
  | invalidData property expected found =>
      "invalid data for property '" ++ property ++ "': expected " ++ expected.text ++ ", found " ++
        found.typeName ++ " " ++ found.display
  | failed node fault => "evaluation failed at node '" ++ node ++ "': " ++ fault.message

/-- The class of an error: the data is at fault, the name is, or the catalog is. -/
def status {num : Type} : AssessmentError num → Nat
  | invalidData _ _ _ => 400
  | notFound _ _ => 404
  | failed _ _ => 500

end AssessmentError

end FuzzyRating
