import FuzzyRating.Assessment.Error
import FuzzyRating.Journal
import FuzzyRating.PropertyData

/-!
What is kept while an interpretation is assessed: the subject's data, the interpretations being
assessed, the keys of the leaves that led to them, and what has been recorded.
-/

namespace FuzzyRating

/-- What becomes of an operator some of whose children are not rated. -/
inductive MissingData where
  /-- It is not rated either. -/
  | propagate
  /-- It combines the children that are rated. -/
  | ignore
  deriving DecidableEq, Repr

namespace MissingData

def name : MissingData → String
  | propagate => "propagate"
  | ignore => "ignore"

def variants : List (String × MissingData) :=
  [propagate, ignore].map fun policy => (policy.name, policy)

end MissingData

structure AssessmentOptions where
  /-- Whether splines are bounded to the unit interval. -/
  clampSpline : Bool
  missingData : MissingData
  /-- How many interpretations may be assessed within one another. -/
  maxDepth : Nat
  deriving DecidableEq, Repr

def AssessmentOptions.standard : AssessmentOptions :=
  ⟨true, .propagate, 64⟩

structure Context (num : Type) where
  data : PropertyData num
  options : AssessmentOptions
  /-- The interpretations being assessed, innermost first. -/
  calls : List String
  /-- The full keys of the leaves being expanded, innermost first. -/
  leafKeys : List String
  /-- The ratings of nodes by full key. -/
  ratings : Journal (Option num)
  /-- The values used, by the name that the evaluation used for the property. -/
  values : Journal (PropertyValue num)

namespace Context

variable {num : Type}

def start (data : PropertyData num) (options : AssessmentOptions) : Context num :=
  { data, options, calls := [], leafKeys := [], ratings := [], values := [] }

/-- Where an interpretation fails that cannot be entered: at the leaf that refers to it, or else
under its own name. -/
def entrance (ctx : Context num) (name : String) : String :=
  ctx.leafKeys.head?.getD name

def tooDeep (ctx : Context num) (name : String) : AssessmentError num :=
  .failed (ctx.entrance name) (.tooDeep ctx.options.maxDepth)

def circular (ctx : Context num) (name : String) : AssessmentError num :=
  .failed (ctx.entrance name) (.circle (ctx.calls.reverse ++ [name]))

def pushCall (ctx : Context num) (name : String) : Context num :=
  { ctx with calls := name :: ctx.calls }

def popCall (ctx : Context num) : Context num :=
  { ctx with calls := ctx.calls.tail }

/-- Starts to assess an interpretation, unless too many are being assessed or it is one of them. -/
def enter (ctx : Context num) (name : String) : Except (AssessmentError num) (Context num) :=
  if ctx.options.maxDepth ≤ ctx.calls.length then .error (ctx.tooDeep name)
  else if ctx.calls.contains name then .error (ctx.circular name)
  else .ok (ctx.pushCall name)

/-- The key of a node with the keys of the leaves that led to its interpretation. -/
def fullKey (ctx : Context num) (key : String) : String :=
  match ctx.leafKeys with
  | [] => key
  | leaf :: _ => leaf ++ "/" ++ key

/-- Starts to expand a leaf with this full key. -/
def pushLeaf (ctx : Context num) (fullKey : String) : Context num :=
  { ctx with leafKeys := fullKey :: ctx.leafKeys }

def popLeaf (ctx : Context num) : Context num :=
  { ctx with leafKeys := ctx.leafKeys.tail }

/-- Records the rating of a node. -/
def record (ctx : Context num) (key : String) (rating : Option num) : Context num :=
  { ctx with ratings := (ctx.fullKey key, rating) :: ctx.ratings }

/-- Records the value used for a property. -/
def recordValue (ctx : Context num) (name : String) (value : PropertyValue num) : Context num :=
  { ctx with values := (name, value) :: ctx.values }

end Context

end FuzzyRating
