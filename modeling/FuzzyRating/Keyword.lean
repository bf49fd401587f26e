import FuzzyRating.Text.Blank

/-!
The words that say what a node of a rule does: six operators, eight hedges, and the leaf. Several
spellings share a meaning, case and separators do not matter, and `Keyword.table` is the only
place that lists them.
-/

namespace FuzzyRating

/-- Combines the ratings of any number of children. -/
inductive Operator where
  | and
  | or
  | product
  | sum
  | times
  | average
  deriving DecidableEq, Repr

/-- Changes the rating of a single child. -/
inductive Hedge where
  | not
  | power
  | very
  | somewhat
  | limit
  | nullOr
  | notNullAnd
  | nullNotRated
  deriving DecidableEq, Repr

namespace Operator

def name : Operator → String
  | and => "and"
  | or => "or"
  | product => "product"
  | sum => "sum"
  | times => "times"
  | average => "average"

/-- The number of children the operator insists on, if it insists on one. -/
def fixedArity : Operator → Option Nat
  | times => some 2
  | _ => none

end Operator

namespace Hedge

def name : Hedge → String
  | not => "not"
  | power => "power"
  | very => "very"
  | somewhat => "somewhat"
  | limit => "limit"
  | nullOr => "null_or"
  | notNullAnd => "not_null_and"
  | nullNotRated => "null_not_rated"

/-- Only a power takes a parameter, its exponent. -/
def takesParam (hedge : Hedge) : Bool :=
  hedge = power

end Hedge

/-- What a word in a rule stands for. -/
inductive Keyword where
  | operator (operator : Operator)
  | hedge (hedge : Hedge)
  | evaluation
  deriving DecidableEq, Repr

namespace Keyword

/-- Every accepted spelling with its meaning, in the order in which they are listed to users. -/
def table : List (String × Keyword) :=
  [("and", operator .and), ("min", operator .and),
    ("or", operator .or), ("max", operator .or),
    ("product", operator .product), ("prod", operator .product),
    ("sum", operator .sum), ("algebraic_sum", operator .sum),
    ("probabilistic_sum", operator .sum),
    ("times", operator .times),
    ("average", operator .average), ("avg", operator .average), ("mean", operator .average),
    ("not", hedge .not),
    ("power", hedge .power), ("multiply", hedge .power), ("pow", hedge .power),
    ("very", hedge .very), ("somewhat", hedge .somewhat), ("limit", hedge .limit),
    ("null_or", hedge .nullOr), ("not_null_and", hedge .notNullAnd),
    ("null_not_rated", hedge .nullNotRated),
    ("evaluation", evaluation), ("eval", evaluation), ("rule", evaluation),
    ("leaf", evaluation)]

def accepted : List String :=
  table.map Prod.fst

/-- The spelling under which a word is looked up: trimmed, lower case in ASCII, with `_` for each
space and hyphen inside. -/
def canonical (word : String) : String :=
  String.ofList <| (Text.trim word).toList.map fun c =>
    if c = ' ' ∨ c = '-' then '_' else c.toLower

def resolve? (word : String) : Option Keyword :=
  table.lookup (canonical word)

end Keyword

end FuzzyRating
