import FuzzyRating.Decimal.Layout
import FuzzyRating.Text.Quoted

/-!
The value that a subject has for a property.
-/

namespace FuzzyRating

/-- A measurement, a category, or nothing. -/
inductive PropertyValue (num : Type) where
  | number (value : num)
  | text (value : String)
  | null
  deriving DecidableEq, Repr

namespace PropertyValue

variable {num : Type}

def isNull : PropertyValue num → Bool
  | null => true
  | _ => false

def number? : PropertyValue num → Option num
  | number value => some value
  | _ => none

def text? : PropertyValue num → Option String
  | text value => some value
  | _ => none

/-- The word for the kind of value in messages. -/
def typeName : PropertyValue num → String
  | number _ => "number"
  | text _ => "text"
  | null => "null"

/-- The value as messages show it. -/
def display : PropertyValue Float → String
  | number value => Layout.message.write value
  | text value => Text.quoted value
  | null => "null"

end PropertyValue

end FuzzyRating
