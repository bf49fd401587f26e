/-!
Properties of the subjects that are rated.
-/

namespace FuzzyRating

/-- A property as the catalog lists it. -/
structure Property (num : Type) where
  id : String
  name : String
  unitOfMeasure : Option String
  min : Option num
  max : Option num
  modifier : String
  isCategorical : Bool
  deriving Repr, DecidableEq

/-- Whether a key names a property, by its id or by its name. -/
def Property.isIdentifiedBy {num : Type} (property : Property num) (key : String) : Bool :=
  property.id == key || property.name == key

end FuzzyRating
