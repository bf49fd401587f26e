import FuzzyRating.Catalog.Basic

/-!
The properties that an interpretation reads, itself and through the interpretations it refers to.
-/

namespace FuzzyRating.Catalog

variable {num : Type}

/-- What has been gathered: the interpretations entered and the properties met, last first. -/
structure Gathered (num : Type) where
  entered : List String
  properties : List (Property num)

namespace Gathered

def empty : Gathered num :=
  ⟨[], []⟩

def enter (gathered : Gathered num) (name : String) : Gathered num :=
  { gathered with entered := name :: gathered.entered }

/-- Adds a property unless one of its name was met before. -/
def meet (gathered : Gathered num) (property : Property num) : Gathered num :=
  if gathered.properties.any (·.name == property.name) then gathered
  else { gathered with properties := property :: gathered.properties }

end Gathered

/-- Gathers the properties of an interpretation, unless it was entered before. Each
interpretation is entered once, so their number bounds how deep they are entered. -/
def gatherWithin (catalog : Catalog num) :
    Nat → Gathered num → Interpretation num → Gathered num
  | 0, gathered, _ => gathered
  | limit + 1, gathered, interpretation =>
      if gathered.entered.contains interpretation.name then
        gathered
      else
        (leafRefs interpretation.roots).foldl
          (fun gathered reference =>
            match catalog.resolve? reference with
            | some (.evaluation evaluation) =>
                match catalog.property? evaluation.propertyName with
                | some property => gathered.meet property
                | none => gathered
            | some (.interpretation target) => gatherWithin catalog limit gathered target
            | none => gathered)
          (gathered.enter interpretation.name)

/-- The properties that an interpretation reads, in the order in which it reads them first. -/
def requiredProperties (catalog : Catalog num) (interpretation : Interpretation num) :
    List (Property num) :=
  (gatherWithin catalog (catalog.interpretations.length + 1) .empty
    interpretation).properties.reverse

end FuzzyRating.Catalog
