import FuzzyRating.Catalog.Basic

/-!
The search for interpretations that refer to each other in a circle.
-/

namespace FuzzyRating.Catalog

variable {num : Type}

/-- The names from the first `name` in a path on, and `name` again. -/
def circle (path : List String) (name : String) : List String :=
  path.dropWhile (· != name) ++ [name]

/-- Follows the references of an interpretation, where `path` leads to it. Interpretations in
`done` are known to lead to no circle. Gives those known afterwards, or a circle. A path holds no
interpretation twice, so the number of interpretations bounds its length. -/
def visitWithin (catalog : Catalog num) :
    Nat → List String → List String → Interpretation num → Except (List String) (List String)
  | 0, _, done, _ => .ok done
  | limit + 1, path, done, interpretation =>
      let name := interpretation.name
      if done.contains name then
        .ok done
      else if path.contains name then
        .error (circle path name)
      else do
        let done ← (catalog.subRules interpretation).foldlM
          (fun done target => visitWithin catalog limit (path ++ [name]) done target) done
        return name :: done

/-- The first circle found when the interpretations are followed in order. -/
def findCircle? (catalog : Catalog num) : Option (List String) :=
  match catalog.interpretations.foldlM
      (fun done interpretation =>
        visitWithin catalog (catalog.interpretations.length + 1) [] done interpretation) [] with
  | .ok _ => none
  | .error chain => some chain

end FuzzyRating.Catalog
