import FuzzyRating.Catalog.Cycle
import FuzzyRating.Catalog.Required
import FuzzyRating.ConfigurationError
import FuzzyRating.Rule.Resolve

/-!
Building a catalog from what was authored. Properties are entered first, then evaluations, then
rules. In the end every reference has to lead somewhere and no references may form a circle.
-/

namespace FuzzyRating.Catalog

variable {num : Type} [Arith num]

def addProperty (catalog : Catalog num) (property : Property num) :
    Except (ConfigurationError num) (Catalog num) :=
  if catalog.properties.any (·.name == property.name) then
    .error (.duplicateName .property property.name)
  else
    .ok { catalog with properties := catalog.properties ++ [property] }

def addEvaluation (catalog : Catalog num) (definition : EvaluationDefinition num) :
    Except (ConfigurationError num) (Catalog num) :=
  match Evaluation.ofDefinition definition with
  | .error error => .error (.evaluation definition.name error)
  | .ok evaluation =>
      if catalog.evaluations.any (·.name == evaluation.name) then
        .error (.duplicateName .evaluation evaluation.name)
      else if (catalog.property? evaluation.propertyName).isNone then
        .error (.unresolvedReference evaluation.name evaluation.propertyName)
      else
        .ok { catalog with evaluations := catalog.evaluations ++ [evaluation] }

def addRule (catalog : Catalog num) (rule : RuleDefinition) :
    Except (ConfigurationError num) (Catalog num) :=
  match normalize rule.nodes with
  | .error error => .error (.rule rule.name error)
  | .ok roots =>
      let hash := InterpretationId.ofName rule.name
      if catalog.interpretations.any (·.name == rule.name) then
        .error (.duplicateName .rule rule.name)
      else
        match catalog.interpretationById? hash with
        | some other => .error (.sameHash other.name rule.name)
        | none =>
            .ok { catalog with
              interpretations :=
                catalog.interpretations ++ [⟨rule.id, rule.name, hash, roots, []⟩] }

/-- The first reference of an interpretation that leads nowhere. -/
def unresolved? (catalog : Catalog num) (interpretation : Interpretation num) :
    Option (String × String) :=
  ((leafRefs interpretation.roots).find? fun reference =>
    (catalog.resolve? reference).isNone).map fun reference => (interpretation.name, reference)

/-- Enters for each interpretation the properties that it reads. -/
def withRequired (catalog : Catalog num) : Catalog num :=
  { catalog with
    interpretations := catalog.interpretations.map fun interpretation =>
      { interpretation with required := catalog.requiredProperties interpretation } }

/-- The catalog of what was authored. -/
def build (data : CatalogData num) : Except (ConfigurationError num) (Catalog num) := do
  let catalog ← data.properties.foldlM addProperty empty
  let catalog ← data.evaluations.foldlM addEvaluation catalog
  let catalog ← data.rules.foldlM addRule catalog
  match catalog.interpretations.findSome? catalog.unresolved? with
  | some (owner, reference) => throw (.unresolvedReference owner reference)
  | none =>
      match catalog.findCircle? with
      | some chain => throw (.referenceCycle chain)
      | none => return catalog.withRequired

end FuzzyRating.Catalog
