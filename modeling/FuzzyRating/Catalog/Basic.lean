import FuzzyRating.Evaluation.Definition
import FuzzyRating.InterpretationId
import FuzzyRating.Property
import FuzzyRating.Rule.Node

/-!
Catalogs of properties, evaluations and interpretations, and how their entries are looked up.
-/

namespace FuzzyRating

/-- The contents of a catalog as authored. -/
structure CatalogData (num : Type) where
  properties : List (Property num)
  evaluations : List (EvaluationDefinition num)
  rules : List RuleDefinition
  deriving Repr

/-- A rule whose tree is known, with the properties that it reads. -/
structure Interpretation (num : Type) where
  id : String
  name : String
  hash : InterpretationId
  roots : List (RuleTree num)
  required : List (Property num)
  deriving Repr

/-- Entries in the order in which they were authored. -/
structure Catalog (num : Type) where
  properties : List (Property num)
  evaluations : List (Evaluation num)
  interpretations : List (Interpretation num)
  deriving Repr

/-- The entry with this name, or else the last one with this id. -/
def findEntry? {alpha : Type} (name id : alpha → String) (entries : List alpha) (key : String) :
    Option alpha :=
  (entries.find? (name · == key)).or (entries.reverse.find? (id · == key))

namespace Catalog

variable {num : Type}

def empty : Catalog num :=
  ⟨[], [], []⟩

def property? (catalog : Catalog num) (key : String) : Option (Property num) :=
  findEntry? Property.name Property.id catalog.properties key

def evaluation? (catalog : Catalog num) (key : String) : Option (Evaluation num) :=
  findEntry? Evaluation.name Evaluation.id catalog.evaluations key

def interpretation? (catalog : Catalog num) (name : String) : Option (Interpretation num) :=
  catalog.interpretations.find? (·.name == name)

def interpretationById? (catalog : Catalog num) (hash : InterpretationId) :
    Option (Interpretation num) :=
  catalog.interpretations.find? (·.hash == hash)

def interpretationNames (catalog : Catalog num) : List String :=
  catalog.interpretations.map (·.name)

/-- The names that a leaf of a rule may refer to. -/
def referenceNames (catalog : Catalog num) : List String :=
  catalog.evaluations.map (·.name) ++ catalog.interpretationNames

/-- What a reference of a leaf stands for. An evaluation hides an interpretation. -/
inductive Target (num : Type) where
  | evaluation (evaluation : Evaluation num)
  | interpretation (interpretation : Interpretation num)

def resolve? (catalog : Catalog num) (reference : String) : Option (Target num) :=
  match catalog.evaluation? reference with
  | some evaluation => some (.evaluation evaluation)
  | none => (catalog.interpretation? reference).map .interpretation

/-- The interpretations that the leaves of an interpretation refer to, in order. -/
def subRules (catalog : Catalog num) (interpretation : Interpretation num) :
    List (Interpretation num) :=
  (leafRefs interpretation.roots).filterMap fun reference =>
    match catalog.resolve? reference with
    | some (.interpretation target) => some target
    | _ => none

end Catalog

end FuzzyRating
