import FuzzyRating.Catalog.Basic
import FuzzyRating.ConfigurationError
import FuzzyRating.Json.Record
import FuzzyRating.Json.Value
import FuzzyRating.PropertyData

/-!
Catalogs, and the data of subjects, in JSON.
-/

namespace FuzzyRating

open Json (Field Record Reader Value required)

/-! ## Values of subjects -/

/-- A number, a string or `null`. -/
def PropertyValue.reader : Reader (PropertyValue Float) := fun depth text => do
  match ← Json.anyReader depth text with
  | (.number value, rest) => .ok (.number value, rest)
  | (.text value, rest) => .ok (.text value, rest)
  | (.null, rest) => .ok (.null, rest)
  | (.other, rest) => .error (.within (.noVariant "PropertyValue") rest)

def PropertyValue.toJson : PropertyValue Float → Value
  | number value => .number value
  | text value => .text value
  | null => .null

/-- An object with a value under each key. The last value of a key counts. -/
def PropertyData.reader : Reader (PropertyData Float) :=
  Json.mapReader PropertyData.insert .empty PropertyValue.reader

/-- The values in the order of their keys. -/
def PropertyData.toJson (data : PropertyData Float) : Value :=
  .object (data.sorted.map fun (key, value) => (key, value.toJson))

/-! ## Properties -/

structure PropertyDraft where
  id : Option String
  name : Option String
  unitOfMeasure : Option (Option String)
  min : Option (Option Float)
  max : Option (Option Float)
  modifier : Option String
  isCategorical : Option Bool

def Property.record : Record PropertyDraft (Property Float) where
  name := "Property"
  fields :=
    [.of "id" false Json.textReader (·.id) fun x d => { d with id := some x },
      .of "name" false Json.textReader (·.name) fun x d => { d with name := some x },
      .of "unitOfMeasure" true (Json.optionReader Json.textReader) (·.unitOfMeasure)
        fun x d => { d with unitOfMeasure := some x },
      .of "min" true (Json.optionReader Json.floatReader) (·.min)
        fun x d => { d with min := some x },
      .of "max" true (Json.optionReader Json.floatReader) (·.max)
        fun x d => { d with max := some x },
      .of "modifier" true Json.textReader (·.modifier) fun x d => { d with modifier := some x },
      .of "isCategorical" true Json.boolReader (·.isCategorical)
        fun x d => { d with isCategorical := some x }]
  empty := ⟨none, none, none, none, none, none, none⟩
  finish draft := do
    return { id := ← required "id" draft.id
             name := ← required "name" draft.name
             unitOfMeasure := draft.unitOfMeasure.join
             min := draft.min.join
             max := draft.max.join
             modifier := draft.modifier.getD ""
             isCategorical := draft.isCategorical.getD false }

def Property.toJson (property : Property Float) : Value :=
  .object <|
    [("id", .text property.id), ("name", .text property.name)] ++
      Value.optionalMember "unitOfMeasure" .text property.unitOfMeasure ++
      Value.optionalMember "min" .number property.min ++
      Value.optionalMember "max" .number property.max ++
      [("modifier", .text property.modifier), ("isCategorical", .bool property.isCategorical)]

/-! ## Evaluations -/

structure PointDraft where
  x : Option Float
  y : Option Float

def Point.record : Record PointDraft (Point Float) where
  name := "EvaluationPoint"
  fields :=
    [.of "x" false Json.floatReader (·.x) fun x d => { d with x := some x },
      .of "y" false Json.floatReader (·.y) fun y d => { d with y := some y }]
  empty := ⟨none, none⟩
  finish draft := do
    return { x := ← required "x" draft.x, y := ← required "y" draft.y }

def Point.toJson (point : Point Float) : Value :=
  .object [("x", .number point.x), ("y", .number point.y)]

structure DefinitionDraft where
  id : Option String
  name : Option String
  propertyName : Option String
  kind : Option String
  invert : Option Bool
  points : Option (Option (List (Point Float)))
  domain : Option (Option (List Float))
  interpolation : Option (Option Interpolation)
  crispExpression : Option (Option String)

def EvaluationDefinition.record : Record DefinitionDraft (EvaluationDefinition Float) where
  name := "EvaluationDefinition"
  fields :=
    [.of "id" false Json.textReader (·.id) fun x d => { d with id := some x },
      .of "name" false Json.textReader (·.name) fun x d => { d with name := some x },
      .of "propertyName" false Json.textReader (·.propertyName)
        fun x d => { d with propertyName := some x },
      .of "type" true Json.textReader (·.kind) fun x d => { d with kind := some x },
      .of "invert" true Json.boolReader (·.invert) fun x d => { d with invert := some x },
      .of "points" true (Json.optionReader (Json.listReader Point.record.reader)) (·.points)
        fun x d => { d with points := some x },
      .of "domain" true (Json.optionReader (Json.listReader Json.floatReader)) (·.domain)
        fun x d => { d with domain := some x },
      .of "interpolation" true
        (Json.optionReader (Json.variantReader Interpolation.variants)) (·.interpolation)
        fun x d => { d with interpolation := some x },
      .of "crispExpression" true (Json.optionReader Json.textReader) (·.crispExpression)
        fun x d => { d with crispExpression := some x }]
  empty := ⟨none, none, none, none, none, none, none, none, none⟩
  finish draft := do
    return { id := ← required "id" draft.id
             name := ← required "name" draft.name
             propertyName := ← required "propertyName" draft.propertyName
             kind := draft.kind.getD EvaluationDefinition.defaultKind
             invert := draft.invert.getD false
             points := draft.points.join
             domain := draft.domain.join
             interpolation := draft.interpolation.join
             crispExpression := draft.crispExpression.join }

def EvaluationDefinition.toJson (definition : EvaluationDefinition Float) : Value :=
  .object <|
    [("id", .text definition.id), ("name", .text definition.name),
      ("propertyName", .text definition.propertyName), ("type", .text definition.kind),
      ("invert", .bool definition.invert)] ++
      Value.optionalMember "points" (fun points => .array (points.map Point.toJson))
        definition.points ++
      Value.optionalMember "domain" (fun domain => .array (domain.map .number))
        definition.domain ++
      Value.optionalMember "interpolation" (fun method => .text method.name)
        definition.interpolation ++
      Value.optionalMember "crispExpression" .text definition.crispExpression

/-! ## Rules -/

structure RuleNodeDraft where
  levelName : Option String
  nodeKind : Option (Option String)
  value : Option (Option String)
  refId : Option (Option String)
  children : Option (List RuleNode)

/-- A node of a rule whose children are read by `children`. -/
def RuleNode.record (children : Reader (List RuleNode)) : Record RuleNodeDraft RuleNode where
  name := "RuleNode"
  fields :=
    [.of "levelName" false Json.textReader (·.levelName)
        fun x d => { d with levelName := some x },
      .of "nodeKind" true (Json.optionReader Json.textReader) (·.nodeKind)
        fun x d => { d with nodeKind := some x },
      .of "value" true (Json.optionReader Json.textReader) (·.value)
        fun x d => { d with value := some x },
      .of "refId" true (Json.optionReader Json.textReader) (·.refId)
        fun x d => { d with refId := some x },
      .of "children" true children (·.children) fun x d => { d with children := some x }]
  empty := ⟨none, none, none, none, none⟩
  finish draft := do
    return .node (← required "levelName" draft.levelName) draft.nodeKind.join draft.value.join
      draft.refId.join (draft.children.getD [])

/-- Nodes of which fewer than `levels` stand within one another. -/
def RuleNode.readerWithin : Nat → Reader RuleNode
  | 0 => fun _ text => .error (.ahead .tooDeep text)
  | levels + 1 => (RuleNode.record (Json.listReader (readerWithin levels))).reader

/-- Nodes within one another. Their number is less than the depth that is read. -/
def RuleNode.reader : Reader RuleNode :=
  RuleNode.readerWithin Json.startDepth

mutual

def RuleNode.toJson : RuleNode → Value
  | .node levelName nodeKind value refId children =>
      .object <|
        [("levelName", .text levelName)] ++
          Value.optionalMember "nodeKind" .text nodeKind ++
          Value.optionalMember "value" .text value ++
          Value.optionalMember "refId" .text refId ++
          match children with
          | [] => []
          | child :: children => [("children", .array (toJson child :: listToJson children))]

def RuleNode.listToJson : List RuleNode → List Value
  | [] => []
  | first :: nodes => toJson first :: listToJson nodes

end

structure RuleDraft where
  id : Option String
  name : Option String
  nodes : Option (List RuleNode)

def RuleDefinition.record : Record RuleDraft RuleDefinition where
  name := "RuleDefinition"
  fields :=
    [.of "id" false Json.textReader (·.id) fun x d => { d with id := some x },
      .of "name" false Json.textReader (·.name) fun x d => { d with name := some x },
      .of "nodes" true (Json.listReader RuleNode.reader) (·.nodes)
        fun x d => { d with nodes := some x }]
  empty := ⟨none, none, none⟩
  finish draft := do
    return { id := ← required "id" draft.id
             name := ← required "name" draft.name
             nodes := draft.nodes.getD [] }

def RuleDefinition.toJson (rule : RuleDefinition) : Value :=
  .object [("id", .text rule.id), ("name", .text rule.name),
    ("nodes", .array (RuleNode.listToJson rule.nodes))]

/-! ## Catalogs -/

structure CatalogDraft where
  properties : Option (List (Property Float))
  evaluations : Option (List (EvaluationDefinition Float))
  rules : Option (List RuleDefinition)

def CatalogData.record : Record CatalogDraft (CatalogData Float) where
  name := "CatalogData"
  fields :=
    [.of "properties" true (Json.listReader Property.record.reader) (·.properties)
        fun x d => { d with properties := some x },
      .of "evaluations" true (Json.listReader EvaluationDefinition.record.reader) (·.evaluations)
        fun x d => { d with evaluations := some x },
      .of "rules" true (Json.listReader RuleDefinition.record.reader) (·.rules)
        fun x d => { d with rules := some x }]
  empty := ⟨none, none, none⟩
  finish draft :=
    .ok { properties := draft.properties.getD []
          evaluations := draft.evaluations.getD []
          rules := draft.rules.getD [] }

def CatalogData.toJson (data : CatalogData Float) : Value :=
  .object [("properties", .array (data.properties.map Property.toJson)),
    ("evaluations", .array (data.evaluations.map EvaluationDefinition.toJson)),
    ("rules", .array (data.rules.map RuleDefinition.toJson))]

/-- Reads a catalog. Errors name the origin of the text. -/
def CatalogData.ofJson (origin source : String) :
    Except (ConfigurationError Float) (CatalogData Float) :=
  (Json.parse CatalogData.record.reader source).mapError (.json origin)

end FuzzyRating
