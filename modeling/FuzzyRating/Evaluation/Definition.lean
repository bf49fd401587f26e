import FuzzyRating.Crisp.Parser
import FuzzyRating.Curve.Interpolation

/-!
Evaluations, which turn the value of a property into a rating: as authored and as compiled.
-/

namespace FuzzyRating

/-- An evaluation as authored. -/
structure EvaluationDefinition (num : Type) where
  id : String
  name : String
  propertyName : String
  kind : String
  invert : Bool
  points : Option (List (Point num))
  /-- The places of the points of a sigmoid whose heights are not given. -/
  domain : Option (List num)
  interpolation : Option Interpolation
  crispExpression : Option String
  deriving Repr

namespace EvaluationDefinition

/-- The kind of a definition that declares none. -/
def defaultKind : String :=
  "fuzzy"

end EvaluationDefinition

/-- The declared kind of an evaluation. -/
inductive EvaluationKind where
  | crisp
  | fuzzy
  | continuous
  /-- The kind was given as the name of an interpolation. -/
  | curve (method : Interpolation)
  deriving DecidableEq, Repr

/-- How an evaluation rates a value. -/
inductive Shape (num : Type) where
  | crisp (source : String) (expression : Crisp.Expr num)
  | curve (method : Interpolation) (points : List (Point num))
  deriving Repr

/-- A compiled evaluation. -/
structure Evaluation (num : Type) where
  id : String
  name : String
  propertyName : String
  kind : EvaluationKind
  invert : Bool
  shape : Shape num
  deriving Repr

/-- Why a definition cannot be compiled. -/
inductive DefinitionError (num : Type) where
  | unknownKind (kind : String)
  | noExpression
  | badExpression (error : Crisp.ParseError)
  | infiniteDomain
  | domainWithoutSigmoid
  | noPoints
  | tooFewPoints (count : Nat)
  | pointOutOfRange (point : Point num)
  deriving Repr

namespace Evaluation

variable {num : Type} [Arith num]

/-- The kinds by their names. Nothing stands for fuzzy. -/
def kinds : List (String × EvaluationKind) :=
  [("crisp", .crisp), ("fuzzy", .fuzzy), ("", .fuzzy), ("continuous", .continuous)] ++
    Interpolation.variants.map fun (name, method) => (name, .curve method)

def readKind (kind : String) : Except (DefinitionError num) EvaluationKind :=
  let name := Text.lowerAscii (Text.trim kind)
  match kinds.lookup name with
  | some kind => .ok kind
  | none => .error (.unknownKind name)

/-- Whether a point may lie on a curve: finite, with a height between zero and one. -/
def isUsable (point : Point num) : Bool :=
  Arith.isFinite point.x && Arith.isFinite point.y && Arith.inUnit point.y

/-- The points that a definition gives, as given or spread over its domain. -/
def givenPoints (definition : EvaluationDefinition num) (method : Interpolation) :
    Except (DefinitionError num) (List (Point num)) :=
  match definition.points, definition.domain with
  | some points, _ => .ok points
  | none, some domain =>
      if method ≠ .sigmoid then .error .domainWithoutSigmoid
      else if domain.all Arith.isFinite then .ok (Curve.sigmoidPoints domain)
      else .error .infiniteDomain
  | none, none => .error .noPoints

/-- The points of the curve: at least two, all usable, and sorted. -/
def compilePoints (definition : EvaluationDefinition num) (method : Interpolation) :
    Except (DefinitionError num) (List (Point num)) := do
  let points ← givenPoints definition method
  if points.length < 2 then
    throw (.tooFewPoints points.length)
  match points.find? fun point => !isUsable point with
  | some point => throw (.pointOutOfRange point)
  | none => return Curve.sortPoints points

/-- The interpolation of a definition: the one it names, or the one its kind names, or linear. -/
def methodOf (definition : EvaluationDefinition num) (kind : EvaluationKind) : Interpolation :=
  let declared := match kind with
    | .curve method => some method
    | _ => none
  (definition.interpolation.or declared).getD .linear

def compileShape (definition : EvaluationDefinition num) (kind : EvaluationKind) :
    Except (DefinitionError num) (Shape num) := do
  match kind with
  | .crisp =>
      match definition.crispExpression with
      | none => throw .noExpression
      | some source =>
          match Crisp.parse source with
          | .ok expression => return .crisp source expression
          | .error error => throw (.badExpression error)
  | kind =>
      let method := methodOf definition kind
      return .curve method (← compilePoints definition method)

def ofDefinition (definition : EvaluationDefinition num) :
    Except (DefinitionError num) (Evaluation num) := do
  let kind ← readKind definition.kind
  let shape ← compileShape definition kind
  return { id := definition.id, name := definition.name,
           propertyName := definition.propertyName, kind, invert := definition.invert, shape }

end Evaluation

end FuzzyRating
