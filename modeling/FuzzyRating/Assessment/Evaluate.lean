import FuzzyRating.Assessment.Context
import FuzzyRating.Catalog.Basic
import FuzzyRating.Combination

/-!
Rating a subject by a rule tree. Children come before their parent. A leaf takes the value of a
property to a rating, or stands for another interpretation, whose nodes are then rated in its
place. The rating of every node is recorded under its full key.
-/

namespace FuzzyRating

/-- What a node comes to. -/
inductive NodeValue (num : Type) where
  | rated (value : num)
  | notRated
  /-- Data was missing below a hedge that makes the whole interpretation not rated. -/
  | vetoed
  deriving Repr, DecidableEq

namespace NodeValue

variable {num : Type} [Arith num]

def ofRating : Option num → NodeValue num
  | some value => rated value
  | none => notRated

def rating : NodeValue num → Option num
  | rated value => some value
  | _ => none

def isVetoed : NodeValue num → Bool
  | vetoed => true
  | _ => false

def isNotRated : NodeValue num → Bool
  | notRated => true
  | _ => false

/-- Combines the values of children. A veto wins over everything, and a child that is not rated
over the rated ones if missing data propagates. -/
def combine (policy : MissingData) (operator : Operator) (values : List (NodeValue num)) :
    NodeValue num :=
  if values.any isVetoed then vetoed
  else if policy = .propagate && values.any isNotRated then notRated
  else ofRating (operator.combine (values.map rating))

/-- The value after a hedge. -/
def hedged (hedge : Hedge) (parameter : Option num) : NodeValue num → NodeValue num
  | vetoed => vetoed
  | notRated => if hedge = .nullNotRated then vetoed else ofRating (hedge.apply parameter none)
  | rated value => ofRating (hedge.apply parameter (some value))

end NodeValue

/-- What rating something comes to, with the context then. What was recorded before a failure
stays. -/
abbrev Outcome (num alpha : Type) :=
  Except (AssessmentError num) alpha × Context num

namespace Outcome

variable {num alpha beta : Type}

/-- Goes on with the value, if there is one. -/
def andThen (outcome : Outcome num alpha) (next : alpha → Context num → Outcome num beta) :
    Outcome num beta :=
  match outcome with
  | (.ok value, ctx) => next value ctx
  | (.error error, ctx) => (.error error, ctx)

/-- Changes the context, whatever the outcome. -/
def leaving (outcome : Outcome num alpha) (change : Context num → Context num) :
    Outcome num alpha :=
  (outcome.1, change outcome.2)

end Outcome

variable {num : Type} [Arith num]

/-- The value of a property under the name that an evaluation uses, or else under the name or the
id that the catalog has for it. -/
def PropertyData.valueOf (data : PropertyData num) (catalog : Catalog num) (name : String) :
    PropertyValue num :=
  let declared := (catalog.property? name).bind fun property =>
    (data.get? property.name).or (data.get? property.id)
  ((data.get? name).or declared).getD .null

/-- The values that an evaluation can rate. -/
def Shape.ratable : Shape num → RatableValue
  | .crisp _ _ => .numberOrText
  | .curve _ _ => .number

def Evaluation.assessmentError (evaluation : Evaluation num) :
    MembershipError num → AssessmentError num
  | .invalidValue found =>
      .invalidData evaluation.propertyName evaluation.shape.ratable found
  | .noPoints => .failed evaluation.name .noPoints

/-- Rates the subject by an evaluation. -/
def assessEvaluation (catalog : Catalog num) (evaluation : Evaluation num) (ctx : Context num) :
    Outcome num (NodeValue num) :=
  let value := ctx.data.valueOf catalog evaluation.propertyName
  let ctx := ctx.recordValue evaluation.propertyName value
  match evaluation.membership ctx.options.clampSpline value with
  | .ok rating => (.ok (.ofRating rating), ctx)
  | .error error => (.error (evaluation.assessmentError error), ctx)

/-- How an interpretation is rated that a leaf refers to. -/
abbrev Expansion (num : Type) :=
  Interpretation num → Context num → Outcome num (NodeValue num)

/-- Rates the subject by a leaf. -/
def assessLeaf (catalog : Catalog num) (expand : Expansion num) (key refId : String)
    (ctx : Context num) : Outcome num (NodeValue num) :=
  match catalog.resolve? refId with
  | some (.evaluation evaluation) => assessEvaluation catalog evaluation ctx
  | some (.interpretation target) =>
      Outcome.leaving (expand target (ctx.pushLeaf (ctx.fullKey key))) Context.popLeaf
  | none => (.error (.notFound refId (Text.suggestions refId catalog.referenceNames)), ctx)

mutual

/-- Rates the subject by a tree and records the rating. -/
def assessNode (catalog : Catalog num) (expand : Expansion num) (ctx : Context num) :
    RuleTree num → Outcome num (NodeValue num)
  | .node label children =>
      let outcome := match label.kind with
        | .root =>
            (assessNodes catalog expand ctx children).andThen fun values ctx =>
              (.ok (NodeValue.combine ctx.options.missingData .and values), ctx)
        | .operator operator =>
            (assessNodes catalog expand ctx children).andThen fun values ctx =>
              (.ok (NodeValue.combine ctx.options.missingData operator values), ctx)
        | .hedge hedge parameter =>
            match children with
            | [] => (.error (.failed (ctx.fullKey label.key) (.childlessHedge hedge)), ctx)
            | child :: _ =>
                (assessNode catalog expand ctx child).andThen fun value ctx =>
                  (.ok (value.hedged hedge parameter), ctx)
        | .evaluation refId => assessLeaf catalog expand label.key refId ctx
      outcome.andThen fun value ctx => (.ok value, ctx.record label.key value.rating)

/-- Rates the subject by several trees, one after the other. -/
def assessNodes (catalog : Catalog num) (expand : Expansion num) (ctx : Context num) :
    List (RuleTree num) → Outcome num (List (NodeValue num))
  | [] => (.ok [], ctx)
  | tree :: trees =>
      (assessNode catalog expand ctx tree).andThen fun value ctx =>
        (assessNodes catalog expand ctx trees).andThen fun values ctx =>
          (.ok (value :: values), ctx)

end

/-- Rates the subject by the top-level trees of an interpretation. Several are combined as by
`and`. -/
def assessRoots (catalog : Catalog num) (expand : Expansion num) (ctx : Context num) :
    List (RuleTree num) → Outcome num (NodeValue num)
  | [root] => assessNode catalog expand ctx root
  | roots =>
      (assessNodes catalog expand ctx roots).andThen fun values ctx =>
        (.ok (NodeValue.combine ctx.options.missingData .and values), ctx)

/-- Rates the subject by an interpretation that a leaf refers to, where `room` more may be
entered. -/
def expandWithin (catalog : Catalog num) : Nat → Expansion num
  | 0, target, ctx => (.error (ctx.tooDeep target.name), ctx)
  | room + 1, target, ctx =>
      if ctx.calls.contains target.name then
        (.error (ctx.circular target.name), ctx)
      else
        Outcome.leaving
          (assessRoots catalog (expandWithin catalog room) (ctx.pushCall target.name) target.roots)
          Context.popCall

/-- Rates the subject by trees under a name. -/
def assess (catalog : Catalog num) (name : String) (roots : List (RuleTree num))
    (ctx : Context num) : Outcome num (Option num) :=
  match ctx.enter name with
  | .error error => (.error error, ctx)
  | .ok entered =>
      let room := ctx.options.maxDepth - entered.calls.length
      (Outcome.leaving (assessRoots catalog (expandWithin catalog room) entered roots)
        Context.popCall).andThen fun value ctx => (.ok value.rating, ctx)

end FuzzyRating
