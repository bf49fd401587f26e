import FuzzyRating.Proofs.Assessment.Extension

/-!
How missing data is treated decides which nodes are rated, but not whether an assessment succeeds, nor
where it fails, nor which values it uses.
-/

namespace FuzzyRating

variable {num : Type}

/-- Contexts that may differ in how missing data is treated and in what nodes were rated. -/
structure Context.SamePlace (first second : Context num) : Prop where
  data : first.data = second.data
  clampSpline : first.options.clampSpline = second.options.clampSpline
  maxDepth : first.options.maxDepth = second.options.maxDepth
  calls : first.calls = second.calls
  leafKeys : first.leafKeys = second.leafKeys
  values : first.values = second.values

namespace Context.SamePlace

variable {first second : Context num}

theorem fullKey (place : first.SamePlace second) (key : String) :
    first.fullKey key = second.fullKey key := by
  unfold Context.fullKey
  rw [place.leafKeys]

theorem entrance (place : first.SamePlace second) (name : String) :
    first.entrance name = second.entrance name := by
  unfold Context.entrance
  rw [place.leafKeys]

theorem pushLeaf (place : first.SamePlace second) (key : String) :
    (first.pushLeaf key).SamePlace (second.pushLeaf key) :=
  { place with leafKeys := congrArg (key :: ·) place.leafKeys }

theorem pushCall (place : first.SamePlace second) (name : String) :
    (first.pushCall name).SamePlace (second.pushCall name) :=
  { place with calls := congrArg (name :: ·) place.calls }

theorem popLeaf (place : first.SamePlace second) : first.popLeaf.SamePlace second.popLeaf :=
  { place with leafKeys := congrArg List.tail place.leafKeys }

theorem popCall (place : first.SamePlace second) : first.popCall.SamePlace second.popCall :=
  { place with calls := congrArg List.tail place.calls }

theorem recordValue (place : first.SamePlace second) (name : String) (value : PropertyValue num) :
    (first.recordValue name value).SamePlace (second.recordValue name value) :=
  { place with values := congrArg ((name, value) :: ·) place.values }

end Context.SamePlace

/-- Both succeed, or both fail in the same way. -/
inductive Outcome.Parallel {alpha : Type} : Outcome num alpha → Outcome num alpha → Prop
  | ok {first second : Context num} (value other : alpha) (place : first.SamePlace second) :
      Parallel (.ok value, first) (.ok other, second)
  | error {first second : Context num} (error : AssessmentError num)
      (place : first.SamePlace second) :
      Parallel (.error error, first) (.error error, second)

namespace Outcome.Parallel

variable {alpha beta : Type} {first second : Outcome num alpha}

theorem andThen {next other : alpha → Context num → Outcome num beta}
    (parallel : Parallel first second)
    (onward : ∀ value otherValue (before otherBefore : Context num),
      before.SamePlace otherBefore → Parallel (next value before) (other otherValue otherBefore)) :
    Parallel (first.andThen next) (second.andThen other) := by
  cases parallel with
  | ok value otherValue place => exact onward value otherValue _ _ place
  | error error place => exact .error error place

theorem popLeaf (parallel : Parallel first second) :
    Parallel (first.leaving Context.popLeaf) (second.leaving Context.popLeaf) := by
  cases parallel with
  | ok value other place => exact .ok value other place.popLeaf
  | error error place => exact .error error place.popLeaf

theorem popCall (parallel : Parallel first second) :
    Parallel (first.leaving Context.popCall) (second.leaving Context.popCall) := by
  cases parallel with
  | ok value other place => exact .ok value other place.popCall
  | error error place => exact .error error place.popCall

/-- If one of them succeeds, so does the other. -/
theorem exists_ok {value : alpha} {after : Context num} (parallel : Parallel first second)
    (succeeds : first = (.ok value, after)) :
    ∃ other otherAfter, second = (.ok other, otherAfter) := by
  cases parallel with
  | ok _ other _ => exact ⟨other, _, rfl⟩
  | error error _ => cases succeeds

end Outcome.Parallel

open Outcome (Parallel)

section Assessment

variable [Arith num] {catalog : Catalog num} {expand : Expansion num}
  {first second : Context num}

theorem assessEvaluation_parallel (evaluation : Evaluation num) (place : first.SamePlace second) :
    Parallel (assessEvaluation catalog evaluation first)
      (assessEvaluation catalog evaluation second) := by
  rw [assessEvaluation_eq, assessEvaluation_eq, place.data, place.clampSpline]
  dsimp only
  cases evaluation.membership second.options.clampSpline
      (second.data.valueOf catalog evaluation.propertyName) with
  | error error => exact .error _ (place.recordValue _ _)
  | ok rating => exact .ok _ _ (place.recordValue _ _)

/-- An expansion that goes on in step from places that are the same. -/
def Expansion.InStep (expand : Expansion num) : Prop :=
  ∀ target (first second : Context num), first.SamePlace second →
    Parallel (expand target first) (expand target second)

theorem assessLeaf_parallel (inStep : expand.InStep) (key refId : String)
    (place : first.SamePlace second) :
    Parallel (assessLeaf catalog expand key refId first)
      (assessLeaf catalog expand key refId second) := by
  unfold assessLeaf
  cases catalog.resolve? refId with
  | none => exact .error _ place
  | some target =>
      cases target with
      | evaluation evaluation => exact assessEvaluation_parallel evaluation place
      | interpretation target =>
          dsimp only
          rw [place.fullKey key]
          exact (inStep target _ _ (place.pushLeaf (second.fullKey key))).popLeaf

private theorem assessNodes_parallel_of {trees : List (RuleTree num)}
    (each : ∀ tree ∈ trees, ∀ first second : Context num, first.SamePlace second →
      Parallel (assessNode catalog expand first tree) (assessNode catalog expand second tree))
    (place : first.SamePlace second) :
    Parallel (assessNodes catalog expand first trees)
      (assessNodes catalog expand second trees) := by
  induction trees generalizing first second with
  | nil =>
      simp only [assessNodes]
      exact .ok _ _ place
  | cons tree trees inductionHypothesis =>
      simp only [assessNodes]
      refine (each tree List.mem_cons_self first second place).andThen
        fun value other before otherBefore middle => ?_
      have rest := inductionHypothesis
        (fun inner member => each inner (List.mem_cons_of_mem tree member)) middle
      exact rest.andThen fun _ _ _ _ last => .ok _ _ last

theorem assessNode_parallel (inStep : expand.InStep) (tree : RuleTree num)
    (place : first.SamePlace second) :
    Parallel (assessNode catalog expand first tree) (assessNode catalog expand second tree) := by
  induction tree using Tree.induction generalizing first second with
  | node label children inductionHypothesis =>
      have below := assessNodes_parallel_of
        (fun tree member _ _ => inductionHypothesis tree member) place
      simp only [assessNode]
      refine Parallel.andThen ?_ fun value other before otherBefore rated =>
        .ok _ _ { rated with }
      cases label.kind with
      | root => exact below.andThen fun _ _ _ _ last => .ok _ _ last
      | operator operator => exact below.andThen fun _ _ _ _ last => .ok _ _ last
      | hedge hedge parameter =>
          cases children with
          | nil =>
              dsimp only
              rw [place.fullKey label.key]
              exact .error _ place
          | cons child children =>
              have inChild := inductionHypothesis child List.mem_cons_self place
              exact inChild.andThen fun _ _ _ _ last => .ok _ _ last
      | evaluation refId => exact assessLeaf_parallel inStep label.key refId place

theorem assessRoots_parallel (inStep : expand.InStep) (roots : List (RuleTree num))
    (place : first.SamePlace second) :
    Parallel (assessRoots catalog expand first roots)
      (assessRoots catalog expand second roots) := by
  have all : Parallel (assessNodes catalog expand first roots)
      (assessNodes catalog expand second roots) :=
    assessNodes_parallel_of (fun tree _ _ _ => assessNode_parallel inStep tree) place
  unfold assessRoots
  split
  · exact assessNode_parallel inStep _ place
  · exact all.andThen fun _ _ _ _ last => .ok _ _ last

theorem expandWithin_inStep (room : Nat) :
    (expandWithin catalog room).InStep := by
  induction room with
  | zero =>
      intro target first second place
      have sameError : first.tooDeep target.name = second.tooDeep target.name := by
        unfold Context.tooDeep
        rw [place.entrance, place.maxDepth]
      simp only [expandWithin, sameError]
      exact .error _ place
  | succ room inductionHypothesis =>
      intro target first second place
      have sameError : first.circular target.name = second.circular target.name := by
        unfold Context.circular
        rw [place.entrance, place.calls]
      simp only [expandWithin, sameError, place.calls]
      split
      · exact .error _ place
      · exact (assessRoots_parallel inductionHypothesis target.roots
          (place.pushCall target.name)).popCall

theorem assess_parallel (target : Interpretation num) (place : first.SamePlace second) :
    Parallel (assess catalog target.name target.roots first)
      (assess catalog target.name target.roots second) := by
  rw [assess_eq_expandWithin, assess_eq_expandWithin, place.maxDepth, place.calls]
  exact (expandWithin_inStep _ target first second place).andThen fun _ _ _ _ last => .ok _ _ last

/-- If an assessment succeeds, it also does where missing data is treated in the other way. -/
theorem exists_assess_of_policy {target : Interpretation num} {subject : PropertyData num}
    {options : AssessmentOptions} {rating : Option num} {after : Context num}
    (assessed : assess catalog target.name target.roots (.start subject options) =
      (.ok rating, after))
    (policy : MissingData) :
    ∃ other otherAfter,
      assess catalog target.name target.roots
        (.start subject { options with missingData := policy }) = (.ok other, otherAfter) := by
  have place : (Context.start subject options).SamePlace
      (.start subject { options with missingData := policy }) :=
    ⟨rfl, rfl, rfl, rfl, rfl, rfl⟩
  exact (assess_parallel target place).exists_ok assessed

end Assessment

end FuzzyRating
