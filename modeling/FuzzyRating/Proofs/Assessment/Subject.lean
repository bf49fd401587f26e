import FuzzyRating.Assessment.Report
import FuzzyRating.Proofs.Assessment.Extension

/-!
An assessment depends on its subject only through the values that it records.
-/

namespace FuzzyRating

variable {num : Type}

/-- The same context for another subject. -/
def Context.withData (ctx : Context num) (data : PropertyData num) : Context num :=
  { ctx with data }

/-- Two subjects have the same value under every name in a journal. -/
def AgreeOn (catalog : Catalog num) (subject other : PropertyData num)
    (values : Journal (PropertyValue num)) : Prop :=
  ∀ entry ∈ values, subject.valueOf catalog entry.1 = other.valueOf catalog entry.1

theorem AgreeOn.of_subset {catalog : Catalog num} {subject other : PropertyData num}
    {fewer more : Journal (PropertyValue num)} (agree : AgreeOn catalog subject other more)
    (subset : fewer ⊆ more) :
    AgreeOn catalog subject other fewer :=
  fun entry member => agree entry (subset member)

/-- What a part of an assessment does, it also does for a subject that has the same values under
all names recorded in the end. -/
structure ReadsOnlyRecorded {alpha : Type} (catalog : Catalog num) (other : PropertyData num)
    (part : Context num → Outcome num alpha) : Prop where
  extension : ∀ ctx, Context.Extends catalog ctx (part ctx).2
  same : ∀ ctx, AgreeOn catalog ctx.data other (part ctx).2.values →
    part (ctx.withData other) = (part ctx).leaving (·.withData other)

namespace ReadsOnlyRecorded

variable {alpha beta : Type} {catalog : Catalog num} {other : PropertyData num}

/-- A part that records nothing and looks at nothing. -/
theorem idle {result : Context num → Except (AssessmentError num) alpha}
    (blind : ∀ ctx, result (ctx.withData other) = result ctx) :
    ReadsOnlyRecorded catalog other fun ctx => (result ctx, ctx) where
  extension := Context.Extends.refl
  same ctx _ := by
    rw [blind ctx]
    rfl

theorem andThen {part : Context num → Outcome num alpha}
    {next : alpha → Context num → Outcome num beta}
    (first : ReadsOnlyRecorded catalog other part)
    (second : ∀ value, ReadsOnlyRecorded catalog other (next value)) :
    ReadsOnlyRecorded catalog other fun ctx => (part ctx).andThen next where
  extension ctx := (first.extension ctx).andThen fun value after => (second value).extension after
  same ctx agree := by
    have extension := first.extension ctx
    have firstSame := first.same ctx
    rcases outcome : part ctx with ⟨error | value, middle⟩
    · rw [outcome] at agree firstSame
      rw [firstSame agree]
      rfl
    · rw [outcome] at agree firstSame extension
      have later := (second value).extension middle
      have middleAgree : AgreeOn catalog middle.data other (next value middle).2.values := by
        rw [extension.data]
        exact agree
      rw [firstSame (agree.of_subset later.values_subset)]
      exact (second value).same middle middleAgree

theorem record (key : String) (rating : Option num) (value : alpha) :
    ReadsOnlyRecorded catalog other fun ctx => (.ok value, ctx.record key rating) where
  extension ctx := Context.Extends.record ctx key rating
  same _ _ := rfl

theorem popLeaf {part : Context num → Outcome num alpha} {key : Context num → String}
    (inner : ReadsOnlyRecorded catalog other part)
    (blind : ∀ ctx, key (ctx.withData other) = key ctx) :
    ReadsOnlyRecorded catalog other fun ctx =>
      (part (ctx.pushLeaf (key ctx))).leaving Context.popLeaf where
  extension ctx := (inner.extension (ctx.pushLeaf (key ctx))).popLeaf
  same ctx agree := by
    have same := inner.same (ctx.pushLeaf (key ctx)) agree
    rw [blind ctx]
    exact congrArg (Outcome.leaving · Context.popLeaf) same

theorem popCall {part : Context num → Outcome num alpha} {name : String}
    (inner : ReadsOnlyRecorded catalog other part) :
    ReadsOnlyRecorded catalog other fun ctx =>
      (part (ctx.pushCall name)).leaving Context.popCall where
  extension ctx := (inner.extension (ctx.pushCall name)).popCall
  same ctx agree :=
    congrArg (Outcome.leaving · Context.popCall) (inner.same (ctx.pushCall name) agree)

end ReadsOnlyRecorded

section Assessment

variable [Arith num] {catalog : Catalog num} {other : PropertyData num} {expand : Expansion num}

theorem assessEvaluation_readsOnlyRecorded (evaluation : Evaluation num) :
    ReadsOnlyRecorded catalog other (assessEvaluation catalog evaluation) where
  extension := assessEvaluation_extends evaluation
  same ctx agree := by
    rw [assessEvaluation_eq] at agree
    have valueEq : ctx.data.valueOf catalog evaluation.propertyName =
        other.valueOf catalog evaluation.propertyName :=
      agree _ List.mem_cons_self
    rw [assessEvaluation_eq, assessEvaluation_eq]
    simp only [Context.withData, Outcome.leaving, valueEq, Context.recordValue]

theorem assessLeaf_readsOnlyRecorded
    (expands : ∀ target, ReadsOnlyRecorded catalog other (expand target)) (key refId : String) :
    ReadsOnlyRecorded catalog other (assessLeaf catalog expand key refId) := by
  unfold assessLeaf
  cases catalog.resolve? refId with
  | none => exact ReadsOnlyRecorded.idle fun _ => rfl
  | some target =>
      cases target with
      | evaluation evaluation => exact assessEvaluation_readsOnlyRecorded evaluation
      | interpretation target => exact (expands target).popLeaf fun _ => rfl

private theorem assessNodes_readsOnlyRecorded_of {trees : List (RuleTree num)}
    (each : ∀ tree ∈ trees,
      ReadsOnlyRecorded catalog other fun ctx => assessNode catalog expand ctx tree) :
    ReadsOnlyRecorded catalog other fun ctx => assessNodes catalog expand ctx trees := by
  induction trees with
  | nil =>
      simp only [assessNodes]
      exact ReadsOnlyRecorded.idle fun _ => rfl
  | cons tree trees inductionHypothesis =>
      simp only [assessNodes]
      have first := each tree List.mem_cons_self
      have rest := inductionHypothesis fun other member =>
        each other (List.mem_cons_of_mem tree member)
      exact first.andThen fun value => rest.andThen fun values =>
        ReadsOnlyRecorded.idle fun _ => rfl

theorem assessNode_readsOnlyRecorded
    (expands : ∀ target, ReadsOnlyRecorded catalog other (expand target)) (tree : RuleTree num) :
    ReadsOnlyRecorded catalog other fun ctx => assessNode catalog expand ctx tree := by
  induction tree using Tree.induction with
  | node label children inductionHypothesis =>
      have below := assessNodes_readsOnlyRecorded_of inductionHypothesis
      simp only [assessNode]
      refine ReadsOnlyRecorded.andThen ?_ fun value =>
        ReadsOnlyRecorded.record label.key value.rating value
      cases label.kind with
      | root => exact below.andThen fun values => ReadsOnlyRecorded.idle fun _ => rfl
      | operator operator => exact below.andThen fun values => ReadsOnlyRecorded.idle fun _ => rfl
      | hedge hedge parameter =>
          cases children with
          | nil => exact ReadsOnlyRecorded.idle fun _ => rfl
          | cons child children =>
              have first := inductionHypothesis child List.mem_cons_self
              exact first.andThen fun value => ReadsOnlyRecorded.idle fun _ => rfl
      | evaluation refId => exact assessLeaf_readsOnlyRecorded expands label.key refId

theorem assessRoots_readsOnlyRecorded
    (expands : ∀ target, ReadsOnlyRecorded catalog other (expand target))
    (roots : List (RuleTree num)) :
    ReadsOnlyRecorded catalog other fun ctx => assessRoots catalog expand ctx roots := by
  have all : ReadsOnlyRecorded catalog other fun ctx => assessNodes catalog expand ctx roots :=
    assessNodes_readsOnlyRecorded_of fun tree _ => assessNode_readsOnlyRecorded expands tree
  unfold assessRoots
  split
  · exact assessNode_readsOnlyRecorded expands _
  · exact all.andThen fun values => ReadsOnlyRecorded.idle fun _ => rfl

theorem expandWithin_readsOnlyRecorded (room : Nat) (target : Interpretation num) :
    ReadsOnlyRecorded catalog other (expandWithin catalog room target) := by
  induction room generalizing target with
  | zero =>
      simp only [expandWithin]
      exact ReadsOnlyRecorded.idle fun _ => rfl
  | succ room inductionHypothesis =>
      have roots := assessRoots_readsOnlyRecorded inductionHypothesis target.roots
      have entered : ReadsOnlyRecorded catalog other fun ctx =>
          (assessRoots catalog (expandWithin catalog room) (ctx.pushCall target.name)
            target.roots).leaving Context.popCall :=
        roots.popCall
      constructor
      · exact expandWithin_extends (room + 1) target
      · intro ctx
        simp only [expandWithin]
        change _ → (if ctx.calls.contains target.name then _ else _) = _
        split
        · exact fun _ => rfl
        · exact entered.same ctx

theorem assess_readsOnlyRecorded (target : Interpretation num) :
    ReadsOnlyRecorded catalog other (assess catalog target.name target.roots) where
  extension := assess_extends target.name target.roots
  same ctx agree := by
    have expanded : ReadsOnlyRecorded catalog other fun before =>
        (expandWithin catalog (ctx.options.maxDepth - ctx.calls.length) target before).andThen
          fun value after => (.ok value.rating, after) :=
      (expandWithin_readsOnlyRecorded _ target).andThen fun value =>
        ReadsOnlyRecorded.idle fun _ => rfl
    rw [assess_eq_expandWithin] at agree
    rw [assess_eq_expandWithin, assess_eq_expandWithin]
    exact expanded.same ctx agree

/-- Subjects with the same values get the same reports. -/
theorem Interpretation.report_congr {data : PropertyData num}
    (same : ∀ key, data.get? key = other.get? key) (config : Config num)
    (target : Interpretation num) :
    target.report config catalog data = target.report config catalog other := by
  have agree (values : Journal (PropertyValue num)) : AgreeOn catalog data other values := by
    intro entry _
    unfold PropertyData.valueOf
    simp only [same]
  have assessed : assess catalog target.name target.roots (.start other config.options) =
      (assess catalog target.name target.roots (.start data config.options)).leaving
        (·.withData other) :=
    (assess_readsOnlyRecorded target).same (.start data config.options) (agree _)
  unfold Interpretation.report
  dsimp only
  rw [assessed]
  rfl

end Assessment

end FuzzyRating
