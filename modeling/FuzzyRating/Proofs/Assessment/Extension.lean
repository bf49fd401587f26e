import FuzzyRating.Assessment.Evaluate
import FuzzyRating.Proofs.Journal
import FuzzyRating.Proofs.Tree

/-!
What an assessment does to the context, whether it succeeds or fails: it records ratings and
values, and leaves everything else as it was. Each value recorded is the one that the subject has.
-/

namespace FuzzyRating

variable {num : Type}

namespace Outcome

variable {alpha beta : Type}

@[simp]
theorem andThen_ok (value : alpha) (ctx : Context num)
    (next : alpha → Context num → Outcome num beta) :
    Outcome.andThen (.ok value, ctx) next = next value ctx :=
  rfl

@[simp]
theorem andThen_error (error : AssessmentError num) (ctx : Context num)
    (next : alpha → Context num → Outcome num beta) :
    Outcome.andThen (.error error, ctx) next = (.error error, ctx) :=
  rfl

theorem andThen_assoc {gamma : Type} (outcome : Outcome num alpha)
    (next : alpha → Context num → Outcome num beta)
    (last : beta → Context num → Outcome num gamma) :
    (outcome.andThen next).andThen last =
      outcome.andThen fun value ctx => (next value ctx).andThen last := by
  rcases outcome with ⟨error | value, ctx⟩ <;> rfl

/-- A value comes out of two steps exactly if one comes out of each. -/
theorem andThen_eq_ok_iff {outcome : Outcome num alpha}
    {next : alpha → Context num → Outcome num beta} {result : beta} {after : Context num} :
    outcome.andThen next = (.ok result, after) ↔
      ∃ value middle, outcome = (.ok value, middle) ∧ next value middle = (.ok result, after) := by
  constructor
  · rcases outcome with ⟨error | value, middle⟩
    · intro impossible
      simp at impossible
    · exact fun second => ⟨value, middle, rfl, second⟩
  · rintro ⟨value, middle, rfl, second⟩
    exact second

/-- Two steps fail exactly if the first one does, or the second one after the first. -/
theorem andThen_eq_error_iff {outcome : Outcome num alpha}
    {next : alpha → Context num → Outcome num beta} {error : AssessmentError num}
    {after : Context num} :
    outcome.andThen next = (.error error, after) ↔
      outcome = (.error error, after) ∨
        ∃ value middle,
          outcome = (.ok value, middle) ∧ next value middle = (.error error, after) := by
  constructor
  · rcases outcome with ⟨first | value, middle⟩
    · intro equality
      simp only [andThen_error, Prod.mk.injEq, Except.error.injEq] at equality
      obtain ⟨rfl, rfl⟩ := equality
      exact Or.inl rfl
    · exact fun second => Or.inr ⟨value, middle, rfl, second⟩
  · rintro (rfl | ⟨value, middle, rfl, second⟩)
    · rfl
    · exact second

@[simp]
theorem leaving_fst (outcome : Outcome num alpha) (change : Context num → Context num) :
    (outcome.leaving change).1 = outcome.1 :=
  rfl

@[simp]
theorem leaving_snd (outcome : Outcome num alpha) (change : Context num → Context num) :
    (outcome.leaving change).2 = change outcome.2 :=
  rfl

theorem leaving_eq_iff {outcome : Outcome num alpha} {change : Context num → Context num}
    {result : Except (AssessmentError num) alpha} {after : Context num} :
    outcome.leaving change = (result, after) ↔
      ∃ middle, outcome = (result, middle) ∧ change middle = after := by
  constructor
  · intro equality
    obtain ⟨first, second⟩ := Prod.mk.inj equality
    exact ⟨outcome.2, Prod.ext first rfl, second⟩
  · rintro ⟨middle, rfl, rfl⟩
    rfl

end Outcome

/-- The context `after` comes from `before` by recording ratings, and values that the subject has
for properties. -/
structure Context.Extends (catalog : Catalog num) (before after : Context num) : Prop where
  data : after.data = before.data
  options : after.options = before.options
  calls : after.calls = before.calls
  leafKeys : after.leafKeys = before.leafKeys
  ratings : before.ratings <:+ after.ratings
  values : ∃ added, after.values = added ++ before.values ∧
    ∀ entry ∈ added, entry.2 = before.data.valueOf catalog entry.1

namespace Context.Extends

variable {catalog : Catalog num}

theorem refl (ctx : Context num) : Extends catalog ctx ctx where
  data := rfl
  options := rfl
  calls := rfl
  leafKeys := rfl
  ratings := List.suffix_refl ctx.ratings
  values := ⟨[], rfl, by simp⟩

theorem trans {before middle after : Context num}
    (first : Extends catalog before middle) (second : Extends catalog middle after) :
    Extends catalog before after where
  data := second.data.trans first.data
  options := second.options.trans first.options
  calls := second.calls.trans first.calls
  leafKeys := second.leafKeys.trans first.leafKeys
  ratings := first.ratings.trans second.ratings
  values := by
    obtain ⟨early, earlyEq, earlyValues⟩ := first.values
    obtain ⟨late, lateEq, lateValues⟩ := second.values
    refine ⟨late ++ early, ?_, ?_⟩
    · rw [lateEq, earlyEq, List.append_assoc]
    · intro entry member
      rcases List.mem_append.mp member with inLate | inEarly
      · rw [lateValues entry inLate, first.data]
      · exact earlyValues entry inEarly

theorem record (ctx : Context num) (key : String) (rating : Option num) :
    Extends catalog ctx (ctx.record key rating) where
  data := rfl
  options := rfl
  calls := rfl
  leafKeys := rfl
  ratings := List.suffix_cons _ ctx.ratings
  values := ⟨[], rfl, by simp⟩

theorem recordValue (ctx : Context num) (name : String) :
    Extends catalog ctx (ctx.recordValue name (ctx.data.valueOf catalog name)) where
  data := rfl
  options := rfl
  calls := rfl
  leafKeys := rfl
  ratings := List.suffix_refl ctx.ratings
  values := ⟨[(name, ctx.data.valueOf catalog name)], rfl, by simp⟩

theorem popLeaf {before after : Context num} {key : String}
    (extension : Extends catalog (before.pushLeaf key) after) :
    Extends catalog before after.popLeaf where
  data := extension.data
  options := extension.options
  calls := extension.calls
  leafKeys := by
    rw [Context.popLeaf, extension.leafKeys]
    rfl
  ratings := extension.ratings
  values := extension.values

theorem popCall {before after : Context num} {name : String}
    (extension : Extends catalog (before.pushCall name) after) :
    Extends catalog before after.popCall where
  data := extension.data
  options := extension.options
  calls := by
    rw [Context.popCall, extension.calls]
    rfl
  leafKeys := extension.leafKeys
  ratings := extension.ratings
  values := extension.values

/-- Two steps extend the context if each does. -/
theorem andThen {alpha beta : Type} {ctx : Context num} {outcome : Outcome num alpha}
    {next : alpha → Context num → Outcome num beta}
    (first : Extends catalog ctx outcome.2)
    (second : ∀ value after, Extends catalog after (next value after).2) :
    Extends catalog ctx (outcome.andThen next).2 := by
  rcases outcome with ⟨error | value, middle⟩
  · exact first
  · exact first.trans (second value middle)

/-- Every value recorded beyond the former ones is the one that the subject has. -/
theorem mem_values {before after : Context num} (extension : Extends catalog before after)
    {entry : String × PropertyValue num} (member : entry ∈ after.values) :
    entry ∈ before.values ∨ entry.2 = before.data.valueOf catalog entry.1 := by
  obtain ⟨added, valuesEq, addedValues⟩ := extension.values
  rw [valuesEq] at member
  rcases List.mem_append.mp member with inAdded | inBefore
  · exact Or.inr (addedValues entry inAdded)
  · exact Or.inl inBefore

theorem values_subset {before after : Context num} (extension : Extends catalog before after) :
    before.values ⊆ after.values := by
  obtain ⟨added, valuesEq, _⟩ := extension.values
  rw [valuesEq]
  exact List.subset_append_right added before.values

end Context.Extends

/-! ## Entering interpretations -/

/-- An interpretation is entered where not too many are being assessed, and it is not one of them. -/
theorem Context.enter_eq_ok_iff {ctx entered : Context num} {name : String} :
    ctx.enter name = .ok entered ↔
      ctx.calls.length < ctx.options.maxDepth ∧ name ∉ ctx.calls ∧
        entered = ctx.pushCall name := by
  unfold enter
  by_cases deep : ctx.options.maxDepth ≤ ctx.calls.length
  · rw [if_pos deep]
    exact ⟨nofun, fun entered => absurd deep (Nat.not_le_of_lt entered.1)⟩
  · by_cases known : ctx.calls.contains name = true
    · rw [if_neg deep, if_pos known]
      exact ⟨nofun, fun entered => absurd (List.contains_iff_mem.mp known) entered.2.1⟩
    · rw [if_neg deep, if_neg known, Except.ok.injEq, eq_comm]
      have unknown : name ∉ ctx.calls := fun member => known (List.contains_iff_mem.mpr member)
      exact ⟨fun same => ⟨Nat.lt_of_not_le deep, unknown, same⟩, fun entered => entered.2.2⟩

/-- How many more interpretations may be entered. -/
def Context.room (ctx : Context num) : Nat :=
  ctx.options.maxDepth - ctx.calls.length

theorem Context.Extends.room {catalog : Catalog num} {before after : Context num}
    (extension : Extends catalog before after) : after.room = before.room := by
  unfold Context.room
  rw [extension.options, extension.calls]

/-! ## Assessments extend the context -/

section Assessment

variable [Arith num] {catalog : Catalog num} {expand : Expansion num}

/-- An evaluation records the value that it rates, also if it cannot rate it. -/
theorem assessEvaluation_eq (evaluation : Evaluation num) (ctx : Context num) :
    assessEvaluation catalog evaluation ctx =
      let value := ctx.data.valueOf catalog evaluation.propertyName
      (((evaluation.membership ctx.options.clampSpline value).map NodeValue.ofRating).mapError
          evaluation.assessmentError,
        ctx.recordValue evaluation.propertyName value) := by
  unfold assessEvaluation
  dsimp only [Context.recordValue]
  split
  · next rating equality =>
      rw [equality]
      rfl
  · next error equality =>
      rw [equality]
      rfl

theorem assessEvaluation_extends (evaluation : Evaluation num) (ctx : Context num) :
    Context.Extends catalog ctx (assessEvaluation catalog evaluation ctx).2 := by
  rw [assessEvaluation_eq]
  exact Context.Extends.recordValue ctx evaluation.propertyName

theorem assessLeaf_extends
    (expands : ∀ target ctx, Context.Extends catalog ctx (expand target ctx).2)
    (key refId : String) (ctx : Context num) :
    Context.Extends catalog ctx (assessLeaf catalog expand key refId ctx).2 := by
  unfold assessLeaf
  split
  · exact assessEvaluation_extends _ ctx
  · exact (expands _ _).popLeaf
  · exact Context.Extends.refl ctx

private theorem assessNodes_extends_of {trees : List (RuleTree num)}
    (each : ∀ tree ∈ trees, ∀ ctx,
      Context.Extends catalog ctx (assessNode catalog expand ctx tree).2) :
    ∀ ctx, Context.Extends catalog ctx (assessNodes catalog expand ctx trees).2 := by
  induction trees with
  | nil =>
      intro ctx
      rw [assessNodes]
      exact Context.Extends.refl ctx
  | cons tree trees inductionHypothesis =>
      intro ctx
      rw [assessNodes]
      have first := each tree List.mem_cons_self ctx
      have rest := inductionHypothesis fun other member =>
        each other (List.mem_cons_of_mem tree member)
      exact first.andThen fun value middle =>
        (rest middle).andThen fun values after => Context.Extends.refl after

theorem assessNode_extends
    (expands : ∀ target ctx, Context.Extends catalog ctx (expand target ctx).2)
    (tree : RuleTree num) :
    ∀ ctx, Context.Extends catalog ctx (assessNode catalog expand ctx tree).2 := by
  induction tree using Tree.induction with
  | node label children inductionHypothesis =>
      intro ctx
      have below := assessNodes_extends_of inductionHypothesis ctx
      rw [assessNode]
      refine Context.Extends.andThen ?_ fun value after =>
        Context.Extends.record after label.key value.rating
      cases label.kind with
      | root => exact below.andThen fun values after => Context.Extends.refl after
      | operator operator => exact below.andThen fun values after => Context.Extends.refl after
      | hedge hedge parameter =>
          cases children with
          | nil => exact Context.Extends.refl ctx
          | cons child children =>
              have first := inductionHypothesis child List.mem_cons_self ctx
              exact first.andThen fun value after => Context.Extends.refl after
      | evaluation refId => exact assessLeaf_extends expands label.key refId ctx

theorem assessNodes_extends
    (expands : ∀ target ctx, Context.Extends catalog ctx (expand target ctx).2)
    (trees : List (RuleTree num)) (ctx : Context num) :
    Context.Extends catalog ctx (assessNodes catalog expand ctx trees).2 :=
  assessNodes_extends_of (fun tree _ => assessNode_extends expands tree) ctx

theorem assessRoots_extends
    (expands : ∀ target ctx, Context.Extends catalog ctx (expand target ctx).2)
    (roots : List (RuleTree num)) (ctx : Context num) :
    Context.Extends catalog ctx (assessRoots catalog expand ctx roots).2 := by
  unfold assessRoots
  split
  · exact assessNode_extends expands _ ctx
  · exact (assessNodes_extends expands roots ctx).andThen fun values after =>
      Context.Extends.refl after

theorem expandWithin_extends (room : Nat) (target : Interpretation num) (ctx : Context num) :
    Context.Extends catalog ctx (expandWithin catalog room target ctx).2 := by
  induction room generalizing target ctx with
  | zero =>
      rw [expandWithin]
      exact Context.Extends.refl ctx
  | succ room inductionHypothesis =>
      rw [expandWithin]
      split
      · exact Context.Extends.refl ctx
      · exact (assessRoots_extends inductionHypothesis target.roots _).popCall

/-- What trees under a name come to, by themselves or where a leaf refers to them. -/
def rateUnder (catalog : Catalog num) (name : String) (roots : List (RuleTree num))
    (ctx : Context num) : Outcome num (NodeValue num) :=
  match ctx.enter name with
  | .error error => (.error error, ctx)
  | .ok entered =>
      Outcome.leaving (assessRoots catalog (expandWithin catalog entered.room) entered roots)
        Context.popCall

theorem assess_eq_rateUnder (name : String) (roots : List (RuleTree num)) (ctx : Context num) :
    assess catalog name roots ctx =
      (rateUnder catalog name roots ctx).andThen fun value ctx => (.ok value.rating, ctx) := by
  unfold assess rateUnder
  cases entering : ctx.enter name with
  | error error => rfl
  | ok entered =>
      obtain ⟨_, _, rfl⟩ := Context.enter_eq_ok_iff.mp entering
      rfl

theorem expandWithin_room (target : Interpretation num) (ctx : Context num) :
    expandWithin catalog ctx.room target ctx = rateUnder catalog target.name target.roots ctx := by
  unfold rateUnder Context.enter
  by_cases deep : ctx.options.maxDepth ≤ ctx.calls.length
  · rw [if_pos deep, Context.room, Nat.sub_eq_zero_of_le deep, expandWithin]
  · obtain ⟨room, roomEq⟩ : ∃ room, ctx.room = room + 1 :=
      Nat.exists_eq_succ_of_ne_zero (Nat.sub_ne_zero_of_lt (Nat.lt_of_not_le deep))
    have restEq : (ctx.pushCall target.name).room = room := by
      unfold Context.room at roomEq ⊢
      simp only [Context.pushCall, List.length_cons]
      omega
    rw [if_neg deep, roomEq, expandWithin]
    by_cases known : ctx.calls.contains target.name = true
    · rw [if_pos known, if_pos known]
    · rw [if_neg known, if_neg known]
      dsimp only
      rw [restEq]

/-- An interpretation is assessed by itself as where a leaf refers to it. -/
theorem assess_eq_expandWithin (target : Interpretation num) (ctx : Context num) :
    assess catalog target.name target.roots ctx =
      (expandWithin catalog (ctx.options.maxDepth - ctx.calls.length) target ctx).andThen
        fun value ctx => (.ok value.rating, ctx) := by
  rw [assess_eq_rateUnder, ← expandWithin_room]
  rfl

theorem rateUnder_extends (name : String) (roots : List (RuleTree num)) (ctx : Context num) :
    Context.Extends catalog ctx (rateUnder catalog name roots ctx).2 := by
  unfold rateUnder
  cases entering : ctx.enter name with
  | error error => exact Context.Extends.refl ctx
  | ok entered =>
      obtain ⟨_, _, rfl⟩ := Context.enter_eq_ok_iff.mp entering
      exact (assessRoots_extends (expandWithin_extends _) roots _).popCall

theorem assess_extends (name : String) (roots : List (RuleTree num)) (ctx : Context num) :
    Context.Extends catalog ctx (assess catalog name roots ctx).2 := by
  rw [assess_eq_rateUnder]
  exact (rateUnder_extends name roots ctx).andThen fun value after => Context.Extends.refl after

/-- The value recorded for a name is the one that the subject has. -/
theorem eq_valueOf_of_mem_current {target : Interpretation num} {options : AssessmentOptions}
    {subject : PropertyData num} {entry : String × PropertyValue num}
    (member : entry ∈ Journal.current
      (assess catalog target.name target.roots (.start subject options)).2.values) :
    entry.2 = subject.valueOf catalog entry.1 := by
  have recorded := mem_of_lookup (Journal.mem_current_iff.mp member)
  have extension : Context.Extends catalog (.start subject options)
      (assess catalog target.name target.roots (.start subject options)).2 :=
    assess_extends target.name target.roots (.start subject options)
  rcases extension.mem_values recorded with before | valueEq
  · simp [Context.start] at before
  · exact valueEq

end Assessment

end FuzzyRating
