import FuzzyRating.Proofs.Assessment.Extension
import FuzzyRating.Proofs.Catalog.Build
import Mathlib.Computability.StateTransition

/-!
Assessments step by step. What is left to be done is kept in a list, and nothing bounds the number of
steps from outside. Every assessment ends, with the outcome of the recursive one, and at no moment are
too many interpretations being assessed, or one within itself.
-/

namespace FuzzyRating

open StateTransition (Reaches eval mem_eval)

variable {num : Type}

/-! ## Steps -/

/-- What is to be done with what a part of an assessment comes to. -/
inductive Frame (num : Type) where
  /-- Rates the trees that follow, and then combines all. -/
  | next (operator : Operator) (values : List (NodeValue num)) (trees : List (RuleTree num))
  | hedge (hedge : Hedge) (parameter : Option num)
  /-- Records the rating of a node. -/
  | record (key : String)
  | leaveLeaf
  | leaveCall

/-- What is being done. -/
inductive Control (num : Type) where
  | enter (name : String) (roots : List (RuleTree num))
  | rate (tree : RuleTree num)
  | rateAll (operator : Operator) (values : List (NodeValue num)) (trees : List (RuleTree num))
  | answer (result : Except (AssessmentError num) (NodeValue num))

/-- A moment of an assessment: what is being done, in what context, and what is left to be done after
that. -/
structure Moment (num : Type) where
  control : Control num
  ctx : Context num
  frames : List (Frame num)

/-- A part of an assessment has ended. -/
def Moment.answering (outcome : Outcome num (NodeValue num)) (frames : List (Frame num)) :
    Moment num :=
  ⟨.answer outcome.1, outcome.2, frames⟩

/-- Several top-level trees are combined as by `and`. -/
def Control.ofRoots : List (RuleTree num) → Control num
  | [root] => .rate root
  | roots => .rateAll .and [] roots

variable [Arith num]

/-- An error passes over everything but leaving what was entered. -/
def Frame.resume (ctx : Context num) (frames : List (Frame num)) :
    Frame num → Except (AssessmentError num) (NodeValue num) → Moment num
  | .leaveLeaf, result => .answering (result, ctx.popLeaf) frames
  | .leaveCall, result => .answering (result, ctx.popCall) frames
  | _, .error error => .answering (.error error, ctx) frames
  | .next operator values trees, .ok value =>
      ⟨.rateAll operator (values ++ [value]) trees, ctx, frames⟩
  | .hedge kind parameter, .ok value => .answering (.ok (value.hedged kind parameter), ctx) frames
  | .record key, .ok value => .answering (.ok value, ctx.record key value.rating) frames

/-- Rates the subject by a leaf, or enters the interpretation that it refers to. -/
def Moment.ofLeaf (catalog : Catalog num) (key refId : String) (ctx : Context num)
    (frames : List (Frame num)) : Moment num :=
  match catalog.resolve? refId with
  | some (.evaluation evaluation) => .answering (assessEvaluation catalog evaluation ctx) frames
  | some (.interpretation target) =>
      ⟨.enter target.name target.roots, ctx.pushLeaf (ctx.fullKey key), .leaveLeaf :: frames⟩
  | none => .answering
      (.error (.notFound refId (Text.suggestions refId catalog.referenceNames)), ctx) frames

/-- Begins with the part of a node that stands below it or that it refers to. -/
def Moment.descend (catalog : Catalog num) (label : Node num) (children : List (RuleTree num))
    (ctx : Context num) (frames : List (Frame num)) : Moment num :=
  match label.kind with
  | .root => ⟨.rateAll .and [] children, ctx, frames⟩
  | .operator operator => ⟨.rateAll operator [] children, ctx, frames⟩
  | .hedge hedge parameter =>
      match children with
      | [] => .answering
          (.error (.failed (ctx.fullKey label.key) (.childlessHedge hedge)), ctx) frames
      | child :: _ => ⟨.rate child, ctx, .hedge hedge parameter :: frames⟩
  | .evaluation refId => .ofLeaf catalog label.key refId ctx frames

/-- What follows a moment, unless there is nothing left to be done. -/
def Moment.step (catalog : Catalog num) : Moment num → Option (Moment num)
  | ⟨.enter name roots, ctx, frames⟩ =>
      match ctx.enter name with
      | .error error => some (answering (.error error, ctx) frames)
      | .ok entered => some ⟨.ofRoots roots, entered, .leaveCall :: frames⟩
  | ⟨.rate (.node label children), ctx, frames⟩ =>
      some (descend catalog label children ctx (.record label.key :: frames))
  | ⟨.rateAll operator values [], ctx, frames⟩ =>
      some (answering
        (.ok (NodeValue.combine ctx.options.missingData operator values), ctx) frames)
  | ⟨.rateAll operator values (tree :: trees), ctx, frames⟩ =>
      some ⟨.rate tree, ctx, .next operator values trees :: frames⟩
  | ⟨.answer result, ctx, frame :: frames⟩ => some (frame.resume ctx frames result)
  | ⟨.answer _, _, []⟩ => none

/-! ## Steps come to what recursion comes to -/

namespace Moment

variable {catalog : Catalog num} {start next last : Moment num} {ctx : Context num}
  {frames : List (Frame num)} {room : Nat}

theorem reaches_of_step (stepped : step catalog start = some next)
    (further : Reaches (step catalog) next last) : Reaches (step catalog) start last :=
  Relation.ReflTransGen.head stepped further

/-- A part that ends under a frame is followed by what the frame makes of its value. -/
theorem reaches_andThen (frame : Frame num) {outcome : Outcome num (NodeValue num)}
    {rest : NodeValue num → Context num → Outcome num (NodeValue num)}
    (first : Reaches (step catalog) start (answering outcome (frame :: frames)))
    (passes : ∀ error after, frame.resume after frames (.error error) =
      answering (.error error, after) frames)
    (second : ∀ value after, outcome = (.ok value, after) →
      Reaches (step catalog) (frame.resume after frames (.ok value))
        (answering (rest value after) frames)) :
    Reaches (step catalog) start (answering (outcome.andThen rest) frames) := by
  refine first.trans ?_
  rcases outcome with ⟨error | value, after⟩
  · apply reaches_of_step rfl
    rw [passes]
    exact .refl
  · exact reaches_of_step rfl (second value after rfl)

theorem reaches_popLeaf {outcome : Outcome num (NodeValue num)}
    (inner : Reaches (step catalog) start (answering outcome (.leaveLeaf :: frames))) :
    Reaches (step catalog) start (answering (outcome.leaving Context.popLeaf) frames) :=
  inner.tail rfl

theorem reaches_popCall {outcome : Outcome num (NodeValue num)}
    (inner : Reaches (step catalog) start (answering outcome (.leaveCall :: frames))) :
    Reaches (step catalog) start (answering (outcome.leaving Context.popCall) frames) :=
  inner.tail rfl

/-- Rating a tree step by step, where there is some room, comes to what rating it comes to. -/
def Rates (catalog : Catalog num) (room : Nat) (tree : RuleTree num) : Prop :=
  ∀ (ctx : Context num) (frames : List (Frame num)), ctx.room = room →
    Reaches (step catalog) ⟨.rate tree, ctx, frames⟩
      (answering (assessNode catalog (expandWithin catalog room) ctx tree) frames)

theorem rateAll_reaches {trees : List (RuleTree num)}
    (each : ∀ tree ∈ trees, Rates catalog room tree) (operator : Operator)
    (values : List (NodeValue num)) (ctx : Context num) (frames : List (Frame num))
    (sameRoom : ctx.room = room) :
    Reaches (step catalog) ⟨.rateAll operator values trees, ctx, frames⟩
      (answering ((assessNodes catalog (expandWithin catalog room) ctx trees).andThen
        fun later after =>
          (.ok (NodeValue.combine after.options.missingData operator (values ++ later)), after))
        frames) := by
  induction trees generalizing ctx values with
  | nil =>
      apply reaches_of_step rfl
      rw [assessNodes, Outcome.andThen_ok, List.append_nil]
      exact .refl
  | cons tree trees inductionHypothesis =>
      obtain ⟨first, rest⟩ := List.forall_mem_cons.mp each
      apply reaches_of_step rfl
      rw [assessNodes, Outcome.andThen_assoc]
      refine reaches_andThen (.next operator values trees) (first ctx _ sameRoom)
        (fun _ _ => rfl) fun value after firstEq => ?_
      have extension : Context.Extends catalog ctx
          (assessNode catalog (expandWithin catalog room) ctx tree).2 :=
        assessNode_extends (expandWithin_extends room) tree ctx
      rw [firstEq] at extension
      have further := inductionHypothesis rest (values ++ [value]) after
        (extension.room.trans sameRoom)
      simp only [List.append_assoc, List.singleton_append] at further
      rw [Outcome.andThen_assoc]
      exact further

/-- Entering an interpretation that a leaf refers to, where there is some room, comes to what
expanding the leaf comes to. -/
def Enters (catalog : Catalog num) (room : Nat) : Prop :=
  ∀ (target : Interpretation num) (ctx : Context num) (frames : List (Frame num)),
    ctx.room = room →
    Reaches (step catalog) ⟨.enter target.name target.roots, ctx, frames⟩
      (answering (expandWithin catalog room target ctx) frames)

theorem ofLeaf_reaches (enters : Enters catalog room) (key refId : String)
    (sameRoom : ctx.room = room) :
    Reaches (step catalog) (ofLeaf catalog key refId ctx frames)
      (answering (assessLeaf catalog (expandWithin catalog room) key refId ctx) frames) := by
  unfold ofLeaf assessLeaf
  cases catalog.resolve? refId with
  | none => exact .refl
  | some found =>
      cases found with
      | evaluation evaluation => exact .refl
      | interpretation target =>
          exact reaches_popLeaf (enters target (ctx.pushLeaf (ctx.fullKey key)) _ sameRoom)

/-- Trees are rated step by step if the interpretations that they refer to are. -/
theorem rates_of_enters (enters : Enters catalog room) (tree : RuleTree num) :
    Rates catalog room tree := by
  induction tree using Tree.induction with
  | node label children inductionHypothesis =>
      intro ctx frames sameRoom
      have below (operator : Operator) :=
        rateAll_reaches inductionHypothesis operator [] ctx (.record label.key :: frames) sameRoom
      apply reaches_of_step rfl
      rw [assessNode]
      refine reaches_andThen (.record label.key) ?_ (fun _ _ => rfl) fun _ _ _ => .refl
      unfold descend
      cases label.kind with
      | root => exact below .and
      | operator operator => exact below operator
      | hedge hedge parameter =>
          cases children with
          | nil => exact .refl
          | cons child children =>
              have first := inductionHypothesis child List.mem_cons_self ctx
                (.hedge hedge parameter :: .record label.key :: frames) sameRoom
              exact reaches_andThen (.hedge hedge parameter) first (fun _ _ => rfl)
                fun _ _ _ => .refl
      | evaluation refId => exact ofLeaf_reaches enters label.key refId sameRoom

theorem ofRoots_reaches (enters : Enters catalog room) (roots : List (RuleTree num))
    (sameRoom : ctx.room = room) :
    Reaches (step catalog) ⟨.ofRoots roots, ctx, frames⟩
      (answering (assessRoots catalog (expandWithin catalog room) ctx roots) frames) := by
  have each : ∀ root ∈ roots, Rates catalog room root := fun root _ => rates_of_enters enters root
  have combined := rateAll_reaches each .and [] ctx frames sameRoom
  rcases roots with _ | ⟨root, _ | ⟨second, rest⟩⟩
  · exact combined
  · exact each root List.mem_cons_self ctx frames sameRoom
  · exact combined

/-- Leaves lead to whole trees again, which are no smaller. What gets smaller is the room that is left
when an interpretation has been entered. -/
theorem rateUnder_reaches (name : String) (roots : List (RuleTree num)) (ctx : Context num)
    (frames : List (Frame num)) :
    Reaches (step catalog) ⟨.enter name roots, ctx, frames⟩
      (answering (rateUnder catalog name roots ctx) frames) := by
  induction roomEq : ctx.room using Nat.strongRecOn generalizing name roots ctx frames with
  | ind room inductionHypothesis =>
      unfold rateUnder
      cases entering : ctx.enter name with
      | error error =>
          have stepped : step catalog ⟨.enter name roots, ctx, frames⟩ =
              some (answering (.error error, ctx) frames) := by
            rw [step, entering]
          exact reaches_of_step stepped .refl
      | ok entered =>
          obtain ⟨shallow, _, rfl⟩ := Context.enter_eq_ok_iff.mp entering
          have less : (ctx.pushCall name).room < room := by
            rw [← roomEq]
            exact Nat.sub_succ_lt_self _ _ shallow
          have enters : Enters catalog (ctx.pushCall name).room := by
            intro target inner innerFrames sameRoom
            rw [← sameRoom, expandWithin_room]
            exact inductionHypothesis _ less target.name target.roots inner innerFrames sameRoom
          have stepped : step catalog ⟨.enter name roots, ctx, frames⟩ =
              some ⟨.ofRoots roots, ctx.pushCall name, .leaveCall :: frames⟩ := by
            rw [step, entering]
          exact reaches_of_step stepped (reaches_popCall (ofRoots_reaches enters roots rfl))

end Moment

/-! ## What is being assessed -/

/-- The interpretations being assessed are different ones, and not too many. -/
structure Context.Limited (options : AssessmentOptions) (ctx : Context num) : Prop where
  sameOptions : ctx.options = options
  distinct : ctx.calls.Nodup
  atMost : ctx.calls.length ≤ options.maxDepth

namespace Context.Limited

omit [Arith num]

variable {catalog : Catalog num} {subject : PropertyData num} {options : AssessmentOptions}
  {ctx after : Context num}

theorem start : (Context.start subject options).Limited options :=
  ⟨rfl, List.nodup_nil, Nat.zero_le _⟩

theorem enter (limited : ctx.Limited options) {name : String}
    (succeeds : ctx.enter name = .ok after) : after.Limited options := by
  obtain ⟨shallow, notEntered, rfl⟩ := Context.enter_eq_ok_iff.mp succeeds
  rw [limited.sameOptions] at shallow
  exact ⟨limited.sameOptions, List.nodup_cons.mpr ⟨notEntered, limited.distinct⟩, shallow⟩

theorem pushLeaf (limited : ctx.Limited options) (key : String) :
    (ctx.pushLeaf key).Limited options :=
  ⟨limited.sameOptions, limited.distinct, limited.atMost⟩

theorem popLeaf (limited : ctx.Limited options) : ctx.popLeaf.Limited options :=
  ⟨limited.sameOptions, limited.distinct, limited.atMost⟩

theorem popCall (limited : ctx.Limited options) : ctx.popCall.Limited options :=
  ⟨limited.sameOptions, limited.distinct.tail,
    (List.tail_sublist ctx.calls).length_le.trans limited.atMost⟩

theorem extended (limited : ctx.Limited options)
    (extension : Context.Extends catalog ctx after) : after.Limited options := by
  refine ⟨extension.options.trans limited.sameOptions, ?_, ?_⟩
  · rw [extension.calls]
    exact limited.distinct
  · rw [extension.calls]
    exact limited.atMost

end Context.Limited

/-- Contexts in which interpretations have been entered and leaves expanded. -/
inductive Context.Entered (subject : PropertyData num) (options : AssessmentOptions) :
    Context num → Prop
  | start : Entered subject options (.start subject options)
  | enter {ctx entered : Context num} {name : String} (before : Entered subject options ctx)
      (succeeds : ctx.enter name = .ok entered) : Entered subject options entered
  | pushLeaf {ctx : Context num} (before : Entered subject options ctx) (key : String) :
      Entered subject options (ctx.pushLeaf key)

omit [Arith num] in
theorem Context.Entered.limited {subject : PropertyData num} {options : AssessmentOptions}
    {ctx : Context num} (entered : ctx.Entered subject options) : ctx.Limited options := by
  induction entered with
  | start => exact .start
  | enter _ succeeds inductionHypothesis => exact inductionHypothesis.enter succeeds
  | pushLeaf _ key inductionHypothesis => exact inductionHypothesis.pushLeaf key

namespace Moment

variable {catalog : Catalog num} {options : AssessmentOptions}

theorem resume_limited {ctx : Context num} (limited : ctx.Limited options)
    (frames : List (Frame num)) (frame : Frame num)
    (result : Except (AssessmentError num) (NodeValue num)) :
    (frame.resume ctx frames result).ctx.Limited options := by
  cases frame with
  | leaveLeaf => exact limited.popLeaf
  | leaveCall => exact limited.popCall
  | next operator values trees => cases result <;> exact limited
  | hedge hedge parameter => cases result <;> exact limited
  | record key =>
      cases result with
      | error error => exact limited
      | ok value => exact ⟨limited.sameOptions, limited.distinct, limited.atMost⟩

theorem descend_limited {ctx : Context num} (limited : ctx.Limited options) (label : Node num)
    (children : List (RuleTree num)) (frames : List (Frame num)) :
    (descend catalog label children ctx frames).ctx.Limited options := by
  unfold descend
  cases label.kind with
  | root => exact limited
  | operator operator => exact limited
  | hedge hedge parameter => cases children <;> exact limited
  | evaluation refId =>
      dsimp only
      unfold ofLeaf
      split
      · exact limited.extended (assessEvaluation_extends _ ctx)
      · exact limited.pushLeaf _
      · exact limited

/-- No step enters too many interpretations, or one within itself. -/
theorem step_limited {moment next : Moment num} (limited : moment.ctx.Limited options)
    (stepped : step catalog moment = some next) : next.ctx.Limited options := by
  obtain ⟨control, ctx, frames⟩ := moment
  cases control with
  | enter name roots =>
      rw [step] at stepped
      split at stepped
      · cases stepped
        exact limited
      · next entering =>
          cases stepped
          exact limited.enter entering
  | rate tree =>
      cases tree
      cases stepped
      exact descend_limited limited _ _ _
  | rateAll operator values trees =>
      cases trees <;> cases stepped <;> exact limited
  | answer result =>
      cases frames with
      | nil => cases stepped
      | cons frame frames =>
          cases stepped
          exact resume_limited limited frames frame result

theorem reaches_limited {first last : Moment num} (limited : first.ctx.Limited options)
    (reached : Reaches (step catalog) first last) : last.ctx.Limited options := by
  induction reached with
  | refl => exact limited
  | tail _ stepped inductionHypothesis => exact step_limited inductionHypothesis stepped

end Moment

/-! ## Whole assessments -/

/-- Whatever trees are assessed and wherever, their assessment ends, with the interpretations being
assessed and the leaves being expanded as before. On the way no interpretation is assessed within
itself, and not too many within one another. -/
theorem assess_balanced {subject : PropertyData num} {options : AssessmentOptions}
    {ctx : Context num} (entered : ctx.Entered subject options) (catalog : Catalog num)
    (name : String) (roots : List (RuleTree num)) :
    ∃ result after,
      ⟨.answer result, after, []⟩ ∈ eval (Moment.step catalog) ⟨.enter name roots, ctx, []⟩ ∧
      assess catalog name roots ctx = (result.map NodeValue.rating, after) ∧
      after.calls = ctx.calls ∧ after.leafKeys = ctx.leafKeys ∧
      ∀ moment, Reaches (Moment.step catalog) ⟨.enter name roots, ctx, []⟩ moment →
        moment.ctx.calls.Nodup ∧ moment.ctx.calls.length ≤ options.maxDepth := by
  have reached : Reaches (Moment.step catalog) ⟨.enter name roots, ctx, []⟩
      (.answering (rateUnder catalog name roots ctx) []) :=
    Moment.rateUnder_reaches name roots ctx []
  have extension : Context.Extends catalog ctx (rateUnder catalog name roots ctx).2 :=
    rateUnder_extends name roots ctx
  refine ⟨_, _, mem_eval.mpr ⟨reached, rfl⟩, ?_, extension.calls, extension.leafKeys, ?_⟩
  · rw [assess_eq_rateUnder]
    rcases rateUnder catalog name roots ctx with ⟨error | value, after⟩ <;> rfl
  · intro moment further
    have limited := Moment.reaches_limited entered.limited further
    exact ⟨limited.distinct, limited.atMost⟩

/-- Trees that no catalog holds. Their second leaf leads back to a site. -/
def ridgeRoots : List (RuleTree Float) :=
  [.node ⟨"ridge", "0", 1, .operator .and⟩
    [.node ⟨"slope", "0/0", 2, .evaluation "Slope"⟩ [],
      .node ⟨"site", "0/1", 2, .evaluation "Site"⟩ []]]

/-- The context in which the terrain of a site is expanded. -/
def inSite : Context Float :=
  ((Context.start .empty .standard).pushCall "Site").pushLeaf "0/0"

/-- The ridge of a site fails where it leads back to the site. -/
theorem assess_balanced_ridge :
    ∃ catalog result after, Catalog.build Catalog.siteData = .ok catalog ∧
      result = .error (.failed "0/0/0/1" (.circle ["Site", "Ridge", "Site"])) ∧
      ⟨.answer result, after, []⟩ ∈
        eval (Moment.step catalog) ⟨.enter "Ridge" ridgeRoots, inSite, []⟩ ∧
      assess catalog "Ridge" ridgeRoots inSite = (result.map NodeValue.rating, after) ∧
      after.calls = ["Site"] ∧ after.leafKeys = ["0/0"] ∧
      ∀ moment, Reaches (Moment.step catalog) ⟨.enter "Ridge" ridgeRoots, inSite, []⟩ moment →
        moment.ctx.calls.Nodup ∧ moment.ctx.calls.length ≤ 64 := by
  have run : ((Catalog.build Catalog.siteData).toOption.bind fun catalog =>
      match (assess catalog "Ridge" ridgeRoots inSite).1 with
      | .error (.failed node (.circle chain)) => some (node, chain)
      | _ => none) = some ("0/0/0/1", ["Site", "Ridge", "Site"]) := by
    decide +kernel
  have succeeds : (Context.start .empty .standard : Context Float).enter "Site" =
      .ok ((Context.start .empty .standard).pushCall "Site") :=
    Context.enter_eq_ok_iff.mpr ⟨by decide, List.not_mem_nil, rfl⟩
  obtain ⟨catalog, built, fault⟩ := Option.bind_eq_some_iff.mp run
  obtain ⟨result, after, ended, assessed, calls, leafKeys, limited⟩ :=
    assess_balanced ((Context.Entered.enter .start succeeds).pushLeaf "0/0") catalog "Ridge"
      ridgeRoots
  refine ⟨catalog, result, after, eq_ok_of_toOption built, ?_, ended, assessed, calls, leafKeys,
    limited⟩
  rw [inSite, assessed] at fault
  split at fault
  · next node chain failed =>
      cases fault
      cases result with
      | ok value => cases failed
      | error error =>
          cases failed
          rfl
  · cases fault

end FuzzyRating
