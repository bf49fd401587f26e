import FuzzyRating.Proofs.Assessment.Extension

/-!
An assessment inside another one and the same assessment by itself. When the first succeeds, the
second comes to the same value and records the same, under keys that lack what the first puts in
front of them.
-/

namespace FuzzyRating

variable {num : Type}

/-- The context `inner` is that of the same subject with fewer calls, and its full keys are those
of `outer` without `front`. -/
structure Context.Inside (front : String) (outer inner : Context num) : Prop where
  data : inner.data = outer.data
  options : inner.options = outer.options
  calls : inner.calls ⊆ outer.calls
  fullKey : ∀ key, outer.fullKey key = front ++ inner.fullKey key

namespace Context.Inside

variable {catalog : Catalog num} {front : String} {outer inner : Context num}

private theorem fullKey_of_leafKeys {ctx other : Context num}
    (leafKeys : ctx.leafKeys = other.leafKeys) (key : String) :
    ctx.fullKey key = other.fullKey key := by
  unfold Context.fullKey
  rw [leafKeys]

theorem of_extends {outerAfter innerAfter : Context num} (inside : Inside front outer inner)
    (outerExtends : Context.Extends catalog outer outerAfter)
    (innerExtends : Context.Extends catalog inner innerAfter) :
    Inside front outerAfter innerAfter where
  data := by
    rw [innerExtends.data, outerExtends.data, inside.data]
  options := by
    rw [innerExtends.options, outerExtends.options, inside.options]
  calls := by
    rw [innerExtends.calls, outerExtends.calls]
    exact inside.calls
  fullKey key := by
    rw [fullKey_of_leafKeys outerExtends.leafKeys, fullKey_of_leafKeys innerExtends.leafKeys]
    exact inside.fullKey key

theorem pushLeaf (inside : Inside front outer inner) (key : String) :
    Inside front (outer.pushLeaf (outer.fullKey key)) (inner.pushLeaf (inner.fullKey key)) where
  data := inside.data
  options := inside.options
  calls := inside.calls
  fullKey nodeKey := by
    change outer.fullKey key ++ "/" ++ nodeKey = front ++ (inner.fullKey key ++ "/" ++ nodeKey)
    rw [inside.fullKey key]
    simp only [String.append_assoc]

theorem pushCall (inside : Inside front outer inner) (name : String) :
    Inside front (outer.pushCall name) (inner.pushCall name) where
  data := inside.data
  options := inside.options
  calls := List.cons_subset_cons name inside.calls
  fullKey := inside.fullKey

end Context.Inside

/-- Two parts of assessments record the same, the first one with `front` in front of its keys. -/
structure Context.Copies (front : String) (outer outerAfter inner innerAfter : Context num) :
    Prop where
  ratings : ∃ added, outerAfter.ratings = Journal.under front added ++ outer.ratings ∧
    innerAfter.ratings = added ++ inner.ratings
  values : ∃ added, outerAfter.values = added ++ outer.values ∧
    innerAfter.values = added ++ inner.values

namespace Context.Copies

variable {front : String} {outer outerMiddle outerAfter inner innerMiddle innerAfter : Context num}

theorem refl : Copies front outer outer inner inner where
  ratings := ⟨[], rfl, rfl⟩
  values := ⟨[], rfl, rfl⟩

theorem trans (first : Copies front outer outerMiddle inner innerMiddle)
    (second : Copies front outerMiddle outerAfter innerMiddle innerAfter) :
    Copies front outer outerAfter inner innerAfter where
  ratings := by
    obtain ⟨early, outerEarly, innerEarly⟩ := first.ratings
    obtain ⟨late, outerLate, innerLate⟩ := second.ratings
    refine ⟨late ++ early, ?_, ?_⟩
    · rw [outerLate, outerEarly, Journal.under_append, List.append_assoc]
    · rw [innerLate, innerEarly, List.append_assoc]
  values := by
    obtain ⟨early, outerEarly, innerEarly⟩ := first.values
    obtain ⟨late, outerLate, innerLate⟩ := second.values
    refine ⟨late ++ early, ?_, ?_⟩
    · rw [outerLate, outerEarly, List.append_assoc]
    · rw [innerLate, innerEarly, List.append_assoc]

theorem record (inside : Context.Inside front outer inner) (key : String) (rating : Option num) :
    Copies front outer (outer.record key rating) inner (inner.record key rating) where
  ratings := by
    refine ⟨[(inner.fullKey key, rating)], ?_, rfl⟩
    simp only [Context.record, inside.fullKey key]
    rfl
  values := ⟨[], rfl, rfl⟩

end Context.Copies

/-- Whenever one part succeeds inside another assessment, a second part succeeds by itself, with
the same value, and records the same. -/
structure Mirrors {alpha : Type} (catalog : Catalog num) (front : String)
    (outerPart innerPart : Context num → Outcome num alpha) : Prop where
  outerExtension : ∀ ctx, Context.Extends catalog ctx (outerPart ctx).2
  innerExtension : ∀ ctx, Context.Extends catalog ctx (innerPart ctx).2
  copies : ∀ outer inner value outerAfter, Context.Inside front outer inner →
    outerPart outer = (.ok value, outerAfter) →
      ∃ innerAfter, innerPart inner = (.ok value, innerAfter) ∧
        Context.Copies front outer outerAfter inner innerAfter

namespace Mirrors

variable {alpha beta : Type} {catalog : Catalog num} {front : String}

/-- A part that records nothing and looks at the options alone. -/
theorem idle {result : Context num → Except (AssessmentError num) alpha}
    (blind : ∀ outer inner, Context.Inside front outer inner →
      ∀ value, result outer = .ok value → result inner = .ok value) :
    Mirrors catalog front (fun ctx => (result ctx, ctx)) (fun ctx => (result ctx, ctx)) where
  outerExtension := Context.Extends.refl
  innerExtension := Context.Extends.refl
  copies outer inner value outerAfter inside succeeded := by
    obtain ⟨resultEq, afterEq⟩ := Prod.mk.inj succeeded
    subst afterEq
    exact ⟨inner, by rw [blind outer inner inside value resultEq], Context.Copies.refl⟩

/-- A part that fails everywhere. -/
theorem failing {error : Context num → AssessmentError num} :
    Mirrors catalog front (fun ctx => ((.error (error ctx) : Except _ alpha), ctx))
      (fun ctx => (.error (error ctx), ctx)) :=
  idle fun _ _ _ _ impossible => by cases impossible

theorem andThen {outerPart innerPart : Context num → Outcome num alpha}
    {outerNext innerNext : alpha → Context num → Outcome num beta}
    (first : Mirrors catalog front outerPart innerPart)
    (second : ∀ value, Mirrors catalog front (outerNext value) (innerNext value)) :
    Mirrors catalog front (fun ctx => (outerPart ctx).andThen outerNext)
      (fun ctx => (innerPart ctx).andThen innerNext) where
  outerExtension ctx :=
    (first.outerExtension ctx).andThen fun value after => (second value).outerExtension after
  innerExtension ctx :=
    (first.innerExtension ctx).andThen fun value after => (second value).innerExtension after
  copies outer inner result outerAfter inside succeeded := by
    obtain ⟨value, outerMiddle, firstEq, secondEq⟩ := Outcome.andThen_eq_ok_iff.mp succeeded
    obtain ⟨innerMiddle, innerFirstEq, firstCopies⟩ :=
      first.copies outer inner value outerMiddle inside firstEq
    have outerExtends := first.outerExtension outer
    have innerExtends := first.innerExtension inner
    rw [firstEq] at outerExtends
    rw [innerFirstEq] at innerExtends
    have middleInside := inside.of_extends outerExtends innerExtends
    obtain ⟨innerAfter, innerSecondEq, secondCopies⟩ :=
      (second value).copies outerMiddle innerMiddle result outerAfter middleInside secondEq
    exact ⟨innerAfter, Outcome.andThen_eq_ok_iff.mpr ⟨value, innerMiddle, innerFirstEq,
      innerSecondEq⟩, firstCopies.trans secondCopies⟩

theorem record (key : String) (rating : Option num) (value : alpha) :
    Mirrors catalog front (fun ctx => (.ok value, ctx.record key rating))
      (fun ctx => (.ok value, ctx.record key rating)) where
  outerExtension ctx := Context.Extends.record ctx key rating
  innerExtension ctx := Context.Extends.record ctx key rating
  copies outer inner result outerAfter inside succeeded := by
    obtain ⟨valueEq, afterEq⟩ := Prod.mk.inj succeeded
    cases valueEq
    subst afterEq
    exact ⟨_, rfl, Context.Copies.record inside key rating⟩

theorem popLeaf {outerPart innerPart : Context num → Outcome num alpha}
    (below : Mirrors catalog front outerPart innerPart) (key : String) :
    Mirrors catalog front
      (fun ctx => (outerPart (ctx.pushLeaf (ctx.fullKey key))).leaving Context.popLeaf)
      (fun ctx => (innerPart (ctx.pushLeaf (ctx.fullKey key))).leaving Context.popLeaf) where
  outerExtension ctx := (below.outerExtension _).popLeaf
  innerExtension ctx := (below.innerExtension _).popLeaf
  copies outer inner value outerAfter inside succeeded := by
    obtain ⟨outerMiddle, partEq, afterEq⟩ := Outcome.leaving_eq_iff.mp succeeded
    subst afterEq
    obtain ⟨innerMiddle, innerEq, copied⟩ :=
      below.copies _ _ value outerMiddle (inside.pushLeaf key) partEq
    exact ⟨innerMiddle.popLeaf, Outcome.leaving_eq_iff.mpr ⟨innerMiddle, innerEq, rfl⟩,
      copied.ratings, copied.values⟩

theorem popCall {outerPart innerPart : Context num → Outcome num alpha}
    (below : Mirrors catalog front outerPart innerPart) (name : String) :
    Mirrors catalog front
      (fun ctx => (outerPart (ctx.pushCall name)).leaving Context.popCall)
      (fun ctx => (innerPart (ctx.pushCall name)).leaving Context.popCall) where
  outerExtension ctx := (below.outerExtension _).popCall
  innerExtension ctx := (below.innerExtension _).popCall
  copies outer inner value outerAfter inside succeeded := by
    obtain ⟨outerMiddle, partEq, afterEq⟩ := Outcome.leaving_eq_iff.mp succeeded
    subst afterEq
    obtain ⟨innerMiddle, innerEq, copied⟩ :=
      below.copies _ _ value outerMiddle (inside.pushCall name) partEq
    exact ⟨innerMiddle.popCall, Outcome.leaving_eq_iff.mpr ⟨innerMiddle, innerEq, rfl⟩,
      copied.ratings, copied.values⟩

end Mirrors

/-! ## Assessments mirror one another -/

section Assessment

variable [Arith num] {catalog : Catalog num} {front : String}
  {outerExpand innerExpand : Expansion num}

theorem assessEvaluation_mirrors (evaluation : Evaluation num) :
    Mirrors catalog front (assessEvaluation catalog evaluation)
      (assessEvaluation catalog evaluation) where
  outerExtension := assessEvaluation_extends evaluation
  innerExtension := assessEvaluation_extends evaluation
  copies outer inner value outerAfter inside succeeded := by
    rw [assessEvaluation_eq] at succeeded
    obtain ⟨valueEq, afterEq⟩ := Prod.mk.inj succeeded
    subst afterEq
    rw [assessEvaluation_eq, inside.data, inside.options]
    refine ⟨_, Prod.ext valueEq rfl, ⟨[], rfl, rfl⟩, ⟨[(evaluation.propertyName,
      outer.data.valueOf catalog evaluation.propertyName)], rfl, rfl⟩⟩

theorem assessLeaf_mirrors
    (expands : ∀ target, Mirrors catalog front (outerExpand target) (innerExpand target))
    (key refId : String) :
    Mirrors catalog front (assessLeaf catalog outerExpand key refId)
      (assessLeaf catalog innerExpand key refId) := by
  unfold assessLeaf
  cases catalog.resolve? refId with
  | none => exact Mirrors.failing
  | some target =>
      cases target with
      | evaluation evaluation => exact assessEvaluation_mirrors evaluation
      | interpretation target => exact (expands target).popLeaf key

private theorem combine_mirrors (operator : Operator) (values : List (NodeValue num)) :
    Mirrors catalog front
      (fun ctx => (.ok (NodeValue.combine ctx.options.missingData operator values), ctx))
      (fun ctx => (.ok (NodeValue.combine ctx.options.missingData operator values), ctx)) :=
  Mirrors.idle fun outer inner inside value valueEq => by rw [inside.options, valueEq]

private theorem assessNodes_mirrors_of {trees : List (RuleTree num)}
    (each : ∀ tree ∈ trees, Mirrors catalog front
      (fun ctx => assessNode catalog outerExpand ctx tree)
      (fun ctx => assessNode catalog innerExpand ctx tree)) :
    Mirrors catalog front (fun ctx => assessNodes catalog outerExpand ctx trees)
      (fun ctx => assessNodes catalog innerExpand ctx trees) := by
  induction trees with
  | nil =>
      simp only [assessNodes]
      exact Mirrors.idle fun _ _ _ _ valueEq => valueEq
  | cons tree trees inductionHypothesis =>
      simp only [assessNodes]
      have first := each tree List.mem_cons_self
      have rest := inductionHypothesis fun other member =>
        each other (List.mem_cons_of_mem tree member)
      exact first.andThen fun value => rest.andThen fun values =>
        Mirrors.idle fun _ _ _ _ valueEq => valueEq

theorem assessNode_mirrors
    (expands : ∀ target, Mirrors catalog front (outerExpand target) (innerExpand target))
    (tree : RuleTree num) :
    Mirrors catalog front (fun ctx => assessNode catalog outerExpand ctx tree)
      (fun ctx => assessNode catalog innerExpand ctx tree) := by
  induction tree using Tree.induction with
  | node label children inductionHypothesis =>
      have below := assessNodes_mirrors_of inductionHypothesis
      simp only [assessNode]
      refine Mirrors.andThen ?_ fun value => Mirrors.record label.key value.rating value
      cases label.kind with
      | root => exact below.andThen fun values => combine_mirrors .and values
      | operator operator => exact below.andThen fun values => combine_mirrors operator values
      | hedge hedge parameter =>
          cases children with
          | nil => exact Mirrors.failing
          | cons child children =>
              have first := inductionHypothesis child List.mem_cons_self
              exact first.andThen fun value => Mirrors.idle fun _ _ _ _ valueEq => valueEq
      | evaluation refId => exact assessLeaf_mirrors expands label.key refId

theorem assessRoots_mirrors
    (expands : ∀ target, Mirrors catalog front (outerExpand target) (innerExpand target))
    (roots : List (RuleTree num)) :
    Mirrors catalog front (fun ctx => assessRoots catalog outerExpand ctx roots)
      (fun ctx => assessRoots catalog innerExpand ctx roots) := by
  have all : Mirrors catalog front (fun ctx => assessNodes catalog outerExpand ctx roots)
      (fun ctx => assessNodes catalog innerExpand ctx roots) :=
    assessNodes_mirrors_of fun tree _ => assessNode_mirrors expands tree
  unfold assessRoots
  split
  · exact assessNode_mirrors expands _
  · exact all.andThen fun values => combine_mirrors .and values

/-- By itself an interpretation may be given more room. -/
theorem expandWithin_mirrors {room more : Nat} (enough : room ≤ more)
    (target : Interpretation num) :
    Mirrors catalog front (expandWithin catalog room target)
      (expandWithin catalog more target) := by
  induction room generalizing more target with
  | zero =>
      refine ⟨expandWithin_extends 0 target, expandWithin_extends more target, ?_⟩
      intro outer inner value outerAfter _ succeeded
      rw [expandWithin] at succeeded
      cases succeeded
  | succ room inductionHypothesis =>
      obtain ⟨moreRoom, rfl⟩ : ∃ moreRoom, more = moreRoom + 1 := ⟨more - 1, by omega⟩
      have roots := assessRoots_mirrors
        (fun next => inductionHypothesis (Nat.le_of_succ_le_succ enough) next) target.roots
      have entered := roots.popCall target.name
      refine ⟨expandWithin_extends (room + 1) target, expandWithin_extends (moreRoom + 1) target,
        ?_⟩
      intro outer inner value outerAfter inside succeeded
      rw [expandWithin] at succeeded
      split at succeeded
      · cases succeeded
      · next notCalled =>
          have innerNotCalled : ¬ inner.calls.contains target.name = true := by
            rw [List.contains_iff_mem] at notCalled ⊢
            exact fun called => notCalled (inside.calls called)
          rw [expandWithin, if_neg innerNotCalled]
          exact entered.copies outer inner value outerAfter inside succeeded

end Assessment

end FuzzyRating
