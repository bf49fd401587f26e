import FuzzyRating.Proofs.Assessment.Nesting
import FuzzyRating.Proofs.Assessment.Visit
import FuzzyRating.Proofs.Catalog.Build
import FuzzyRating.Proofs.Rule.Key

/-!
An interpretation means the same where a leaf refers to it as by itself: the first assessment
records the second one whole, under the key of the leaf.
-/

namespace FuzzyRating

variable {num : Type}

/-! ## Keys that a node records -/

/-- A key is that of a node, or goes on from it with a slash. -/
def IsKeyOf (nodeKey key : String) : Prop :=
  key = nodeKey ∨ ∃ rest, key = nodeKey ++ "/" ++ rest

private theorem IsKeyOf.toList_eq {nodeKey key : String} (isKey : IsKeyOf nodeKey key) :
    ∃ rest, key.toList = nodeKey.toList ++ rest ∧ Ends (· != '/') rest := by
  rcases isKey with rfl | ⟨rest, rfl⟩
  · exact ⟨[], (List.append_nil _).symm, Ends.nil⟩
  · exact ⟨'/' :: rest.toList, by simp, Ends.cons (bne_self_eq_false _)⟩

/-- The key of a node is what its keys begin with, up to their first slash. -/
theorem IsKeyOf.unique {first second key : String} (ofFirst : IsKeyOf first key)
    (ofSecond : IsKeyOf second key) (firstClean : '/' ∉ first.toList)
    (secondClean : '/' ∉ second.toList) :
    first = second := by
  have noSlash {name : String} (clean : '/' ∉ name.toList) : ∀ c ∈ name.toList, (c != '/') = true := by
    intro c member
    rw [bne_iff_ne]
    rintro rfl
    exact clean member
  obtain ⟨firstRest, firstEq, firstEnds⟩ := ofFirst.toList_eq
  obtain ⟨secondRest, secondEq, secondEnds⟩ := ofSecond.toList_eq
  exact String.toList_injective (stretch_inj (noSlash firstClean) (noSlash secondClean) firstEnds
    secondEnds (firstEq.symm.trans secondEq)).1

/-- Keys of other nodes are none of a node. -/
theorem IsKeyOf.ne_of_others {nodeKey key : String} (isKey : IsKeyOf nodeKey key)
    (clean : '/' ∉ nodeKey.toList) {others : List (Node num)}
    (othersClean : ∀ other ∈ others, '/' ∉ other.key.toList)
    (different : ∀ other ∈ others, other.key ≠ nodeKey) {added : Journal (Option num)}
    (theirs : ∀ entry ∈ added, ∃ other ∈ others, IsKeyOf other.key entry.1) :
    ∀ entry ∈ added, entry.1 ≠ key := by
  rintro entry entryMember rfl
  obtain ⟨other, otherMember, otherIsKey⟩ := theirs entry entryMember
  have same := otherIsKey.unique isKey (othersClean other otherMember) clean
  exact different other otherMember same

/-! ## What visits record -/

section Visits

/-- Below a leaf at the top, full keys are those of an assessment of its own, with the key of the
leaf in front. -/
private theorem inside_start {ctx : Context num} (top : ctx.leafKeys = []) (key : String) :
    Context.Inside (key ++ "/") (ctx.pushLeaf (ctx.fullKey key))
      (.start ctx.data ctx.options) where
  data := rfl
  options := rfl
  calls := List.nil_subset _
  fullKey nodeKey := by
    simp only [Context.fullKey, Context.pushLeaf, Context.start, top]

private theorem fullKey_of_top {ctx : Context num} (top : ctx.leafKeys = []) (key : String) :
    ctx.fullKey key = key := by
  simp only [Context.fullKey, top]

variable [Arith num] {catalog : Catalog num}

/-- A leaf at the top that refers to an interpretation records the assessment of the latter. -/
private theorem visited_subRule {room more : Nat} (enough : room ≤ more) {label : Node num}
    {refId : String} {target : Interpretation num} (kind : label.kind = .evaluation refId)
    (resolved : catalog.resolve? refId = some (.interpretation target))
    {before after : Context num} (top : before.leafKeys = [])
    (visited : Visited catalog (expandWithin catalog room) label before after) :
    ∃ value alone, expandWithin catalog more target (.start before.data before.options) =
        (.ok value, alone) ∧
      after.ratings = (label.key, value.rating) ::
        (Journal.under (label.key ++ "/") alone.ratings ++ before.ratings) ∧
      after.values = alone.values ++ before.values := by
  cases visited with
  | inner notLeaf => exact absurd kind (notLeaf refId)
  | @leaf otherId _ middle value otherKind rated =>
      rw [kind] at otherKind
      cases otherKind
      unfold assessLeaf at rated
      rw [resolved] at rated
      obtain ⟨reached, expanded, middleEq⟩ := Outcome.leaving_eq_iff.mp rated
      subst middleEq
      have mirrors : Mirrors catalog (label.key ++ "/") (expandWithin catalog room target)
          (expandWithin catalog more target) := expandWithin_mirrors enough target
      have extension := mirrors.outerExtension (before.pushLeaf (before.fullKey label.key))
      rw [expanded] at extension
      obtain ⟨alone, aloneEq, copied⟩ :=
        mirrors.copies _ _ value reached (inside_start top label.key) expanded
      obtain ⟨addedRatings, outerRatings, aloneRatings⟩ := copied.ratings
      obtain ⟨addedValues, outerValues, aloneValues⟩ := copied.values
      have ratingsEq : alone.ratings = addedRatings := by
        simpa [Context.start] using aloneRatings
      have valuesEq : alone.values = addedValues := by
        simpa [Context.start] using aloneValues
      have popped : reached.popLeaf.leafKeys = [] := by
        rw [extension.popLeaf.leafKeys, top]
      refine ⟨value, alone, aloneEq, ?_, ?_⟩
      · rw [ratingsEq]
        change (reached.popLeaf.fullKey label.key, value.rating) :: reached.ratings = _
        rw [fullKey_of_top popped, outerRatings]
        rfl
      · rw [valuesEq]
        exact outerValues

/-- A node at the top records nothing but its own keys. -/
private theorem visited_keys {room : Nat} {label : Node num} {before after : Context num}
    (top : before.leafKeys = [])
    (visited : Visited catalog (expandWithin catalog room) label before after) :
    ∃ added, after.ratings = added ++ before.ratings ∧
      ∀ entry ∈ added, IsKeyOf label.key entry.1 := by
  by_cases subRule : ∃ refId target, label.kind = .evaluation refId ∧
      catalog.resolve? refId = some (.interpretation target)
  · obtain ⟨refId, target, kind, resolved⟩ := subRule
    obtain ⟨value, alone, _, ratingsEq, _⟩ :=
      visited_subRule (Nat.le_refl room) kind resolved top visited
    refine ⟨(label.key, value.rating) :: Journal.under (label.key ++ "/") alone.ratings,
      by rw [ratingsEq, List.cons_append], ?_⟩
    intro entry member
    rcases List.mem_cons.mp member with rfl | below
    · exact Or.inl rfl
    · obtain ⟨inner, _, rfl⟩ := List.mem_map.mp below
      exact Or.inr ⟨inner.1, rfl⟩
  · cases visited with
    | @inner _ rating notLeaf =>
        refine ⟨[(before.fullKey label.key, rating)], rfl, ?_⟩
        intro entry member
        rw [List.mem_singleton.mp member]
        exact Or.inl (fullKey_of_top top label.key)
    | @leaf refId _ middle value kind rated =>
        unfold assessLeaf at rated
        cases resolved : catalog.resolve? refId with
        | none =>
            rw [resolved] at rated
            cases rated
        | some target =>
            cases target with
            | interpretation target => exact absurd ⟨refId, target, kind, resolved⟩ subRule
            | evaluation evaluation =>
                rw [resolved] at rated
                dsimp only at rated
                rw [assessEvaluation_eq] at rated
                obtain ⟨_, middleEq⟩ := Prod.mk.inj rated
                subst middleEq
                refine ⟨[(before.fullKey label.key, value.rating)], rfl, ?_⟩
                intro entry member
                rw [List.mem_singleton.mp member]
                exact Or.inl (fullKey_of_top top label.key)

/-- Nodes at the top record nothing but their own keys. -/
private theorem visits_keys {room : Nat} {labels : List (Node num)} {before after : Context num}
    (top : before.leafKeys = [])
    (visits : Visits catalog (expandWithin catalog room) labels before after) :
    ∃ added, after.ratings = added ++ before.ratings ∧
      ∀ entry ∈ added, ∃ label ∈ labels, IsKeyOf label.key entry.1 := by
  induction visits with
  | nil ctx => exact ⟨[], rfl, by simp⟩
  | @cons label labels before middle after visited _ inductionHypothesis =>
      have middleTop : middle.leafKeys = [] := by
        rw [(visited.extension (expandWithin_extends room)).leafKeys, top]
      obtain ⟨early, earlyEq, earlyKeys⟩ := visited_keys top visited
      obtain ⟨late, lateEq, lateKeys⟩ := inductionHypothesis middleTop
      refine ⟨late ++ early, by rw [lateEq, earlyEq, List.append_assoc], ?_⟩
      intro entry member
      rcases List.mem_append.mp member with inLate | inEarly
      · obtain ⟨other, otherMember, isKey⟩ := lateKeys entry inLate
        exact ⟨other, List.mem_cons_of_mem label otherMember, isKey⟩
      · exact ⟨label, List.mem_cons_self, earlyKeys entry inEarly⟩

end Visits

/-! ## Sub-rules -/

/-- In the expansion of `outer` a node with the full key `key` is a leaf that expands `target`. -/
inductive Catalog.Expands (catalog : Catalog num) :
    Interpretation num → String → Interpretation num → Prop
  | leaf {outer target : Interpretation num} {label : Node num} {refId : String}
      (member : label ∈ Tree.preorderAll outer.roots) (kind : label.kind = .evaluation refId)
      (resolved : catalog.resolve? refId = some (.interpretation target)) :
      Expands catalog outer label.key target
  | nested {outer middle target : Interpretation num} {key innerKey : String}
      (first : Expands catalog outer key middle) (second : Expands catalog middle innerKey target) :
      Expands catalog outer (key ++ "/" ++ innerKey) target

theorem Catalog.Expands.mem {catalog : Catalog num} {outer target : Interpretation num}
    {key : String} (expands : catalog.Expands outer key target) :
    target ∈ catalog.interpretations := by
  induction expands with
  | leaf member kind resolved => exact Catalog.mem_of_resolve? resolved
  | nested first second firstHypothesis secondHypothesis => exact secondHypothesis

/-- What was recorded up to `outer` contains, under a key, what was recorded up to `alone` by an
interpretation by itself, which came to `rating`. -/
structure Context.Reproduces (key : String) (outer : Context num) (rating : Option num)
    (alone : Context num) : Prop where
  /-- The rating of the node is that of the interpretation. -/
  rating : (key, rating) ∈ Journal.current outer.ratings
  /-- The nodes below the node are those of the interpretation. -/
  nodes : ∀ nodeKey nodeRating,
    (key ++ "/" ++ nodeKey, nodeRating) ∈ Journal.current outer.ratings ↔
      (nodeKey, nodeRating) ∈ Journal.current alone.ratings
  /-- The values that the interpretation uses are used. -/
  values : ∀ entry ∈ Journal.current alone.values, entry ∈ Journal.current outer.values

section Assessment

variable [Arith num] {catalog : Catalog num}

/-- After visits at the top, what is found under the keys of a sub-rule is what the sub-rule
records by itself. -/
private theorem visits_subRule {room more : Nat} (enough : room ≤ more) {label : Node num}
    {labels : List (Node num)} {refId : String} {target : Interpretation num}
    (member : label ∈ labels) (distinct : (labels.map Node.key).Nodup)
    (clean : ∀ other ∈ labels, '/' ∉ other.key.toList) (kind : label.kind = .evaluation refId)
    (resolved : catalog.resolve? refId = some (.interpretation target))
    {before after : Context num} (top : before.leafKeys = []) (fresh : before.ratings = [])
    (visits : Visits catalog (expandWithin catalog room) labels before after) :
    ∃ value alone, expandWithin catalog more target (.start before.data before.options) =
        (.ok value, alone) ∧
      (∀ key, IsKeyOf label.key key → after.ratings.lookup key =
        ((label.key, value.rating) ::
          Journal.under (label.key ++ "/") alone.ratings).lookup key) ∧
      alone.values ⊆ after.values := by
  obtain ⟨early, late, reached, left, rfl, earlier, here, later⟩ := visits.split member
  have reachedExtends := earlier.extension (expandWithin_extends room)
  have leftExtends := here.extension (expandWithin_extends room)
  have laterExtends := later.extension (expandWithin_extends room)
  have reachedTop : reached.leafKeys = [] := by
    rw [reachedExtends.leafKeys, top]
  have leftTop : left.leafKeys = [] := by
    rw [leftExtends.leafKeys, reachedTop]
  obtain ⟨value, alone, aloneEq, ratingsEq, valuesEq⟩ :=
    visited_subRule enough kind resolved reachedTop here
  obtain ⟨earlyAdded, earlyEq, earlyKeys⟩ := visits_keys top earlier
  obtain ⟨lateAdded, lateEq, lateKeys⟩ := visits_keys leftTop later
  rw [List.map_append, List.map_cons, List.nodup_middle, List.nodup_cons] at distinct
  have earlyDifferent : ∀ other ∈ early, other.key ≠ label.key := by
    intro other otherMember same
    exact distinct.1 (same ▸ List.mem_append_left _ (List.mem_map_of_mem otherMember))
  have lateDifferent : ∀ other ∈ late, other.key ≠ label.key := by
    intro other otherMember same
    exact distinct.1 (same ▸ List.mem_append_right _ (List.mem_map_of_mem otherMember))
  have labelClean := clean label member
  have earlyClean : ∀ other ∈ early, '/' ∉ other.key.toList := fun other otherMember =>
    clean other (List.mem_append_left _ otherMember)
  have lateClean : ∀ other ∈ late, '/' ∉ other.key.toList := fun other otherMember =>
    clean other (List.mem_append_right early (List.mem_cons_of_mem label otherMember))
  rw [reachedExtends.data, reachedExtends.options] at aloneEq
  refine ⟨value, alone, aloneEq, ?_, ?_⟩
  · intro key isKey
    have notLate := isKey.ne_of_others labelClean lateClean lateDifferent lateKeys
    have notEarly := isKey.ne_of_others labelClean earlyClean earlyDifferent earlyKeys
    have nothingEarly : (earlyAdded ++ before.ratings).lookup key = none := by
      rw [Journal.lookup_append_of_ne notEarly, fresh]
      rfl
    rw [lateEq, ratingsEq, earlyEq, Journal.lookup_append_of_ne notLate, ← List.cons_append,
      List.lookup_append, nothingEarly, Option.or_none]
  · have inLeft : alone.values ⊆ left.values := by
      rw [valuesEq]
      exact List.subset_append_left alone.values reached.values
    exact fun entry entryMember => laterExtends.values_subset (inLeft entryMember)

/-- A successful assessment visits all nodes at the top. -/
private theorem exists_visits (checked : catalog.Checked) {outer : Interpretation num}
    (known : outer ∈ catalog.interpretations) {subject : PropertyData num}
    {options : AssessmentOptions} {rating : Option num} {after : Context num}
    (assessed : assess catalog outer.name outer.roots (.start subject options) =
      (.ok rating, after)) :
    ∃ room middle, options.maxDepth = room + 1 ∧ middle.popCall = after ∧
      Visits catalog (expandWithin catalog room) (Tree.postorderAll outer.roots)
        ((Context.start subject options).pushCall outer.name) middle := by
  obtain ⟨nodes, normalized⟩ := checked.normalized outer known
  rw [assess_eq_expandWithin] at assessed
  obtain ⟨value, expandedAfter, expanded, afterEq⟩ := Outcome.andThen_eq_ok_iff.mp assessed
  obtain ⟨_, rfl⟩ := Prod.mk.inj afterEq
  change expandWithin catalog options.maxDepth outer _ = _ at expanded
  cases depth : options.maxDepth with
  | zero =>
      rw [depth, expandWithin] at expanded
      cases expanded
  | succ room =>
      rw [depth, expandWithin] at expanded
      split at expanded
      · cases expanded
      · obtain ⟨middle, rootsAssessed, poppedEq⟩ := Outcome.leaving_eq_iff.mp expanded
        exact ⟨room, middle, rfl, poppedEq,
          assessRoots_visits (normalize_resolved normalized) rootsAssessed⟩

/-- The values that one assessment of a subject uses are current in another one that records
them. -/
private theorem current_values_subset {outer target : Interpretation num}
    {subject : PropertyData num} {options : AssessmentOptions}
    (contained : (assess catalog target.name target.roots (.start subject options)).2.values ⊆
      (assess catalog outer.name outer.roots (.start subject options)).2.values) :
    ∀ entry ∈ Journal.current
        (assess catalog target.name target.roots (.start subject options)).2.values,
      entry ∈ Journal.current
        (assess catalog outer.name outer.roots (.start subject options)).2.values := by
  intro entry member
  have recorded := contained (mem_of_lookup (Journal.mem_current_iff.mp member))
  obtain ⟨value, inCurrent⟩ := Journal.exists_mem_current recorded
  have ownValue := eq_valueOf_of_mem_current member
  have outerValue := eq_valueOf_of_mem_current inCurrent
  have sameEntry : entry = (entry.1, value) := Prod.ext rfl (ownValue.trans outerValue.symm)
  rw [sameEntry]
  exact inCurrent

/-- A leaf of the interpretation itself reproduces the interpretation that it refers to. -/
private theorem assess_leaf (checked : catalog.Checked) {outer target : Interpretation num}
    (known : outer ∈ catalog.interpretations) {label : Node num} {refId : String}
    (member : label ∈ Tree.preorderAll outer.roots) (kind : label.kind = .evaluation refId)
    (resolved : catalog.resolve? refId = some (.interpretation target))
    {subject : PropertyData num} {options : AssessmentOptions} {rating : Option num}
    {after : Context num}
    (assessed : assess catalog outer.name outer.roots (.start subject options) =
      (.ok rating, after)) :
    ∃ targetRating alone,
      assess catalog target.name target.roots (.start subject options) =
        (.ok targetRating, alone) ∧
      after.Reproduces label.key targetRating alone := by
  obtain ⟨nodes, normalized⟩ := checked.normalized outer known
  have resolvedRoots := normalize_resolved normalized
  have sameNodes := Tree.postorderAll_perm_preorderAll outer.roots
  have distinct : ((Tree.postorderAll outer.roots).map Node.key).Nodup :=
    (sameNodes.map Node.key).nodup_iff.mpr (keys_nodup resolvedRoots)
  have clean : ∀ other ∈ Tree.postorderAll outer.roots, '/' ∉ other.key.toList :=
    fun other otherMember =>
      slash_not_mem_key resolvedRoots other (sameNodes.mem_iff.mp otherMember)
  obtain ⟨room, middle, depth, poppedEq, visits⟩ := exists_visits checked known assessed
  obtain ⟨value, alone, aloneEq, lookupEq, valuesSubset⟩ :=
    visits_subRule (Nat.le_succ room) (sameNodes.mem_iff.mpr member) distinct clean kind resolved
      rfl rfl visits
  have aloneAssessed : assess catalog target.name target.roots (.start subject options) =
      (.ok value.rating, alone) := by
    rw [assess_eq_expandWithin]
    change (expandWithin catalog options.maxDepth target _).andThen _ = _
    rw [depth]
    exact Outcome.andThen_eq_ok_iff.mpr ⟨value, alone, aloneEq, rfl⟩
  have sameRatings : after.ratings = middle.ratings := by
    rw [← poppedEq]
    rfl
  have sameValues : after.values = middle.values := by
    rw [← poppedEq]
    rfl
  refine ⟨value.rating, alone, aloneAssessed, ?_, ?_, ?_⟩
  · rw [Journal.mem_current_iff, sameRatings, lookupEq label.key (Or.inl rfl)]
    exact List.lookup_cons_self
  · intro nodeKey nodeRating
    have longer : label.key ++ "/" ++ nodeKey ≠ label.key := by
      intro same
      have sameLength := congrArg String.length same
      simp only [String.length_append] at sameLength
      have slash : "/".length = 1 := rfl
      omega
    rw [Journal.mem_current_iff, Journal.mem_current_iff, sameRatings,
      lookupEq _ (Or.inr ⟨nodeKey, rfl⟩), Journal.lookup_cons_of_ne longer, Journal.lookup_under]
  · have contained : (assess catalog target.name target.roots (.start subject options)).2.values ⊆
        (assess catalog outer.name outer.roots (.start subject options)).2.values := by
      rw [aloneAssessed, assessed]
      change alone.values ⊆ after.values
      rw [sameValues]
      exact valuesSubset
    have currentSubset := current_values_subset contained
    rw [aloneAssessed, assessed] at currentSubset
    exact currentSubset

end Assessment

/-- Where an interpretation of a built catalog is rated, every interpretation that it expands,
directly or through others, is rated by itself, and all that it records by itself is recorded under
the key of the leaf that it stands for. -/
theorem assess_expands [Arith num] {data : CatalogData num} {catalog : Catalog num}
    (built : Catalog.build data = .ok catalog) {outer target : Interpretation num} {key : String}
    (known : outer ∈ catalog.interpretations) (expands : catalog.Expands outer key target)
    {subject : PropertyData num} {options : AssessmentOptions} {rating : Option num}
    {after : Context num}
    (assessed : assess catalog outer.name outer.roots (.start subject options) =
      (.ok rating, after)) :
    ∃ targetRating alone,
      assess catalog target.name target.roots (.start subject options) =
        (.ok targetRating, alone) ∧
      after.Reproduces key targetRating alone := by
  have checked := Catalog.build_checked built
  induction expands generalizing rating after with
  | leaf member kind resolved => exact assess_leaf checked known member kind resolved assessed
  | @nested outer middle target key innerKey first second firstHypothesis secondHypothesis =>
      obtain ⟨middleRating, middleAlone, middleAssessed, fromMiddle⟩ :=
        firstHypothesis known assessed
      obtain ⟨targetRating, alone, targetAssessed, fromTarget⟩ :=
        secondHypothesis first.mem middleAssessed
      refine ⟨targetRating, alone, targetAssessed, ?_, ?_, ?_⟩
      · exact (fromMiddle.nodes innerKey targetRating).mpr fromTarget.rating
      · intro nodeKey nodeRating
        have longKey : key ++ "/" ++ innerKey ++ "/" ++ nodeKey =
            key ++ "/" ++ (innerKey ++ "/" ++ nodeKey) := by
          simp only [String.append_assoc]
        rw [longKey, fromMiddle.nodes, fromTarget.nodes]
      · exact fun entry member => fromMiddle.values entry (fromTarget.values entry member)

/-- A site with a slope of five, whose rule expands the rule of the slope at its only leaf. -/
theorem assess_expands_site :
    ∃ catalog outer target rating after, Catalog.build Catalog.siteData = .ok catalog ∧
      outer ∈ catalog.interpretations ∧ catalog.Expands outer "0.0" target ∧
      assess catalog outer.name outer.roots
        (.start (.ofList [("slope", .number 5)]) .standard) = (.ok rating, after) ∧
      ∃ targetRating alone,
        assess catalog target.name target.roots
          (.start (.ofList [("slope", .number 5)]) .standard) = (.ok targetRating, alone) ∧
        after.Reproduces "0.0" targetRating alone := by
  obtain ⟨catalog, slope, site, built, interpretationsEq, slopeName, siteName⟩ :=
    Catalog.exists_build_siteData
  have run : ((Catalog.build Catalog.siteData).toOption.bind fun catalog =>
      (catalog.interpretation? "Site").bind fun site =>
        ((Tree.preorderAll site.roots).find? fun label =>
          label.kind == .evaluation "Slope").map fun label =>
            (label.key, (catalog.evaluation? "Slope").isNone,
              (assess catalog site.name site.roots
                (.start (.ofList [("slope", .number 5)]) .standard)).1.toOption)) =
      some ("0.0", true, some (some 1)) := by
    decide +kernel
  rw [built] at run
  have siteFound : catalog.interpretation? "Site" = some site := by
    simp [Catalog.interpretation?, interpretationsEq, slopeName, siteName]
  have slopeFound : catalog.interpretation? "Slope" = some slope := by
    simp [Catalog.interpretation?, interpretationsEq, slopeName]
  simp only [Except.toOption, Option.bind_some, siteFound, Option.map_eq_some_iff,
    Prod.mk.injEq] at run
  obtain ⟨label, found, keyEq, notEvaluation, assessed⟩ := run
  have known : site ∈ catalog.interpretations := by
    simp [interpretationsEq]
  have resolved : catalog.resolve? "Slope" = some (.interpretation slope) := by
    simp only [Catalog.resolve?, Option.isNone_iff_eq_none.mp notEvaluation, slopeFound,
      Option.map_some]
  have kind : label.kind = .evaluation "Slope" := by
    simpa using List.find?_some found
  have expands : catalog.Expands site "0.0" slope := by
    rw [← keyEq]
    exact .leaf (List.mem_of_find?_eq_some found) kind resolved
  rcases outcome : assess catalog site.name site.roots
      (.start (.ofList [("slope", .number 5)]) .standard) with ⟨error | rating, after⟩
  · rw [outcome] at assessed
    cases assessed
  · exact ⟨catalog, site, slope, rating, after, built, known, expands, outcome,
      assess_expands built known expands outcome⟩

end FuzzyRating
