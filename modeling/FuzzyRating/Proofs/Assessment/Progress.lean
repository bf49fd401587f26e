import FuzzyRating.Proofs.Assessment.Trace
import FuzzyRating.Proofs.Rule.Walk

/-!
How far an assessment comes. The nodes of the full trees are rated one after the other, each after
those below it, and none is rated twice. Only an assessment that fails leaves nodes without a
record.
-/

namespace FuzzyRating

variable {num : Type}

/-! ## Parts that fail -/

/-- The keys of the nodes that are rated. -/
def ratedKeys (entries : List (Entry num)) : List String :=
  (entries.filterMap Entry.rating?).map Prod.fst

@[simp]
theorem ratedKeys_append (early late : List (Entry num)) :
    ratedKeys (early ++ late) = ratedKeys early ++ ratedKeys late := by
  rw [ratedKeys, List.filterMap_append, List.map_append]
  rfl

@[simp]
theorem ratedKeys_rated (key : String) (rating : Option num) :
    ratedKeys [.rated key rating] = [key] :=
  rfl

/-- If a part of an assessment fails, it leaves a node without a rating that it has entries for. -/
def StopsShort {alpha : Type} (before : Context num) (entries : List (Entry num))
    (outcome : Outcome num alpha) : Prop :=
  ∀ error after, outcome = (.error error, after) →
    ∃ done rest, entries = done ++ rest ∧ after = before.write done ∧ ratedKeys rest ≠ []

namespace StopsShort

variable {alpha beta : Type} {before : Context num} {early late entries : List (Entry num)}
  {outcome : Outcome num alpha}

theorem ok (value : alpha) (after : Context num) :
    StopsShort before entries (.ok value, after) := by
  rintro error other ⟨⟩

/-- A part that fails at once. -/
theorem failing (rates : ratedKeys entries ≠ []) (error : AssessmentError num) :
    StopsShort before entries ((.error error : Except _ alpha), before) := by
  rintro _ _ ⟨⟩
  exact ⟨[], entries, rfl, rfl, rates⟩

theorem andThen [Arith num] {value : alpha} {next : alpha → Context num → Outcome num beta}
    (first : Writes before early value outcome) (firstStops : StopsShort before early outcome)
    (second : StopsShort (before.write early) late (next value (before.write early))) :
    StopsShort before (early ++ late) (outcome.andThen next) := by
  intro error after failed
  rcases Outcome.andThen_eq_error_iff.mp failed with firstFailed | ⟨result, middle, rfl, failed⟩
  · obtain ⟨done, rest, rfl, rfl, rates⟩ := firstStops error after firstFailed
    refine ⟨done, rest ++ late, List.append_assoc _ _ _, rfl, ?_⟩
    simp [rates]
  · cases first
    obtain ⟨done, rest, rfl, rfl, rates⟩ := second error after failed
    exact ⟨early ++ done, rest, (List.append_assoc _ _ _).symm,
      (Context.write_append before early done).symm, rates⟩

/-- A step that only makes something of the value does not fail. -/
theorem map (stops : StopsShort before entries outcome) (change : alpha → Context num → beta) :
    StopsShort before entries
      (outcome.andThen fun value after => (.ok (change value after), after)) := by
  intro error after failed
  rcases Outcome.andThen_eq_error_iff.mp failed with failed | ⟨_, _, _, impossible⟩
  · exact stops error after failed
  · cases impossible

/-- If the way to the value of a node fails, the node is not rated. -/
theorem record [Arith num] {value : NodeValue num} {outcome : Outcome num (NodeValue num)}
    {key : String} (rated : Writes before entries value outcome) :
    StopsShort before (entries ++ [.rated (before.front ++ key) value.rating])
      (outcome.andThen fun value after => (.ok value, after.record key value.rating)) := by
  cases rated with
  | all => exact ok _ _
  | @upTo done error part =>
      obtain ⟨rest, rfl⟩ := part
      rintro _ _ ⟨⟩
      refine ⟨done, rest ++ [.rated _ _], List.append_assoc _ _ _, rfl, ?_⟩
      simp

theorem popCall {name : String} (inner : StopsShort (before.pushCall name) entries outcome) :
    StopsShort before entries (outcome.leaving Context.popCall) := by
  intro error after failed
  obtain ⟨middle, innerFailed, rfl⟩ := Outcome.leaving_eq_iff.mp failed
  obtain ⟨done, rest, split, rfl, rates⟩ := inner error middle innerFailed
  exact ⟨done, rest, split, rfl, rates⟩

end StopsShort

/-! ## Assessments that fail -/

section Assessment

variable [Arith num] {catalog : Catalog num} {subject : PropertyData num}
  {options : AssessmentOptions} {trees : String → Interpretation num → List (RuleTree num)}
  {expand : Expansion num}

theorem assessNode_stopsShort {tree : RuleTree num} {place : String}
    (resolved : ResolvedAt place tree)
    (expands : ∀ label ∈ tree.preorder, ∀ target, catalog.subRule? label = some target →
      ExpandsTo catalog subject options trees expand target)
    {ctx : Context num} (concerns : ctx.Concerns subject options) :
    StopsShort ctx (fullEntries catalog subject options [catalog.fullTree trees ctx.front tree])
      (assessNode catalog expand ctx tree) := by
  rw [fullEntries_fullTree, assessNode_eq]
  exact .record (assessKind_writes resolved expands ctx concerns)

theorem assessNodes_stopsShort {roots : List (RuleTree num)}
    (resolved : ∀ tree ∈ roots, ∃ place, ResolvedAt place tree)
    (expands : ∀ label ∈ Tree.preorderAll roots, ∀ target, catalog.subRule? label = some target →
      ExpandsTo catalog subject options trees expand target)
    {ctx : Context num} (concerns : ctx.Concerns subject options) :
    StopsShort ctx
      (fullEntries catalog subject options (roots.map (catalog.fullTree trees ctx.front)))
      (assessNodes catalog expand ctx roots) := by
  induction roots generalizing ctx with
  | nil =>
      rw [assessNodes]
      exact .ok _ _
  | cons tree roots inductionHypothesis =>
      obtain ⟨place, treeResolved⟩ := resolved tree List.mem_cons_self
      have ofTree : ∀ label ∈ tree.preorder, ∀ target, catalog.subRule? label = some target →
          ExpandsTo catalog subject options trees expand target :=
        fun label member =>
          expands label (Tree.mem_preorderAll_iff.mpr ⟨tree, List.mem_cons_self, member⟩)
      have ofRoots : ∀ label ∈ Tree.preorderAll roots, ∀ target,
          catalog.subRule? label = some target →
            ExpandsTo catalog subject options trees expand target := by
        intro label member
        obtain ⟨root, rootMember, inRoot⟩ := Tree.mem_preorderAll_iff.mp member
        exact expands label
          (Tree.mem_preorderAll_iff.mpr ⟨root, List.mem_cons_of_mem tree rootMember, inRoot⟩)
      rw [assessNodes, List.map_cons, fullEntries_cons]
      refine .andThen (assessNode_writes treeResolved ofTree ctx concerns)
        (assessNode_stopsShort treeResolved ofTree concerns) ?_
      have written : (ctx.write (fullEntries catalog subject options
          [catalog.fullTree trees ctx.front tree])).Concerns subject options :=
        ⟨concerns.data, concerns.options⟩
      have rest := inductionHypothesis
        (fun other member => resolved other (List.mem_cons_of_mem tree member)) ofRoots written
      exact rest.map fun values _ => _ :: values

theorem assessRoots_stopsShort {roots : List (RuleTree num)} {parent : Option String}
    (resolved : ResolvedBelow parent roots)
    (expands : ∀ label ∈ Tree.preorderAll roots, ∀ target, catalog.subRule? label = some target →
      ExpandsTo catalog subject options trees expand target)
    {ctx : Context num} (concerns : ctx.Concerns subject options) :
    StopsShort ctx
      (fullEntries catalog subject options (roots.map (catalog.fullTree trees ctx.front)))
      (assessRoots catalog expand ctx roots) := by
  have combined := (assessNodes_stopsShort (fun tree => resolved.of_mem) expands concerns).map
    fun values after => NodeValue.combine after.options.missingData .and values
  rcases roots with _ | ⟨root, _ | ⟨second, rest⟩⟩
  · exact combined
  · obtain ⟨place, rootResolved⟩ := resolved.of_mem List.mem_cons_self
    refine assessNode_stopsShort rootResolved (fun label member => expands label ?_) concerns
    exact Tree.mem_preorderAll_iff.mpr ⟨root, List.mem_cons_self, member⟩
  · exact combined

end Assessment

/-! ## Assessments by a checked catalog -/

section Checked

variable [Arith num] {catalog : Catalog num} {target : Interpretation num}

/-- The keys of all nodes in the order in which they are rated. -/
def Catalog.fullKeys (catalog : Catalog num) (target : Interpretation num) : List String :=
  (Tree.postorderAll (catalog.fullTrees target)).map Node.key

theorem Catalog.fullKeys_ne_nil (checked : catalog.Checked)
    (known : target ∈ catalog.interpretations) :
    catalog.fullKeys target ≠ [] := by
  obtain ⟨nodes, normalized⟩ := checked.normalized target known
  obtain ⟨root, roots, rootsEq⟩ := List.exists_cons_of_ne_nil (normalize_ne_nil normalized)
  have isRated : root.label.under "" ∈ Tree.postorderAll (catalog.fullTrees target) := by
    rw [Tree.mem_postorderAll_iff, fullTrees, fullTreesUnder_eq checked.acyclic known,
      preorderAll_map_fullTree, rootsEq]
    obtain ⟨label, children⟩ := root
    exact List.mem_flatMap.mpr ⟨label, by simp, List.mem_cons_self⟩
  exact List.ne_nil_of_mem (List.mem_map_of_mem isRated)

theorem ratedKeys_fullEntries (subject : PropertyData num) (options : AssessmentOptions) :
    ratedKeys (fullEntries catalog subject options (catalog.fullTrees target)) =
      catalog.fullKeys target := by
  rw [ratedKeys, rating?_fullEntries, List.map_map, Catalog.fullKeys, ← Tree.map_label_subtreesAll,
    List.map_map]
  rfl

theorem assess_stopsShort (checked : catalog.Checked) (known : target ∈ catalog.interpretations)
    (subject : PropertyData num) (options : AssessmentOptions) :
    StopsShort (.start subject options)
      (fullEntries catalog subject options (catalog.fullTrees target))
      (assess catalog target.name target.roots (.start subject options)) := by
  have rates : ratedKeys (fullEntries catalog subject options (catalog.fullTrees target)) ≠ [] := by
    rw [ratedKeys_fullEntries]
    exact Catalog.fullKeys_ne_nil checked known
  rw [assess_eq_expandWithin]
  refine StopsShort.map ?_ fun (value : NodeValue num) _ => value.rating
  generalize (Context.start subject options).options.maxDepth - _ = room
  cases room with
  | zero =>
      rw [expandWithin]
      exact .failing rates _
  | succ room =>
      rw [expandWithin]
      split
      · exact .failing rates _
      · obtain ⟨nodes, normalized⟩ := checked.normalized target known
        have ofRoots : StopsShort ((Context.start subject options).pushCall target.name)
            (fullEntries catalog subject options (target.roots.map
              (catalog.fullTree catalog.fullTreesUnder "")))
            (assessRoots catalog (expandWithin catalog room)
              ((Context.start subject options).pushCall target.name) target.roots) :=
          assessRoots_stopsShort (normalize_resolved normalized)
            (fun label member next found => expandWithin_writes checked
              (Catalog.refersTo_of_subRule? member found).mem) ⟨rfl, rfl⟩
        rw [← Catalog.fullTreesUnder_eq checked.acyclic known] at ofRoots
        exact ofRoots.popCall

/-- What an assessment has recorded in the end are the first entries, and all ratings among them
exactly if it succeeds. -/
theorem exists_write_eq_assess (checked : catalog.Checked)
    (known : target ∈ catalog.interpretations) (subject : PropertyData num)
    (options : AssessmentOptions) :
    let outcome := assess catalog target.name target.roots (.start subject options)
    ∃ done rest, fullEntries catalog subject options (catalog.fullTrees target) = done ++ rest ∧
      outcome.2 = (Context.start subject options).write done ∧
      (ratedKeys rest = [] ↔ ∃ rating, outcome.1 = .ok rating) := by
  intro outcome
  rcases equality : outcome with ⟨error | rating, after⟩
  · obtain ⟨done, rest, split, rfl, rates⟩ :=
      assess_stopsShort checked known subject options error after equality
    exact ⟨done, rest, split, rfl, by simpa using rates⟩
  · obtain ⟨_, rfl, _⟩ := assess_ok checked known equality
    exact ⟨_, [], (List.append_nil _).symm, rfl, by simp [ratedKeys]⟩

end Checked

/-- An assessment rates the nodes of the full trees in their order, none of them twice, and all of
them exactly if it succeeds. -/
theorem assess_ratesInOrder [Arith num] {data : CatalogData num} {catalog : Catalog num}
    {target : Interpretation num} (built : Catalog.build data = .ok catalog)
    (known : target ∈ catalog.interpretations) (subject : PropertyData num)
    (options : AssessmentOptions) :
    let outcome := assess catalog target.name target.roots (.start subject options)
    let recorded := (Journal.current outcome.2.ratings).map Prod.fst
    (catalog.fullKeys target).Nodup ∧
      (∃ count, recorded.Perm ((catalog.fullKeys target).take count) ∧
        outcome.2.ratings.map Prod.fst = ((catalog.fullKeys target).take count).reverse) ∧
      ((∀ key ∈ catalog.fullKeys target, key ∈ recorded) ↔ ∃ rating, outcome.1 = .ok rating) := by
  intro outcome recorded
  have checked := Catalog.build_checked built
  have distinct : (catalog.fullKeys target).Nodup :=
    ((Tree.postorderAll_perm_preorderAll _).map Node.key).nodup_iff.mpr
      (Catalog.fullKeys_nodup checked.normalized known _ _)
  obtain ⟨done, rest, split, written, complete⟩ :=
    exists_write_eq_assess checked known subject options
  have keysEq : catalog.fullKeys target = ratedKeys done ++ ratedKeys rest := by
    rw [← ratedKeys_fullEntries subject options, split, ratedKeys_append]
  have ratingsEq : outcome.2.ratings.map Prod.fst = (ratedKeys done).reverse := by
    rw [written]
    simp [Context.write, Context.start, ratedKeys]
  have takeEq : (ratedKeys done ++ ratedKeys rest).take (ratedKeys done).length =
      ratedKeys done :=
    List.take_left
  rw [keysEq] at distinct ⊢
  obtain ⟨doneDistinct, _, apart⟩ := List.nodup_append.mp distinct
  have isPerm : recorded.Perm (ratedKeys done) := by
    have perm := Journal.keys_current_perm (ratingsEq ▸ List.nodup_reverse.mpr doneDistinct)
    rw [ratingsEq] at perm
    exact perm.trans (List.reverse_perm _)
  refine ⟨distinct, ⟨(ratedKeys done).length, by rwa [takeEq], by rw [takeEq, ratingsEq]⟩, ?_⟩
  refine Iff.trans ?_ complete
  constructor
  · intro all
    refine List.eq_nil_iff_forall_not_mem.mpr fun key isLeft => ?_
    have isRecorded := isPerm.mem_iff.mp (all key (List.mem_append_right _ isLeft))
    exact apart key isRecorded key isLeft rfl
  · intro noneLeft key isKey
    rw [noneLeft, List.append_nil] at isKey
    exact isPerm.mem_iff.mpr isKey

/-- A site is rated by its slope directly and by the rule of the slope. -/
def steepSiteData : CatalogData Float where
  properties := [⟨"p1", "slope", none, none, none, "", false⟩]
  evaluations :=
    [⟨"e1", "Steep", "slope", "crisp", false, none, none, none, some "> 3"⟩]
  rules :=
    [⟨"r1", "Slope",
      [.node "Slope" none none none [], .node "  Steepness" none none (some "Steep") []]⟩,
     ⟨"r2", "Site",
      [.node "Site" none none none [], .node "  Steepness" none none (some "Steep") [],
       .node "  Terrain" none none (some "Slope") []]⟩]

/-- Where only one interpretation may be assessed at a time, only the first leaf is rated. -/
theorem assess_ratesInOrder_steepSite :
    ∃ catalog target, Catalog.build steepSiteData = .ok catalog ∧
      target ∈ catalog.interpretations ∧
      catalog.fullKeys target = ["0.0", "0.1/0.0", "0.1/0", "0.1", "0"] ∧
      let outcome := assess catalog target.name target.roots
        (.start (.ofList [("slope", .number 5)]) ⟨true, .propagate, 1⟩)
      let recorded := (Journal.current outcome.2.ratings).map Prod.fst
      outcome.2.ratings.map Prod.fst = ["0.0"] ∧ (catalog.fullKeys target).Nodup ∧
        (∃ count, recorded.Perm ((catalog.fullKeys target).take count) ∧
          outcome.2.ratings.map Prod.fst = ((catalog.fullKeys target).take count).reverse) ∧
        ((∀ key ∈ catalog.fullKeys target, key ∈ recorded) ↔
          ∃ rating, outcome.1 = .ok rating) := by
  have run : ((Catalog.build steepSiteData).toOption.bind fun catalog =>
      (catalog.interpretation? "Site").map fun site =>
        (catalog.fullKeys site, (assess catalog site.name site.roots
          (.start (.ofList [("slope", .number 5)])
            ⟨true, .propagate, 1⟩)).2.ratings.map Prod.fst)) =
      some (["0.0", "0.1/0.0", "0.1/0", "0.1", "0"], ["0.0"]) := by
    decide +kernel
  obtain ⟨catalog, target, built, known, readEq⟩ := Catalog.exists_of_build run
  obtain ⟨keysEq, recordedEq⟩ := Prod.mk.inj readEq
  exact ⟨catalog, target, built, known, keysEq, recordedEq,
    assess_ratesInOrder built known (.ofList [("slope", .number 5)]) ⟨true, .propagate, 1⟩⟩

end FuzzyRating
