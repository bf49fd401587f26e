import FuzzyRating.Proofs.Catalog.Required

/-!
What an assessment records is read off the full trees. Their nodes come one after the other, each
after those below it, and every node records its rating, which follows from what its children come
to. A leaf first records the value that it rates. An assessment that fails stops somewhere on the
way.
-/

namespace FuzzyRating

variable {num : Type}

/-! ## Entries -/

/-- What is recorded in one step. -/
inductive Entry (num : Type) where
  /-- A leaf uses the value of the property that its evaluation reads. -/
  | used (evaluation : Evaluation num) (value : PropertyValue num)
  /-- A node is rated. -/
  | rated (fullKey : String) (rating : Option num)

namespace Entry

def value? : Entry num → Option (String × PropertyValue num)
  | used evaluation value => some (evaluation.propertyName, value)
  | rated _ _ => none

def rating? : Entry num → Option (String × Option num)
  | rated fullKey rating => some (fullKey, rating)
  | used _ _ => none

/-- The value that is used can be rated. -/
def Succeeds [Arith num] (options : AssessmentOptions) : Entry num → Prop
  | used evaluation value =>
      ∃ rating, evaluation.membership options.clampSpline value = .ok rating
  | rated _ _ => True

end Entry

/-- Records entries one after the other. -/
def Context.write (ctx : Context num) (entries : List (Entry num)) : Context num :=
  { ctx with
    ratings := (entries.filterMap Entry.rating?).reverse ++ ctx.ratings
    values := (entries.filterMap Entry.value?).reverse ++ ctx.values }

theorem Context.write_append (ctx : Context num) (early late : List (Entry num)) :
    ctx.write (early ++ late) = (ctx.write early).write late := by
  simp only [Context.write, List.filterMap_append, List.reverse_append, List.append_assoc]

/-- A part of an assessment records entries up to where it fails. If it comes to a value, all of
them have succeeded and are recorded. -/
inductive Writes {alpha : Type} [Arith num] (before : Context num) (entries : List (Entry num))
    (value : alpha) : Outcome num alpha → Prop
  | all (succeed : ∀ entry ∈ entries, entry.Succeeds before.options) :
      Writes before entries value (.ok value, before.write entries)
  | upTo {done : List (Entry num)} (error : AssessmentError num) (part : done <+: entries) :
      Writes before entries value (.error error, before.write done)

namespace Writes

variable {alpha beta : Type} [Arith num] {before : Context num}
  {early late entries : List (Entry num)} {value : alpha} {outcome : Outcome num alpha}

/-- A part that fails at once. -/
theorem failing (error : AssessmentError num) :
    Writes before entries value ((.error error : Except _ alpha), before) :=
  upTo error (List.nil_prefix)

/-- A part that does nothing. -/
theorem nothing (before : Context num) (value : alpha) :
    Writes before [] value (.ok value, before) :=
  all (by simp)

theorem andThen {next : alpha → Context num → Outcome num beta} {result : beta}
    (first : Writes before early value outcome)
    (second : Writes (before.write early) late result (next value (before.write early))) :
    Writes before (early ++ late) result (outcome.andThen next) := by
  cases first with
  | upTo error part => exact upTo error (part.trans (List.prefix_append early late))
  | all earlySucceed =>
      change Writes before (early ++ late) result (next value (before.write early))
      generalize next value (before.write early) = nextOutcome at second
      cases second with
      | all lateSucceed =>
          rw [← Context.write_append]
          refine all fun entry member => ?_
          rcases List.mem_append.mp member with inEarly | inLate
          · exact earlySucceed entry inEarly
          · exact lateSucceed entry inLate
      | @upTo done error part =>
          rw [← Context.write_append]
          exact upTo error (List.prefix_append_right_inj early |>.mpr part)

/-- A step that only makes something of the value records nothing. -/
theorem map {next : alpha → Context num → Outcome num beta}
    (first : Writes before entries value outcome) (change : alpha → beta)
    (idle : next value (before.write entries) = (.ok (change value), before.write entries)) :
    Writes before entries (change value) (outcome.andThen next) := by
  have second : Writes (before.write entries) [] (change value)
      (next value (before.write entries)) := by
    rw [idle]
    exact nothing _ _
  simpa using first.andThen second

theorem popLeaf {key : String} (inner : Writes (before.pushLeaf key) entries value outcome) :
    Writes before entries value (outcome.leaving Context.popLeaf) := by
  cases inner with
  | all succeed => exact all succeed
  | upTo error part => exact upTo error part

theorem popCall {name : String} (inner : Writes (before.pushCall name) entries value outcome) :
    Writes before entries value (outcome.leaving Context.popCall) := by
  cases inner with
  | all succeed => exact all succeed
  | upTo error part => exact upTo error part

end Writes

/-! ## What nodes come to -/

/-- What top-level trees come to together. -/
def NodeValue.together [Arith num] (policy : MissingData) : List (NodeValue num) → NodeValue num
  | [value] => value
  | values => NodeValue.combine policy .and values

section Values

variable [Arith num] (catalog : Catalog num) (subject : PropertyData num)
  (options : AssessmentOptions)

/-- What an evaluation makes of the subject, if it can rate the value of the subject. -/
def evaluationValue (evaluation : Evaluation num) : NodeValue num :=
  match evaluation.membership options.clampSpline
      (subject.valueOf catalog evaluation.propertyName) with
  | .ok rating => .ofRating rating
  | .error _ => .notRated

/-- What a node of a full tree comes to, given what its children come to. -/
def nodeValue (label : Node num) (values : List (NodeValue num)) : NodeValue num :=
  match label.kind with
  | .root => NodeValue.combine options.missingData .and values
  | .operator operator => NodeValue.combine options.missingData operator values
  | .hedge hedge parameter => (values.headD .notRated).hedged hedge parameter
  | .evaluation _ =>
      match catalog.evaluationOf? label with
      | some evaluation => evaluationValue catalog subject options evaluation
      | none => NodeValue.together options.missingData values

/-- What a full tree comes to. -/
def treeValue : RuleTree num → NodeValue num :=
  Tree.fold (nodeValue catalog subject options)

/-- What a node records before its rating. -/
def leafEntries (label : Node num) : List (Entry num) :=
  (catalog.evaluationOf? label).toList.map fun evaluation =>
    .used evaluation (subject.valueOf catalog evaluation.propertyName)

/-- What the root of a full tree records, after what is recorded below it. -/
def rootEntries (tree : RuleTree num) : List (Entry num) :=
  leafEntries catalog subject tree.label ++
    [.rated tree.label.key (treeValue catalog subject options tree).rating]

/-- What full trees record. -/
def fullEntries (trees : List (RuleTree num)) : List (Entry num) :=
  (Tree.subtreesAll trees).flatMap (rootEntries catalog subject options)

end Values

/-! ## Contexts -/

/-- What stands in front of the full keys of nodes. -/
def Context.front (ctx : Context num) : String :=
  match ctx.leafKeys with
  | [] => ""
  | leaf :: _ => leaf ++ "/"

theorem Context.fullKey_eq (ctx : Context num) (key : String) :
    ctx.fullKey key = ctx.front ++ key := by
  unfold Context.fullKey Context.front
  cases ctx.leafKeys with
  | nil => exact String.empty_append.symm
  | cons leaf rest => rfl

/-- The context is that of an assessment of this subject with these options. -/
structure Context.Concerns (ctx : Context num) (subject : PropertyData num)
    (options : AssessmentOptions) : Prop where
  data : ctx.data = subject
  options : ctx.options = options

/-- A node is rated after what is recorded on the way to its value. -/
theorem Writes.record [Arith num] {ctx : Context num} {entries : List (Entry num)}
    {value : NodeValue num} {outcome : Outcome num (NodeValue num)} {key : String}
    (rated : Writes ctx entries value outcome) :
    Writes ctx (entries ++ [.rated (ctx.front ++ key) value.rating]) value
      (outcome.andThen fun value after => (.ok value, after.record key value.rating)) := by
  refine rated.andThen ?_
  have recorded : (ctx.write entries).record key value.rating =
      (ctx.write entries).write [.rated (ctx.front ++ key) value.rating] := by
    unfold Context.record
    rw [Context.fullKey_eq]
    rfl
  rw [recorded]
  refine .all fun entry member => ?_
  rw [List.mem_singleton.mp member]
  trivial

theorem Writes.combined [Arith num] {ctx : Context num} {subject : PropertyData num}
    {options : AssessmentOptions} {entries : List (Entry num)} {values : List (NodeValue num)}
    {outcome : Outcome num (List (NodeValue num))} (rated : Writes ctx entries values outcome)
    (concerns : ctx.Concerns subject options) (operator : Operator) :
    Writes ctx entries (NodeValue.combine options.missingData operator values)
      (outcome.andThen fun values after =>
        (.ok (NodeValue.combine after.options.missingData operator values), after)) := by
  refine rated.map (NodeValue.combine options.missingData operator) ?_
  rw [Context.write, concerns.options]

/-! ## Assessments record what the full trees say -/

section Assessment

variable [Arith num] {catalog : Catalog num} {subject : PropertyData num}
  {options : AssessmentOptions}

theorem fullEntries_append (early late : List (RuleTree num)) :
    fullEntries catalog subject options (early ++ late) =
      fullEntries catalog subject options early ++ fullEntries catalog subject options late := by
  simp only [fullEntries, Tree.subtreesAll_eq_flatMap, List.flatMap_append]

theorem fullEntries_cons (tree : RuleTree num) (trees : List (RuleTree num)) :
    fullEntries catalog subject options (tree :: trees) =
      fullEntries catalog subject options [tree] ++ fullEntries catalog subject options trees :=
  fullEntries_append [tree] trees

theorem fullEntries_node (label : Node num) (children : List (RuleTree num)) :
    fullEntries catalog subject options [.node label children] =
      fullEntries catalog subject options children ++
        rootEntries catalog subject options (.node label children) := by
  simp only [fullEntries, Tree.subtreesAll_eq_flatMap, List.flatMap_cons, List.flatMap_nil,
    List.append_nil, Tree.subtrees_node, List.flatMap_append]

theorem fullEntries_nil :
    fullEntries catalog subject options [] = [] := by
  rw [fullEntries, Tree.subtreesAll, List.flatMap_nil]

omit [Arith num] in
theorem leafEntries_eq_nil {label : Node num} (inner : label.refId? = none) :
    leafEntries catalog subject label = [] := by
  simp only [leafEntries, Catalog.evaluationOf?, inner, Option.bind_none, Option.toList_none,
    List.map_nil]

theorem treeValue_node (label : Node num) (children : List (RuleTree num)) :
    treeValue catalog subject options (.node label children) =
      nodeValue catalog subject options label (children.map (treeValue catalog subject options)) :=
  Tree.fold_node _ label children

/-- An expansion records what full trees say, which `trees` gives for what stands in front of
their keys. -/
def ExpandsTo (catalog : Catalog num) (subject : PropertyData num) (options : AssessmentOptions)
    (trees : String → Interpretation num → List (RuleTree num)) (expand : Expansion num)
    (target : Interpretation num) : Prop :=
  ∀ ctx : Context num, ctx.Concerns subject options →
    Writes ctx (fullEntries catalog subject options (trees ctx.front target))
      (NodeValue.together options.missingData
        ((trees ctx.front target).map (treeValue catalog subject options)))
      (expand target ctx)

theorem assessEvaluation_writes {ctx : Context num} (concerns : ctx.Concerns subject options)
    (evaluation : Evaluation num) :
    Writes ctx
      [.used evaluation (subject.valueOf catalog evaluation.propertyName)]
      (evaluationValue catalog subject options evaluation)
      (assessEvaluation catalog evaluation ctx) := by
  rw [assessEvaluation_eq, concerns.data, concerns.options]
  dsimp only
  unfold evaluationValue
  cases result : evaluation.membership options.clampSpline
      (subject.valueOf catalog evaluation.propertyName) with
  | error error => exact .upTo _ (List.prefix_refl _)
  | ok rating =>
      refine .all fun entry member => ?_
      rw [List.mem_singleton.mp member, concerns.options]
      exact ⟨rating, result⟩

variable {trees : String → Interpretation num → List (RuleTree num)} {expand : Expansion num}

theorem assessLeaf_writes {ctx : Context num} (concerns : ctx.Concerns subject options)
    {label : Node num} {refId : String} (kind : label.kind = .evaluation refId)
    (expands : ∀ target, catalog.subRule? label = some target →
      ExpandsTo catalog subject options trees expand target) :
    Writes ctx
      (fullEntries catalog subject options (catalog.treesBelow trees ctx.front label) ++
        leafEntries catalog subject label)
      (nodeValue catalog subject options label
        ((catalog.treesBelow trees ctx.front label).map (treeValue catalog subject options)))
      (assessLeaf catalog expand label.key refId ctx) := by
  have isLeaf : label.refId? = some refId := Node.refId?_eq_some_iff.mpr kind
  unfold assessLeaf nodeValue leafEntries Catalog.treesBelow Catalog.evaluationOf? Catalog.subRule?
  rw [kind, isLeaf, Option.bind_some]
  cases resolved : catalog.resolve? refId with
  | none => exact .failing _
  | some target =>
      cases target with
      | evaluation evaluation => exact assessEvaluation_writes concerns evaluation
      | interpretation target =>
          have found : catalog.subRule? label = some target :=
            Catalog.subRule?_eq_some_iff.mpr ⟨refId, isLeaf, resolved⟩
          have inner := expands target found (ctx.pushLeaf (ctx.fullKey label.key))
            ⟨concerns.data, concerns.options⟩
          have front : (ctx.pushLeaf (ctx.fullKey label.key)).front =
              ctx.front ++ label.key ++ "/" :=
            congrArg (· ++ "/") (ctx.fullKey_eq label.key)
          rw [front] at inner
          simp only [Option.toList_none, List.map_nil, List.append_nil]
          exact inner.popLeaf

private theorem assessNodes_writes_of {children : List (RuleTree num)}
    (each : ∀ child ∈ children, ∀ ctx : Context num, ctx.Concerns subject options →
      Writes ctx
        (fullEntries catalog subject options [catalog.fullTree trees ctx.front child])
        (treeValue catalog subject options (catalog.fullTree trees ctx.front child))
        (assessNode catalog expand ctx child)) :
    ∀ ctx : Context num, ctx.Concerns subject options →
      Writes ctx
        (fullEntries catalog subject options (children.map (catalog.fullTree trees ctx.front)))
        ((children.map (catalog.fullTree trees ctx.front)).map (treeValue catalog subject options))
        (assessNodes catalog expand ctx children) := by
  induction children with
  | nil =>
      intro ctx _
      rw [assessNodes]
      exact .nothing ctx []
  | cons child children inductionHypothesis =>
      intro ctx concerns
      have first := each child List.mem_cons_self ctx concerns
      have rest := inductionHypothesis
        (fun other member => each other (List.mem_cons_of_mem child member))
        (ctx.write (fullEntries catalog subject options [catalog.fullTree trees ctx.front child]))
        ⟨concerns.data, concerns.options⟩
      rw [assessNodes, List.map_cons, fullEntries_cons, List.map_cons]
      exact first.andThen (rest.map (_ :: ·) rfl)

/-- What rating a node comes to, before the rating is recorded. -/
def assessKind (catalog : Catalog num) (expand : Expansion num) (ctx : Context num)
    (label : Node num) (children : List (RuleTree num)) : Outcome num (NodeValue num) :=
  match label.kind with
  | .root =>
      (assessNodes catalog expand ctx children).andThen fun values ctx =>
        (.ok (NodeValue.combine ctx.options.missingData .and values), ctx)
  | .operator operator =>
      (assessNodes catalog expand ctx children).andThen fun values ctx =>
        (.ok (NodeValue.combine ctx.options.missingData operator values), ctx)
  | .hedge hedge parameter =>
      match children with
      | [] => (.error (.failed (ctx.fullKey label.key) (.childlessHedge hedge)), ctx)
      | child :: _ =>
          (assessNode catalog expand ctx child).andThen fun value ctx =>
            (.ok (value.hedged hedge parameter), ctx)
  | .evaluation refId => assessLeaf catalog expand label.key refId ctx

theorem assessNode_eq (ctx : Context num) (tree : RuleTree num) :
    assessNode catalog expand ctx tree =
      (assessKind catalog expand ctx tree.label tree.children).andThen fun value after =>
        (.ok value, after.record tree.label.key value.rating) := by
  cases tree
  rw [assessNode]
  rfl

/-- What a full tree records: what the trees below its root do, what its root uses, and last the
rating of its root. -/
theorem fullEntries_fullTree (front : String) (tree : RuleTree num) :
    fullEntries catalog subject options [catalog.fullTree trees front tree] =
      fullEntries catalog subject options (catalog.fullTree trees front tree).children ++
        leafEntries catalog subject tree.label ++
        [.rated (front ++ tree.label.key)
          (treeValue catalog subject options (catalog.fullTree trees front tree)).rating] := by
  obtain ⟨label, children⟩ := tree
  rw [Catalog.fullTree_node, fullEntries_node, List.append_assoc]
  rfl

private theorem assessNode_writes_of {tree : RuleTree num} {ctx : Context num}
    (rated : Writes ctx
      (fullEntries catalog subject options (catalog.fullTree trees ctx.front tree).children ++
        leafEntries catalog subject tree.label)
      (treeValue catalog subject options (catalog.fullTree trees ctx.front tree))
      (assessKind catalog expand ctx tree.label tree.children)) :
    Writes ctx (fullEntries catalog subject options [catalog.fullTree trees ctx.front tree])
      (treeValue catalog subject options (catalog.fullTree trees ctx.front tree))
      (assessNode catalog expand ctx tree) := by
  rw [fullEntries_fullTree, assessNode_eq]
  exact rated.record

theorem assessKind_writes {tree : RuleTree num} {place : String}
    (resolved : ResolvedAt place tree)
    (expands : ∀ label ∈ tree.preorder, ∀ target, catalog.subRule? label = some target →
      ExpandsTo catalog subject options trees expand target) :
    ∀ ctx : Context num, ctx.Concerns subject options →
      Writes ctx
        (fullEntries catalog subject options (catalog.fullTree trees ctx.front tree).children ++
          leafEntries catalog subject tree.label)
        (treeValue catalog subject options (catalog.fullTree trees ctx.front tree))
        (assessKind catalog expand ctx tree.label tree.children) := by
  induction tree using Tree.induction generalizing place with
  | node label children inductionHypothesis =>
      intro ctx concerns
      have each : ∀ child ∈ children, ∀ inner : Context num, inner.Concerns subject options →
          Writes inner
            (fullEntries catalog subject options [catalog.fullTree trees inner.front child])
            (treeValue catalog subject options (catalog.fullTree trees inner.front child))
            (assessNode catalog expand inner child) := by
        intro child member inner innerConcerns
        obtain ⟨childPlace, childResolved⟩ := resolvedBelow_children resolved child member
        refine assessNode_writes_of (inductionHypothesis child member childResolved ?_ inner
          innerConcerns)
        exact fun other otherMember =>
          expands other (Tree.mem_preorder_node_iff.mpr (Or.inr ⟨child, member, otherMember⟩))
      have below := assessNodes_writes_of each ctx concerns
      have own := expands label (Tree.mem_preorder_node_iff.mpr (Or.inl rfl))
      rw [Catalog.fullTree_node, treeValue_node]
      change Writes ctx (fullEntries catalog subject options (_ ++ _) ++ _)
        (nodeValue catalog subject options label _) (assessKind catalog expand ctx label children)
      rw [List.map_append, fullEntries_append]
      unfold assessKind
      -- leaves lead into other trees
      cases leaf : label.refId? with
      | some refId =>
          have kind := Node.refId?_eq_some_iff.mp leaf
          obtain rfl := children_eq_nil_of_evaluation resolved kind
          have rated := assessLeaf_writes concerns kind own
          rw [kind]
          rwa [List.map_nil, List.map_nil, List.append_nil, fullEntries_nil, List.append_nil]
      | none =>
          change Writes ctx (_ ++ leafEntries catalog subject label) _ _
          rw [Catalog.treesBelow_eq_nil leaf, leafEntries_eq_nil leaf, List.append_nil, nodeValue]
          cases kind : label.kind with
          | root => exact below.combined concerns .and
          | operator operator => exact below.combined concerns operator
          | hedge hedge parameter =>
              obtain ⟨child, rfl⟩ := children_eq_singleton_of_hedge resolved kind
              have first := each child List.mem_cons_self ctx concerns
              exact first.map (NodeValue.hedged hedge parameter) rfl
          | evaluation refId =>
              rw [Node.refId?_eq_some_iff.mpr kind] at leaf
              cases leaf

theorem assessNode_writes {tree : RuleTree num} {place : String}
    (resolved : ResolvedAt place tree)
    (expands : ∀ label ∈ tree.preorder, ∀ target, catalog.subRule? label = some target →
      ExpandsTo catalog subject options trees expand target) :
    ∀ ctx : Context num, ctx.Concerns subject options →
      Writes ctx (fullEntries catalog subject options [catalog.fullTree trees ctx.front tree])
        (treeValue catalog subject options (catalog.fullTree trees ctx.front tree))
        (assessNode catalog expand ctx tree) :=
  fun ctx concerns => assessNode_writes_of (assessKind_writes resolved expands ctx concerns)

theorem assessRoots_writes {roots : List (RuleTree num)} {parent : Option String}
    (resolved : ResolvedBelow parent roots)
    (expands : ∀ label ∈ Tree.preorderAll roots, ∀ target, catalog.subRule? label = some target →
      ExpandsTo catalog subject options trees expand target)
    {ctx : Context num} (concerns : ctx.Concerns subject options) :
    Writes ctx
      (fullEntries catalog subject options (roots.map (catalog.fullTree trees ctx.front)))
      (NodeValue.together options.missingData
        ((roots.map (catalog.fullTree trees ctx.front)).map (treeValue catalog subject options)))
      (assessRoots catalog expand ctx roots) := by
  have each : ∀ root ∈ roots, ∀ inner : Context num, inner.Concerns subject options →
      Writes inner
        (fullEntries catalog subject options [catalog.fullTree trees inner.front root])
        (treeValue catalog subject options (catalog.fullTree trees inner.front root))
        (assessNode catalog expand inner root) := by
    intro root member
    obtain ⟨place, rootResolved⟩ := resolved.of_mem member
    exact assessNode_writes rootResolved fun label inRoot =>
      expands label (Tree.mem_preorderAll_iff.mpr ⟨root, member, inRoot⟩)
  have combined := (assessNodes_writes_of each ctx concerns).combined concerns .and
  rcases roots with _ | ⟨root, _ | ⟨second, rest⟩⟩
  · exact combined
  · exact each root List.mem_cons_self ctx concerns
  · exact combined

/-- An interpretation of a checked catalog records what its full trees say, wherever it is
expanded. -/
theorem expandWithin_writes (checked : catalog.Checked) {room : Nat} {target : Interpretation num}
    (known : target ∈ catalog.interpretations) :
    ExpandsTo catalog subject options catalog.fullTreesUnder (expandWithin catalog room)
      target := by
  induction room generalizing target with
  | zero =>
      intro ctx _
      rw [expandWithin]
      exact .failing _
  | succ room inductionHypothesis =>
      intro ctx concerns
      rw [expandWithin]
      split
      · exact .failing _
      · obtain ⟨nodes, normalized⟩ := checked.normalized target known
        rw [Catalog.fullTreesUnder_eq checked.acyclic known]
        have entered : (ctx.pushCall target.name).Concerns subject options :=
          ⟨concerns.data, concerns.options⟩
        have roots := assessRoots_writes (normalize_resolved normalized)
          (fun label member next found => inductionHypothesis
            (Catalog.refersTo_of_subRule? member found).mem) entered
        exact roots.popCall

end Assessment

/-! ## Assessments by a checked catalog -/

section Checked

variable [Arith num] {catalog : Catalog num} {target : Interpretation num}
  {subject : PropertyData num} {options : AssessmentOptions}

/-- What the full trees of an interpretation come to. -/
def interpretationValue (catalog : Catalog num) (subject : PropertyData num)
    (options : AssessmentOptions) (target : Interpretation num) : NodeValue num :=
  NodeValue.together options.missingData
    ((catalog.fullTrees target).map (treeValue catalog subject options))

theorem assess_writes (checked : catalog.Checked) (known : target ∈ catalog.interpretations)
    (subject : PropertyData num) (options : AssessmentOptions) :
    Writes (.start subject options)
      (fullEntries catalog subject options (catalog.fullTrees target))
      (interpretationValue catalog subject options target).rating
      (assess catalog target.name target.roots (.start subject options)) := by
  have expands : ExpandsTo catalog subject options catalog.fullTreesUnder
      (expandWithin catalog options.maxDepth) target :=
    expandWithin_writes checked known
  rw [assess_eq_expandWithin]
  exact (expands (.start subject options) ⟨rfl, rfl⟩).map NodeValue.rating rfl

theorem rating?_fullEntries (trees : List (RuleTree num)) :
    (fullEntries catalog subject options trees).filterMap Entry.rating? =
      (Tree.subtreesAll trees).map fun tree =>
        (tree.label.key, (treeValue catalog subject options tree).rating) := by
  have ofRoot (tree : RuleTree num) :
      (rootEntries catalog subject options tree).filterMap Entry.rating? =
        [(tree.label.key, (treeValue catalog subject options tree).rating)] := by
    have leaf : (leafEntries catalog subject tree.label).filterMap Entry.rating? = [] := by
      simp [leafEntries, List.filterMap_map, Entry.rating?]
    rw [rootEntries, List.filterMap_append, leaf]
    rfl
  rw [fullEntries, List.filterMap_flatMap]
  simp only [ofRoot, List.map_eq_flatMap]

theorem value?_fullEntries (trees : List (RuleTree num)) :
    (fullEntries catalog subject options trees).filterMap Entry.value? =
      ((Tree.postorderAll trees).filterMap catalog.evaluationOf?).map fun evaluation =>
        (evaluation.propertyName, subject.valueOf catalog evaluation.propertyName) := by
  have ofRoot (tree : RuleTree num) :
      (rootEntries catalog subject options tree).filterMap Entry.value? =
        (catalog.evaluationOf? tree.label).toList.map fun evaluation =>
          (evaluation.propertyName, subject.valueOf catalog evaluation.propertyName) := by
    unfold rootEntries leafEntries
    cases catalog.evaluationOf? tree.label <;> rfl
  rw [fullEntries, List.filterMap_flatMap, ← Tree.map_label_subtreesAll]
  simp only [ofRoot, List.filterMap_eq_flatMap_toList, List.map_flatMap, List.flatMap_map]

variable {rating : Option num} {after : Context num}

/-- A successful assessment comes to what the full trees come to, and records all that they say,
where all evaluations have succeeded. -/
theorem assess_ok (checked : catalog.Checked) (known : target ∈ catalog.interpretations)
    (assessed : assess catalog target.name target.roots (.start subject options) =
      (.ok rating, after)) :
    rating = (interpretationValue catalog subject options target).rating ∧
      after = (Context.start subject options).write
        (fullEntries catalog subject options (catalog.fullTrees target)) ∧
      ∀ entry ∈ fullEntries catalog subject options (catalog.fullTrees target),
        entry.Succeeds options := by
  have writes := assess_writes checked known subject options
  rw [assessed] at writes
  cases writes with
  | all succeed => exact ⟨rfl, rfl, succeed⟩

/-- A successful assessment records the ratings of all nodes of the full trees, newest first. -/
theorem ratings_of_assess (checked : catalog.Checked) (known : target ∈ catalog.interpretations)
    (assessed : assess catalog target.name target.roots (.start subject options) =
      (.ok rating, after)) :
    after.ratings = ((Tree.subtreesAll (catalog.fullTrees target)).map fun tree =>
      (tree.label.key, (treeValue catalog subject options tree).rating)).reverse := by
  obtain ⟨_, rfl, _⟩ := assess_ok checked known assessed
  rw [← rating?_fullEntries]
  exact List.append_nil _

/-- The recorded ratings are those of the nodes of the full trees. -/
theorem mem_ratings_iff (checked : catalog.Checked) (known : target ∈ catalog.interpretations)
    (assessed : assess catalog target.name target.roots (.start subject options) =
      (.ok rating, after)) {key : String} {nodeRating : Option num} :
    (key, nodeRating) ∈ Journal.current after.ratings ↔
      ∃ tree ∈ Tree.subtreesAll (catalog.fullTrees target),
        tree.label.key = key ∧ (treeValue catalog subject options tree).rating = nodeRating := by
  have distinct : ((Tree.subtreesAll (catalog.fullTrees target)).map (·.label.key)).Nodup := by
    have keysEq : (Tree.subtreesAll (catalog.fullTrees target)).map (·.label.key) =
        (Tree.postorderAll (catalog.fullTrees target)).map Node.key := by
      rw [← Tree.map_label_subtreesAll, List.map_map]
      rfl
    rw [keysEq]
    exact ((Tree.postorderAll_perm_preorderAll _).map Node.key).nodup_iff.mpr
      (Catalog.fullKeys_nodup checked.normalized known _ _)
  rw [ratings_of_assess checked known assessed, Journal.mem_current_iff_of_unique]
  · simp only [List.mem_reverse, List.mem_map, Prod.mk.injEq]
  · intro first firstMember second secondMember sameKey
    rw [List.mem_reverse] at firstMember secondMember
    obtain ⟨firstTree, firstIn, rfl⟩ := List.mem_map.mp firstMember
    obtain ⟨secondTree, secondIn, rfl⟩ := List.mem_map.mp secondMember
    rw [List.inj_on_of_nodup_map distinct firstIn secondIn sameKey]

theorem mem_ratings_iff_of_mem (checked : catalog.Checked)
    (known : target ∈ catalog.interpretations)
    (assessed : assess catalog target.name target.roots (.start subject options) =
      (.ok rating, after))
    {tree : RuleTree num} (member : tree ∈ Tree.subtreesAll (catalog.fullTrees target))
    {nodeRating : Option num} :
    (tree.label.key, nodeRating) ∈ Journal.current after.ratings ↔
      (treeValue catalog subject options tree).rating = nodeRating := by
  have recorded : (tree.label.key, (treeValue catalog subject options tree).rating) ∈
      Journal.current after.ratings :=
    (mem_ratings_iff checked known assessed).mpr ⟨tree, member, rfl, rfl⟩
  constructor
  · intro other
    have same := (Journal.mem_current_iff.mp recorded).symm.trans (Journal.mem_current_iff.mp other)
    exact Option.some.inj same
  · rintro rfl
    exact recorded

/-- A successful assessment records at an evaluation what the evaluation makes of the value of the
subject. -/
theorem exists_rating_of_leaf (checked : catalog.Checked) (known : target ∈ catalog.interpretations)
    (assessed : assess catalog target.name target.roots (.start subject options) =
      (.ok rating, after))
    {leaf : RuleTree num} (member : leaf ∈ Tree.subtreesAll (catalog.fullTrees target))
    {evaluation : Evaluation num} (stands : catalog.evaluationOf? leaf.label = some evaluation) :
    ∃ leafRating, evaluation.membership options.clampSpline
        (subject.valueOf catalog evaluation.propertyName) = .ok leafRating ∧
      (leaf.label.key, leafRating) ∈ Journal.current after.ratings := by
  obtain ⟨_, _, succeed⟩ := assess_ok checked known assessed
  have used : .used evaluation (subject.valueOf catalog evaluation.propertyName) ∈
      fullEntries catalog subject options (catalog.fullTrees target) := by
    refine List.mem_flatMap.mpr ⟨leaf, member, List.mem_append_left _ ?_⟩
    simp only [leafEntries, stands, Option.toList_some, List.map_singleton, List.mem_singleton]
  obtain ⟨leafRating, rated⟩ := succeed _ used
  refine ⟨leafRating, rated, (mem_ratings_iff_of_mem checked known assessed member).mpr ?_⟩
  obtain ⟨label, children⟩ := leaf
  have stands : catalog.evaluationOf? label = some evaluation := stands
  obtain ⟨refId, isLeaf, _⟩ := Catalog.evaluationOf?_eq_some_iff.mp stands
  rw [treeValue_node, nodeValue, Node.refId?_eq_some_iff.mp isLeaf]
  dsimp only
  rw [stands]
  dsimp only
  rw [evaluationValue, rated]
  cases leafRating <;> rfl

private theorem mem_value?_fullEntries {entry : String × PropertyValue num} :
    entry ∈ (fullEntries catalog subject options (catalog.fullTrees target)).filterMap
        Entry.value? ↔
      ∃ evaluation ∈ catalog.evaluationsRead target,
        (evaluation.propertyName, subject.valueOf catalog evaluation.propertyName) = entry := by
  rw [value?_fullEntries, List.mem_map]
  unfold Catalog.evaluationsRead
  simp only [List.mem_filterMap, Tree.mem_postorderAll_iff]

/-- Only names by which an evaluation at a leaf calls its property are recorded, whatever comes of
the assessment. -/
theorem exists_evaluation_of_mem_values (checked : catalog.Checked)
    (known : target ∈ catalog.interpretations) {entry : String × PropertyValue num}
    (member : entry ∈
      (assess catalog target.name target.roots (.start subject options)).2.values) :
    ∃ evaluation ∈ catalog.evaluationsRead target, evaluation.propertyName = entry.1 := by
  have written (done : List (Entry num))
      (part : done <+: fullEntries catalog subject options (catalog.fullTrees target))
      (inDone : entry ∈ ((Context.start subject options).write done).values) :
      ∃ evaluation ∈ catalog.evaluationsRead target, evaluation.propertyName = entry.1 := by
    have inStart : entry ∈ (done.filterMap Entry.value?).reverse ++ [] := inDone
    rw [List.append_nil, List.mem_reverse] at inStart
    obtain ⟨evaluation, read, rfl⟩ :=
      mem_value?_fullEntries.mp ((part.filterMap Entry.value?).subset inStart)
    exact ⟨evaluation, read, rfl⟩
  have writes := assess_writes checked known subject options
  generalize assess catalog target.name target.roots (.start subject options) = outcome
    at member writes
  cases writes with
  | all => exact written _ (List.prefix_refl _) member
  | upTo error part => exact written _ part member

/-- A successful assessment records a value under every name by which an evaluation at a leaf
calls its property. -/
theorem mem_values_iff (checked : catalog.Checked) (known : target ∈ catalog.interpretations)
    (assessed : assess catalog target.name target.roots (.start subject options) =
      (.ok rating, after)) {entry : String × PropertyValue num} :
    entry ∈ Journal.current after.values ↔
      ∃ evaluation ∈ catalog.evaluationsRead target,
        (evaluation.propertyName, subject.valueOf catalog evaluation.propertyName) = entry := by
  obtain ⟨_, rfl, _⟩ := assess_ok checked known assessed
  have valuesEq : ((Context.start subject options).write
      (fullEntries catalog subject options (catalog.fullTrees target))).values =
        ((fullEntries catalog subject options (catalog.fullTrees target)).filterMap
          Entry.value?).reverse :=
    List.append_nil _
  rw [valuesEq, Journal.mem_current_iff_of_unique]
  · rw [List.mem_reverse]
    exact mem_value?_fullEntries
  · intro first firstMember second secondMember sameName
    rw [List.mem_reverse] at firstMember secondMember
    obtain ⟨early, _, rfl⟩ := mem_value?_fullEntries.mp firstMember
    obtain ⟨late, _, rfl⟩ := mem_value?_fullEntries.mp secondMember
    have namesEq : early.propertyName = late.propertyName := sameName
    rw [namesEq]

end Checked

end FuzzyRating
