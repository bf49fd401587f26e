import FuzzyRating.Catalog.Json
import FuzzyRating.Proofs.Json.Reread

/-!
Catalogs that were read and are written again.
-/

namespace FuzzyRating

open Json (Field Record Rereads Stable StableList StableNumber Value Yields)

variable {depth : Nat}

/-! ## Properties -/

def Property.numbers (property : Property Float) : List Float :=
  property.min.toList ++ property.max.toList

theorem Property.names_distinct : (Property.record.fields.map (·.name)).Nodup := by
  decide

theorem Property.stable {property : Property Float} (room : 1 < depth)
    (min : ∀ x, property.min = some x → StableNumber (depth - 1) x)
    (max : ∀ x, property.max = some x → StableNumber (depth - 1) x) :
    Stable Property.record.reader Property.toJson Property.numbers depth property := by
  intro readsBack
  apply Record.written room
    (.append (.append (.append (.append ?names ?unit) ?min) ?max) ?others) ?finish
  case names =>
    apply Record.TakesAll.cons ?id (.single ?name)
    case id => exact Record.takesText names_distinct 0 rfl rfl
    case name => exact Record.takesText names_distinct 1 rfl rfl
  case unit =>
    exact Record.takesAll_optionalText names_distinct 2
      (fun x d => { d with unitOfMeasure := x }) rfl rfl rfl
  case min =>
    apply Record.takesAll_optional names_distinct 3 (fun x d => { d with min := x }) rfl rfl rfl
    intro x minEq
    apply (min x minEq).written readsBack
    simp [numbers, minEq]
  case max =>
    apply Record.takesAll_optional names_distinct 4 (fun x d => { d with max := x }) rfl rfl rfl
    intro x maxEq
    apply (max x maxEq).written readsBack
    simp [numbers, maxEq]
  case others =>
    apply Record.TakesAll.cons ?modifier (.single ?isCategorical)
    case modifier => exact Record.takesText names_distinct 5 rfl rfl
    case isCategorical =>
      exact Record.takes names_distinct 6 rfl rfl (Json.boolReader_written _ _).readsAs
  case finish =>
    -- What was left out of the text is still absent in the last draft.
    change Property.record.finish ⟨some property.id, some property.name,
      property.unitOfMeasure.map some, property.min.map some, property.max.map some,
      some property.modifier, some property.isCategorical⟩ = _
    simp only [Property.record, Json.required, Record.join_map_some]
    rfl

/-- The numbers in the draft are those of stable values. -/
structure PropertyDraft.Stable (depth : Nat) (draft : PropertyDraft) : Prop where
  min : ∀ x, draft.min.join = some x → StableNumber depth x
  max : ∀ x, draft.max.join = some x → StableNumber depth x

theorem PropertyDraft.stable_kept :
    ∀ field ∈ Property.record.fields, field.Keeps depth (PropertyDraft.Stable depth) := by
  simp only [Property.record, List.forall_mem_cons]
  refine ⟨?_, ?_, ?_, ?min, ?max, ?_, ?_, List.forall_mem_nil _⟩
  case min =>
    exact Field.of_keeps (Json.floatReader_rereads _).option fun _ _ stable holds =>
      { holds with min := stable }
  case max =>
    exact Field.of_keeps (Json.floatReader_rereads _).option fun _ _ stable holds =>
      { holds with max := stable }
  all_goals exact Field.of_keeps (Yields.any _ _) fun _ _ _ holds => { holds with }

theorem Property.rereads (depth : Nat) :
    Rereads Property.record.reader Property.toJson Property.numbers depth := by
  intro text property rest result
  have start : PropertyDraft.Stable (depth - 1) Property.record.empty :=
    ⟨nofun, nofun⟩
  obtain ⟨room, draft, holds, finishEq⟩ :=
    Record.yields start PropertyDraft.stable_kept text property rest result
  obtain ⟨id, _, finishEq⟩ := bind_eq_ok_iff.mp finishEq
  obtain ⟨name, _, finishEq⟩ := bind_eq_ok_iff.mp finishEq
  cases finishEq
  exact Property.stable room holds.min holds.max

/-! ## Evaluations -/

def Point.numbers (point : Point Float) : List Float :=
  [point.x, point.y]

theorem Point.names_distinct : (Point.record.fields.map (·.name)).Nodup := by
  decide

theorem Point.stable {point : Point Float} (room : 1 < depth) (x : StableNumber (depth - 1) point.x)
    (y : StableNumber (depth - 1) point.y) :
    Stable Point.record.reader Point.toJson Point.numbers depth point := by
  intro readsBack
  apply Record.written room (.cons ?x (.single ?y)) ?finish
  case x =>
    have written := x.written readsBack (by simp [numbers])
    exact Record.takes names_distinct 0 rfl rfl written.readsAs
  case y =>
    have written := y.written readsBack (by simp [numbers])
    exact Record.takes names_distinct 1 rfl rfl written.readsAs
  case finish => rfl

structure PointDraft.Stable (depth : Nat) (draft : PointDraft) : Prop where
  x : ∀ x, draft.x = some x → StableNumber depth x
  y : ∀ y, draft.y = some y → StableNumber depth y

theorem PointDraft.stable_kept :
    ∀ field ∈ Point.record.fields, field.Keeps depth (PointDraft.Stable depth) := by
  simp only [Point.record, List.forall_mem_cons]
  refine ⟨?x, ?y, List.forall_mem_nil _⟩
  case x =>
    exact Field.of_keeps (Json.floatReader_rereads _) fun x _ stable holds =>
      { holds with x := Json.forall_eq_some stable }
  case y =>
    exact Field.of_keeps (Json.floatReader_rereads _) fun y _ stable holds =>
      { holds with y := Json.forall_eq_some stable }

theorem Point.rereads (depth : Nat) :
    Rereads Point.record.reader Point.toJson Point.numbers depth := by
  intro text point rest result
  have start : PointDraft.Stable (depth - 1) Point.record.empty := ⟨nofun, nofun⟩
  obtain ⟨room, draft, holds, finishEq⟩ :=
    Record.yields start PointDraft.stable_kept text point rest result
  obtain ⟨x, xEq, finishEq⟩ := bind_eq_ok_iff.mp finishEq
  obtain ⟨y, yEq, finishEq⟩ := bind_eq_ok_iff.mp finishEq
  cases finishEq
  exact Point.stable room (holds.x x (Json.eq_some_of_required xEq))
    (holds.y y (Json.eq_some_of_required yEq))

def EvaluationDefinition.numbers (definition : EvaluationDefinition Float) : List Float :=
  (definition.points.getD []).flatMap Point.numbers ++ definition.domain.getD []

abbrev StablePoints (depth : Nat) (points : List (Point Float)) : Prop :=
  StableList Point.record.reader Point.toJson Point.numbers depth points

abbrev StableDomain (depth : Nat) (domain : List Float) : Prop :=
  StableList Json.floatReader .number (fun x => [x]) depth domain

theorem Interpolation.lookup_name (method : Interpolation) :
    Interpolation.variants.lookup method.name = some method := by
  cases method <;> decide

theorem EvaluationDefinition.names_distinct :
    (EvaluationDefinition.record.fields.map (·.name)).Nodup := by
  decide

theorem EvaluationDefinition.stable {definition : EvaluationDefinition Float} (room : 1 < depth)
    (points : ∀ points, definition.points = some points → StablePoints (depth - 1) points)
    (domain : ∀ domain, definition.domain = some domain → StableDomain (depth - 1) domain) :
    Stable EvaluationDefinition.record.reader EvaluationDefinition.toJson
      EvaluationDefinition.numbers depth definition := by
  intro readsBack
  apply Record.written room
    (.append (.append (.append (.append ?scalars ?points) ?domain) ?interpolation) ?crisp) ?finish
  case scalars =>
    apply Record.TakesAll.cons ?id (.cons ?name (.cons ?propertyName (.cons ?kind (.single ?invert))))
    case id => exact Record.takesText names_distinct 0 rfl rfl
    case name => exact Record.takesText names_distinct 1 rfl rfl
    case propertyName => exact Record.takesText names_distinct 2 rfl rfl
    case kind => exact Record.takesText names_distinct 3 rfl rfl
    case invert => exact Record.takes names_distinct 4 rfl rfl (Json.boolReader_written _ _).readsAs
  case points =>
    apply Record.takesAll_optional names_distinct 5 (fun x d => { d with points := x }) rfl rfl rfl
    intro listed listedEq
    apply (points listed listedEq).written readsBack
    simp [numbers, listedEq]
  case domain =>
    apply Record.takesAll_optional names_distinct 6 (fun x d => { d with domain := x }) rfl rfl rfl
    intro listed listedEq
    apply (domain listed listedEq).written readsBack
    simp [numbers, listedEq]
  case interpolation =>
    exact Record.takesAll_optional names_distinct 7 (fun x d => { d with interpolation := x })
      rfl rfl rfl fun method _ => Json.variantReader_written method.lookup_name _
  case crisp =>
    exact Record.takesAll_optionalText names_distinct 8
      (fun x d => { d with crispExpression := x }) rfl rfl rfl
  case finish =>
    change EvaluationDefinition.record.finish ⟨some definition.id, some definition.name,
      some definition.propertyName, some definition.kind, some definition.invert,
      definition.points.map some, definition.domain.map some, definition.interpolation.map some,
      definition.crispExpression.map some⟩ = _
    simp only [EvaluationDefinition.record, Json.required, Record.join_map_some]
    rfl

structure DefinitionDraft.Stable (depth : Nat) (draft : DefinitionDraft) : Prop where
  points : ∀ points, draft.points.join = some points → StablePoints depth points
  domain : ∀ domain, draft.domain.join = some domain → StableDomain depth domain

theorem DefinitionDraft.stable_kept :
    ∀ field ∈ EvaluationDefinition.record.fields,
      field.Keeps depth (DefinitionDraft.Stable depth) := by
  simp only [EvaluationDefinition.record, List.forall_mem_cons]
  refine ⟨?_, ?_, ?_, ?_, ?_, ?points, ?domain, ?_, ?_, List.forall_mem_nil _⟩
  case points =>
    exact Field.of_keeps (Point.rereads _).list.option fun _ _ stable holds =>
      { holds with points := stable }
  case domain =>
    exact Field.of_keeps (Json.floatReader_rereads _).list.option fun _ _ stable holds =>
      { holds with domain := stable }
  all_goals exact Field.of_keeps (Yields.any _ _) fun _ _ _ holds => { holds with }

theorem EvaluationDefinition.rereads (depth : Nat) :
    Rereads EvaluationDefinition.record.reader EvaluationDefinition.toJson
      EvaluationDefinition.numbers depth := by
  intro text definition rest result
  have start : DefinitionDraft.Stable (depth - 1) EvaluationDefinition.record.empty :=
    ⟨nofun, nofun⟩
  obtain ⟨room, draft, holds, finishEq⟩ :=
    Record.yields start DefinitionDraft.stable_kept text definition rest result
  obtain ⟨id, _, finishEq⟩ := bind_eq_ok_iff.mp finishEq
  obtain ⟨name, _, finishEq⟩ := bind_eq_ok_iff.mp finishEq
  obtain ⟨propertyName, _, finishEq⟩ := bind_eq_ok_iff.mp finishEq
  cases finishEq
  exact EvaluationDefinition.stable room holds.points holds.domain

/-! ## Rules -/

section

variable {children : Json.Reader (List RuleNode)}

theorem RuleNode.names_distinct :
    ((RuleNode.record children).fields.map (·.name)).Nodup := by
  change ["levelName", "nodeKind", "value", "refId", "children"].Nodup
  decide

theorem RuleNode.listToJson_eq_map (nodes : List RuleNode) :
    RuleNode.listToJson nodes = nodes.map RuleNode.toJson := by
  induction nodes with
  | nil => rfl
  | cons first nodes inductionHypothesis =>
      rw [RuleNode.listToJson, inductionHypothesis, List.map_cons]

/-- A node holds no numbers. -/
def RuleNode.numbers (_ : RuleNode) : List Float :=
  []

abbrev RuleNode.StableList (levels depth : Nat) (nodes : List RuleNode) : Prop :=
  Json.StableList (RuleNode.readerWithin levels) RuleNode.toJson RuleNode.numbers depth nodes

theorem RuleNode.StableList.written {levels : Nat} {nodes : List RuleNode}
    (stable : RuleNode.StableList levels depth nodes) :
    Json.Written (Json.listReader (RuleNode.readerWithin levels)) depth
      (.array (RuleNode.listToJson nodes)) nodes := by
  rw [RuleNode.listToJson_eq_map]
  apply stable
  simp [RuleNode.numbers]

/-- Children are left out when there are none. -/
def RuleNode.childrenMember (children : List RuleNode) : List (String × Value) :=
  if children = [] then [] else [("children", .array (RuleNode.listToJson children))]

theorem RuleNode.toJson_node (levelName : String) (nodeKind value refId : Option String)
    (children : List RuleNode) :
    RuleNode.toJson (.node levelName nodeKind value refId children) =
      .object ([("levelName", .text levelName)] ++ Value.optionalMember "nodeKind" .text nodeKind ++
        Value.optionalMember "value" .text value ++ Value.optionalMember "refId" .text refId ++
        RuleNode.childrenMember children) := by
  cases children with
  | nil => rfl
  | cons first children =>
      rw [RuleNode.toJson, RuleNode.childrenMember]
      rfl

theorem RuleNode.takesAll_children {levels : Nat} {children : List RuleNode}
    {current : RuleNodeDraft} (unset : current.children = none)
    (stable : children = [] ∨ RuleNode.StableList levels depth children) :
    (RuleNode.record (Json.listReader (RuleNode.readerWithin levels))).TakesAll depth
      (RuleNode.childrenMember children) current
      { current with children := if children = [] then none else some children } := by
  unfold childrenMember
  by_cases empty : children = []
  · rw [if_pos empty, if_pos empty, ← unset]
    exact .nil current
  · rw [if_neg empty, if_neg empty]
    have written := (stable.resolve_left empty).written
    exact .single (Record.takes names_distinct 4 rfl unset written.readsAs)

theorem RuleNode.stable {levels : Nat} {levelName : String} {nodeKind value refId : Option String}
    {children : List RuleNode} (room : 1 < depth)
    (stable : children = [] ∨ RuleNode.StableList levels (depth - 1) children) :
    Stable (RuleNode.readerWithin (levels + 1)) RuleNode.toJson RuleNode.numbers depth
      (.node levelName nodeKind value refId children) := by
  intro _
  rw [RuleNode.toJson_node, RuleNode.readerWithin]
  apply Record.written room
    (.append (.append (.append (.append ?level ?kind) ?text) ?reference) ?inner) ?finish
  case level =>
    exact .single (Record.takesText names_distinct 0 rfl rfl)
  case kind =>
    exact Record.takesAll_optionalText names_distinct 1
      (fun x d => { d with nodeKind := x }) rfl rfl rfl
  case text =>
    exact Record.takesAll_optionalText names_distinct 2
      (fun x d => { d with value := x }) rfl rfl rfl
  case reference =>
    exact Record.takesAll_optionalText names_distinct 3
      (fun x d => { d with refId := x }) rfl rfl rfl
  case inner => exact RuleNode.takesAll_children rfl stable
  case finish =>
    have childrenEq : (if children = [] then none else some children).getD [] = children := by
      split
      · next empty => exact empty.symm
      · rfl
    change (RuleNode.record _).finish ⟨some levelName, nodeKind.map some, value.map some,
      refId.map some, if children = [] then none else some children⟩ = _
    simp only [RuleNode.record, Json.required, Record.join_map_some, childrenEq]
    rfl

structure RuleNodeDraft.Stable (levels depth : Nat) (draft : RuleNodeDraft) : Prop where
  children : ∀ children, draft.children = some children →
    RuleNode.StableList levels depth children

theorem RuleNodeDraft.stable_kept {levels : Nat}
    (rereads : Yields (Json.listReader (RuleNode.readerWithin levels)) depth
      (RuleNode.StableList levels depth)) :
    ∀ field ∈ (RuleNode.record (Json.listReader (RuleNode.readerWithin levels))).fields,
      field.Keeps depth (RuleNodeDraft.Stable levels depth) := by
  simp only [RuleNode.record, List.forall_mem_cons]
  refine ⟨?_, ?_, ?_, ?_, ?children, List.forall_mem_nil _⟩
  case children =>
    exact Field.of_keeps rereads fun children _ stable _ =>
      ⟨Json.forall_eq_some stable⟩
  all_goals exact Field.of_keeps (Yields.any _ _) fun _ _ _ holds => { holds with }

theorem RuleNode.rereads (levels depth : Nat) :
    Rereads (RuleNode.readerWithin levels) RuleNode.toJson RuleNode.numbers depth := by
  induction levels generalizing depth with
  | zero =>
      intro text node rest impossible
      cases impossible
  | succ levels inductionHypothesis =>
      intro text node rest result
      have start : RuleNodeDraft.Stable levels (depth - 1)
          (RuleNode.record (Json.listReader (RuleNode.readerWithin levels))).empty := ⟨nofun⟩
      -- The list of the children and each of them take a level of their own.
      have kept := RuleNodeDraft.stable_kept (inductionHypothesis (depth - 1 - 1)).list
      obtain ⟨room, draft, holds, finishEq⟩ := Record.yields start kept text node rest result
      obtain ⟨levelName, _, finishEq⟩ := bind_eq_ok_iff.mp finishEq
      cases finishEq
      apply RuleNode.stable room
      cases given : draft.children with
      | none => exact .inl rfl
      | some children => exact .inr (holds.children children given)

end

def RuleDefinition.numbers (_ : RuleDefinition) : List Float :=
  []

theorem RuleDefinition.names_distinct : (RuleDefinition.record.fields.map (·.name)).Nodup := by
  decide

theorem RuleDefinition.stable {rule : RuleDefinition} (room : 1 < depth)
    (nodes : RuleNode.StableList Json.startDepth (depth - 1) rule.nodes) :
    Stable RuleDefinition.record.reader RuleDefinition.toJson RuleDefinition.numbers depth rule := by
  intro _
  apply Record.written room (.cons ?id (.cons ?name (.single ?nodes))) ?finish
  case id => exact Record.takesText names_distinct 0 rfl rfl
  case name => exact Record.takesText names_distinct 1 rfl rfl
  case nodes => exact Record.takes names_distinct 2 rfl rfl nodes.written.readsAs
  case finish => rfl

structure RuleDraft.Stable (depth : Nat) (draft : RuleDraft) : Prop where
  nodes : ∀ nodes, draft.nodes = some nodes → RuleNode.StableList Json.startDepth depth nodes

theorem RuleDraft.stable_kept :
    ∀ field ∈ RuleDefinition.record.fields, field.Keeps depth (RuleDraft.Stable depth) := by
  simp only [RuleDefinition.record, List.forall_mem_cons]
  refine ⟨?_, ?_, ?nodes, List.forall_mem_nil _⟩
  case nodes =>
    exact Field.of_keeps (RuleNode.rereads _ _).list fun nodes _ stable _ =>
      ⟨Json.forall_eq_some stable⟩
  all_goals exact Field.of_keeps (Yields.any _ _) fun _ _ _ holds => { holds with }

/-- A rule without nodes is written with an empty list of them, which takes one level more. -/
theorem RuleDefinition.rereads (room : 2 < depth) :
    Rereads RuleDefinition.record.reader RuleDefinition.toJson RuleDefinition.numbers depth := by
  intro text rule rest result
  have start : RuleDraft.Stable (depth - 1) RuleDefinition.record.empty := ⟨nofun⟩
  obtain ⟨_, draft, holds, finishEq⟩ :=
    Record.yields start RuleDraft.stable_kept text rule rest result
  obtain ⟨id, _, finishEq⟩ := bind_eq_ok_iff.mp finishEq
  obtain ⟨name, _, finishEq⟩ := bind_eq_ok_iff.mp finishEq
  cases finishEq
  exact RuleDefinition.stable (Nat.lt_of_succ_lt room)
    (Stable.list_getD (Nat.lt_sub_of_add_lt room) holds.nodes)

/-! ## Catalogs -/

def CatalogData.numbers (data : CatalogData Float) : List Float :=
  data.properties.flatMap Property.numbers ++
    data.evaluations.flatMap EvaluationDefinition.numbers

abbrev StableProperties (depth : Nat) (properties : List (Property Float)) : Prop :=
  StableList Property.record.reader Property.toJson Property.numbers depth properties

abbrev StableEvaluations (depth : Nat) (evaluations : List (EvaluationDefinition Float)) : Prop :=
  StableList EvaluationDefinition.record.reader EvaluationDefinition.toJson
    EvaluationDefinition.numbers depth evaluations

abbrev StableRules (depth : Nat) (rules : List RuleDefinition) : Prop :=
  StableList RuleDefinition.record.reader RuleDefinition.toJson RuleDefinition.numbers depth rules

theorem CatalogData.names_distinct : (CatalogData.record.fields.map (·.name)).Nodup := by
  decide

theorem CatalogData.stable {data : CatalogData Float} (room : 1 < depth)
    (properties : StableProperties (depth - 1) data.properties)
    (evaluations : StableEvaluations (depth - 1) data.evaluations)
    (rules : StableRules (depth - 1) data.rules) :
    Stable CatalogData.record.reader CatalogData.toJson CatalogData.numbers depth data := by
  intro readsBack
  apply Record.written room (.cons ?properties (.cons ?evaluations (.single ?rules))) ?finish
  case properties =>
    have written := properties.written readsBack (List.subset_append_left _ _)
    exact Record.takes names_distinct 0 rfl rfl written.readsAs
  case evaluations =>
    have written := evaluations.written readsBack (List.subset_append_right _ _)
    exact Record.takes names_distinct 1 rfl rfl written.readsAs
  case rules =>
    have noNumbers : data.rules.flatMap RuleDefinition.numbers = [] :=
      List.flatMap_eq_nil_iff.mpr fun _ _ => rfl
    have written := rules.written readsBack (noNumbers ▸ List.nil_subset _)
    exact Record.takes names_distinct 2 rfl rfl written.readsAs
  case finish => rfl

structure CatalogDraft.Stable (depth : Nat) (draft : CatalogDraft) : Prop where
  properties : ∀ properties, draft.properties = some properties → StableProperties depth properties
  evaluations : ∀ evaluations, draft.evaluations = some evaluations →
    StableEvaluations depth evaluations
  rules : ∀ rules, draft.rules = some rules → StableRules depth rules

theorem CatalogDraft.stable_kept (room : 3 < depth) :
    ∀ field ∈ CatalogData.record.fields, field.Keeps depth (CatalogDraft.Stable depth) := by
  simp only [CatalogData.record, List.forall_mem_cons]
  refine ⟨?properties, ?evaluations, ?rules, List.forall_mem_nil _⟩
  case properties =>
    exact Field.of_keeps (Property.rereads _).list fun _ _ stable holds =>
      { holds with properties := Json.forall_eq_some stable }
  case evaluations =>
    exact Field.of_keeps (EvaluationDefinition.rereads _).list fun _ _ stable holds =>
      { holds with evaluations := Json.forall_eq_some stable }
  case rules =>
    have inner : 2 < depth - 1 := Nat.lt_sub_of_add_lt room
    have rereads := RuleDefinition.rereads inner
    exact Field.of_keeps rereads.list fun _ _ stable holds =>
      { holds with rules := Json.forall_eq_some stable }

theorem CatalogData.rereads (room : 4 < depth) :
    Rereads CatalogData.record.reader CatalogData.toJson CatalogData.numbers depth := by
  intro text data rest result
  have start : CatalogDraft.Stable (depth - 1) CatalogData.record.empty := ⟨nofun, nofun, nofun⟩
  have inner : 1 < depth - 1 := by omega
  obtain ⟨outer, draft, holds, finishEq⟩ :=
    Record.yields start (CatalogDraft.stable_kept (Nat.lt_sub_of_add_lt room)) text data rest result
  cases finishEq
  exact CatalogData.stable outer (Stable.list_getD inner holds.properties)
    (Stable.list_getD inner holds.evaluations) (Stable.list_getD inner holds.rules)

end FuzzyRating
