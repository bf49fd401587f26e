import FuzzyRating.Proofs.Rule.Key
import Mathlib.Data.List.DropRight

/-!
What holds of every forest that a rule stands for. Each node has the key of its place and knows its
depth, and its kind goes with its depth and with the number of its children.
-/

namespace FuzzyRating

/-! ## Texts without blanks around them -/

namespace Text

theorem dropBlanksEnd_eq_rdropWhile (text : List Char) :
    dropBlanksEnd text = text.rdropWhile isBlank :=
  rfl

/-- What blanks are taken off the end of begins as before. -/
private theorem skipBlanks_dropBlanksEnd {text : List Char} (solid : skipBlanks text = text) :
    skipBlanks (dropBlanksEnd text) = dropBlanksEnd text := by
  rw [dropBlanksEnd_eq_rdropWhile]
  have isFront := text.rdropWhile_prefix isBlank
  cases kept : text.rdropWhile isBlank with
  | nil => rfl
  | cons first rest =>
      rw [kept] at isFront
      obtain ⟨dropped, rfl⟩ := isFront
      have notBlank := List.head_dropWhile_not isBlank (l := first :: rest ++ dropped)
      unfold skipBlanks at solid ⊢
      simp only [solid] at notBlank
      exact List.dropWhile_cons_of_neg (by simpa using notBlank)

theorem trim_trim (text : String) : trim (trim text) = trim text := by
  have solid : skipBlanks (skipBlanks text.toList) = skipBlanks text.toList :=
    List.dropWhile_idempotent _ _
  have ended := List.rdropWhile_idempotent isBlank (skipBlanks text.toList)
  unfold trim
  rw [String.toList_ofList, skipBlanks_dropBlanksEnd solid]
  exact congrArg String.ofList ended

end Text

/-! ## Well-formed forests -/

section

variable {num : Type} [Arith num]

/-- The key of a place: the child positions on the path to it, with points between them. -/
def pathKey (path : List Nat) : String :=
  ".".intercalate (path.map toString)

/-- A node of this kind may stand at this depth and have this number of children. -/
def NodeKind.Suits (depth count : Nat) : NodeKind num → Prop
  | .root => depth = 0 ∧ 1 ≤ count
  | .operator .times => count = 2
  | .operator _ => 1 ≤ count
  | .hedge change parameter =>
      count = 1 ∧ ∀ exponent ∈ parameter,
        change = .power ∧ Arith.isFinite exponent = true ∧ Arith.le Arith.zero exponent = true
  | .evaluation refId => count = 0 ∧ refId ≠ "" ∧ Text.trim refId = refId

/-- What the evaluation of a rule and the keys of its results rely on. -/
structure WellFormed (forest : List (RuleTree num)) : Prop where
  key : ∀ path tree, Tree.treeAt? forest path = some tree → tree.label.key = pathKey path
  depth : ∀ path tree, Tree.treeAt? forest path = some tree → tree.label.depth + 1 = path.length
  distinct : ((Tree.preorderAll forest).map Node.key).Nodup
  kind : ∀ tree ∈ Tree.subtreesAll forest,
    tree.label.kind.Suits tree.label.depth tree.children.length

/-! ## Kinds -/

omit [Arith num] in
theorem solid?_eq_some {text solid : String} (solidEq : solid? text = some solid) :
    solid ≠ "" ∧ Text.trim solid = solid := by
  unfold solid? at solidEq
  split at solidEq
  · cases solidEq
  · next notEmpty =>
      cases solidEq
      exact ⟨notEmpty, Text.trim_trim text⟩

omit [Arith num] in
theorem Label.reference?_eq_some {label : Label} {refId : String}
    (refers : label.reference? = some refId) :
    refId ≠ "" ∧ Text.trim refId = refId := by
  obtain ⟨text, _, solidEq⟩ := Option.bind_eq_some_iff.mp refers
  exact solid?_eq_some solidEq

theorem Label.parameter_eq_ok {label : Label} {parameter : Option num}
    (parameterEq : label.parameter = .ok parameter) :
    ∀ exponent ∈ parameter,
      Arith.isFinite exponent = true ∧ Arith.le Arith.zero exponent = true := by
  rintro exponent ⟨⟩
  unfold Label.parameter at parameterEq
  split at parameterEq
  · cases parameterEq
  · dsimp only at parameterEq
    split at parameterEq
    · cases parameterEq
    · split at parameterEq
      · next accepted =>
          cases parameterEq
          simpa using accepted
      · cases parameterEq

/-- What a kind is by itself, whatever its node has below it. -/
def NodeKind.IsSound (depth : Nat) : NodeKind num → Prop
  | .root => depth = 0
  | .operator _ => True
  | .hedge change parameter =>
      ∀ exponent ∈ parameter,
        change = .power ∧ Arith.isFinite exponent = true ∧ Arith.le Arith.zero exponent = true
  | .evaluation refId => refId ≠ "" ∧ Text.trim refId = refId

theorem Label.kindOf_isSound {label : Label} {keyword : Keyword} {kind : NodeKind num}
    (kindEq : label.kindOf keyword = .ok kind) (depth : Nat) :
    kind.IsSound depth := by
  cases keyword with
  | operator operator =>
      cases kindEq
      trivial
  | hedge hedge =>
      unfold Label.kindOf at kindEq
      dsimp only at kindEq
      split at kindEq
      · next takesParam =>
          obtain ⟨parameter, parameterEq, kindIs⟩ := bind_eq_ok_iff.mp kindEq
          cases kindIs
          intro exponent isExponent
          exact ⟨of_decide_eq_true takesParam,
            label.parameter_eq_ok parameterEq exponent isExponent⟩
      · cases kindEq
        rintro exponent ⟨⟩
  | evaluation =>
      unfold Label.kindOf at kindEq
      dsimp only at kindEq
      split at kindEq
      · next refId refers =>
          cases kindEq
          exact label.reference?_eq_some refers
      · cases kindEq

theorem Label.resolve_isSound {label : Label} {depth : Nat} {kind : NodeKind num}
    (kindEq : label.resolve depth = .ok kind) :
    kind.IsSound depth := by
  unfold Label.resolve at kindEq
  split at kindEq
  · split at kindEq
    · exact label.kindOf_isSound kindEq depth
    · cases kindEq
  · split at kindEq
    · next refId _ refers =>
        cases kindEq
        exact label.reference?_eq_some refers
    · exact label.kindOf_isSound kindEq depth
    · exact label.kindOf_isSound kindEq depth
    · split at kindEq
      · next isTop =>
          cases kindEq
          exact isTop
      · cases kindEq

theorem NodeKind.IsSound.suits {kind : NodeKind num} {depth count : Nat}
    (sound : kind.IsSound depth) (admitted : kind.arity.admits count = true) :
    kind.Suits depth count := by
  cases kind with
  | root => exact ⟨sound, of_decide_eq_true admitted⟩
  | operator operator =>
      cases operator <;> simpa [Suits, arity, Operator.fixedArity, Arity.admits] using admitted
  | hedge hedge parameter => exact ⟨beq_iff_eq.mp admitted, sound⟩
  | evaluation refId => exact ⟨beq_iff_eq.mp admitted, sound⟩

/-! ## Nodes at their places -/

/-- What stands in front of the last position in the key of a child. -/
def keyFront : Option String → String
  | none => ""
  | some key => key ++ "."

omit [Arith num] in
private theorem childKey_eq (parent : Option String) (index : Nat) :
    childKey parent index = keyFront parent ++ toString index := by
  cases parent with
  | none => exact String.empty_append.symm
  | some key => rfl

private theorem resolved_node {placed : Tree Label} {key : String} {depth : Nat}
    {tree : RuleTree num} (resolvedEq : resolveTree key depth placed = .ok tree) :
    tree.label.key = key ∧ tree.label.depth = depth ∧
      tree.label.kind.Suits depth tree.children.length ∧
      ∃ children, resolveForest (some key) (depth + 1) 0 children = .ok tree.children := by
  obtain ⟨label, children⟩ := placed
  obtain ⟨below, kind, belowEq, kindEq, admitted, rfl⟩ := resolveTree_eq_ok resolvedEq
  exact ⟨rfl, rfl, (label.resolve_isSound kindEq).suits admitted, children, belowEq⟩

/-- The node that a path leads to, below a parent whose children stand at this depth. -/
private theorem node_of_treeAt? {path : List Nat} {parent : Option String} {depth : Nat}
    {placed : List (Tree Label)} {forest : List (RuleTree num)} {tree : RuleTree num}
    (resolvedEq : resolveForest parent depth 0 placed = .ok forest)
    (leads : Tree.treeAt? forest path = some tree) :
    tree.label.key = keyFront parent ++ pathKey path ∧
      tree.label.depth + 1 = depth + path.length ∧
      tree.label.kind.Suits tree.label.depth tree.children.length := by
  induction path generalizing parent depth placed forest with
  | nil => cases forest <;> cases leads
  | cons index path inductionHypothesis =>
      cases path with
      | nil =>
          obtain ⟨own, _, ownEq⟩ := resolveForest_eq_ok resolvedEq leads
          obtain ⟨keyEq, depthEq, suits, _⟩ := resolved_node ownEq
          refine ⟨?_, by rw [depthEq]; rfl, depthEq ▸ suits⟩
          rw [keyEq, Nat.zero_add, childKey_eq]
          simp [pathKey]
      | cons next path =>
          rw [Tree.treeAt?] at leads
          obtain ⟨above, aboveEq, leadsOn⟩ := Option.bind_eq_some_iff.mp leads
          obtain ⟨own, _, ownEq⟩ := resolveForest_eq_ok resolvedEq aboveEq
          obtain ⟨_, _, _, children, childrenEq⟩ := resolved_node ownEq
          obtain ⟨keyEq, depthEq, suits⟩ := inductionHypothesis childrenEq leadsOn
          refine ⟨?_, ?_, suits⟩
          · rw [keyEq, Nat.zero_add, keyFront, childKey_eq]
            simp [pathKey, String.append_assoc]
          · rw [depthEq]
            simp only [List.length_cons]
            omega

/-- Every node of a rule is of a kind that goes with its place and its children. -/
theorem normalize_suits {nodes : List RuleNode} {forest : List (RuleTree num)}
    (normalized : normalize nodes = .ok forest) :
    ∀ tree ∈ Tree.subtreesAll forest,
      tree.label.kind.Suits tree.label.depth tree.children.length := by
  intro tree member
  obtain ⟨placed, _, resolvedEq⟩ := normalize_eq_ok normalized
  obtain ⟨path, leads⟩ := Tree.exists_treeAt?_eq_some member
  exact (node_of_treeAt? resolvedEq leads).2.2

/-- The exponents in a rule are finite and not negative. -/
theorem normalize_exponents {nodes : List RuleNode} {forest : List (RuleTree num)}
    (normalized : normalize nodes = .ok forest) {label : Node num}
    (member : label ∈ Tree.preorderAll forest) {hedge : Hedge} {parameter : Option num}
    (kind : label.kind = .hedge hedge parameter) :
    ∀ exponent ∈ parameter,
      Arith.isFinite exponent = true ∧ Arith.le Arith.zero exponent = true := by
  obtain ⟨tree, treeMember, rfl⟩ := Tree.exists_mem_subtreesAll member
  have suits := normalize_suits normalized tree treeMember
  rw [kind] at suits
  exact fun exponent isExponent => (suits.2 exponent isExponent).2

/-- Every forest that a rule stands for is well formed. -/
theorem normalize_wellFormed {nodes : List RuleNode} {forest : List (RuleTree num)}
    (normalized : normalize nodes = .ok forest) :
    WellFormed forest := by
  obtain ⟨placed, _, resolvedEq⟩ := normalize_eq_ok normalized
  have place {path : List Nat} {tree : RuleTree num}
      (leads : Tree.treeAt? forest path = some tree) :=
    node_of_treeAt? resolvedEq leads
  constructor
  · intro path tree leads
    rw [(place leads).1]
    exact String.empty_append
  · intro path tree leads
    rw [(place leads).2.1, Nat.zero_add]
  · exact keys_nodup (normalize_resolved normalized)
  · exact normalize_suits normalized

end

/-- A slope that counts twice, and a soil that it lists, weigh on a site. -/
def weighedSite : List RuleNode :=
  [.node "Site" none none none [],
   .node "  times" none none none [.node "Soil" none none (some " Clay ") []],
   .node "    Twice" (some "power") (some "2") none [],
   .node "      Slope" none none (some "Steep") []]

theorem normalize_wellFormed_weighedSite :
    ∃ forest : List (RuleTree Float), normalize weighedSite = .ok forest ∧ WellFormed forest ∧
      (Tree.preorderAll forest).map Node.key = ["0", "0.0", "0.0.0", "0.0.1", "0.0.1.0"] := by
  have keys : (normalize weighedSite : Except RuleError (List (RuleTree Float))).toOption.map
      (fun forest => (Tree.preorderAll forest).map Node.key) =
        some ["0", "0.0", "0.0.0", "0.0.1", "0.0.1.0"] := by
    decide +kernel
  obtain ⟨forest, forestEq, keysEq⟩ := Option.map_eq_some_iff.mp keys
  have normalized := eq_ok_of_toOption forestEq
  exact ⟨forest, normalized, normalize_wellFormed normalized, keysEq⟩

end FuzzyRating
