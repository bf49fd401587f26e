import FuzzyRating.Proofs.Except
import FuzzyRating.Proofs.Tree
import FuzzyRating.Rule.Resolve

/-!
The shape of resolved rules: every node has as many children as its kind takes, and the key of its
place.
-/

namespace FuzzyRating

variable {num : Type}

/-- A tree at the place `key`, all of whose nodes have as many children as their kinds take and the
keys of their places. -/
inductive ResolvedAt : String → RuleTree num → Prop
  | node {label : Node num} {children : List (RuleTree num)}
      (admitted : label.kind.arity.admits children.length = true)
      (below : ∀ (index : Nat) (child : RuleTree num), children[index]? = some child →
        ResolvedAt (childKey (some label.key) index) child) :
      ResolvedAt label.key (.node label children)

/-- Trees at consecutive places below a parent, or at the top. -/
def ResolvedBelow (parent : Option String) (trees : List (RuleTree num)) : Prop :=
  ∀ (index : Nat) (tree : RuleTree num), trees[index]? = some tree →
    ResolvedAt (childKey parent index) tree

theorem ResolvedBelow.of_mem {parent : Option String} {trees : List (RuleTree num)}
    {tree : RuleTree num} (resolved : ResolvedBelow parent trees) (member : tree ∈ trees) :
    ∃ key, ResolvedAt key tree := by
  obtain ⟨index, treeEq⟩ := List.getElem?_of_mem member
  exact ⟨childKey parent index, resolved index tree treeEq⟩

theorem resolvedAt_node_iff {key : String} {label : Node num} {children : List (RuleTree num)} :
    ResolvedAt key (.node label children) ↔
      label.key = key ∧ label.kind.arity.admits children.length = true ∧
        ResolvedBelow (some label.key) children := by
  constructor
  · intro resolved
    cases resolved with
    | node admitted below => exact ⟨rfl, admitted, below⟩
  · rintro ⟨rfl, admitted, below⟩
    exact ResolvedAt.node admitted below

variable [Arith num]

/-! ## Steps of resolving -/

theorem resolveTree_eq_ok {key : String} {depth : Nat} {label : Label}
    {children : List (Tree Label)} {resolved : RuleTree num}
    (resolvedEq : resolveTree key depth (.node label children) = .ok resolved) :
    ∃ below kind, resolveForest (some key) (depth + 1) 0 children = .ok below ∧
      label.resolve depth = .ok kind ∧ kind.arity.admits below.length = true ∧
      resolved = .node ⟨label.name, key, depth, kind⟩ below := by
  rw [resolveTree] at resolvedEq
  obtain ⟨below, belowEq, kindStep⟩ := bind_eq_ok_iff.mp resolvedEq
  obtain ⟨kind, kindEq, arityStep⟩ := bind_eq_ok_iff.mp kindStep
  split at arityStep
  · next admitted =>
      cases arityStep
      exact ⟨below, kind, belowEq, kindEq, admitted, rfl⟩
  · cases arityStep

theorem resolveForest_eq_ok {trees : List (Tree Label)} {parent : Option String}
    {depth first : Nat} {resolved : List (RuleTree num)}
    (resolvedEq : resolveForest parent depth first trees = .ok resolved)
    {index : Nat} {tree : RuleTree num} (treeEq : resolved[index]? = some tree) :
    ∃ placed ∈ trees, resolveTree (childKey parent (first + index)) depth placed = .ok tree := by
  induction trees generalizing first resolved index with
  | nil =>
      rw [resolveForest] at resolvedEq
      cases resolvedEq
      simp at treeEq
  | cons head rest inductionHypothesis =>
      rw [resolveForest] at resolvedEq
      obtain ⟨headResolved, headEq, restStep⟩ := bind_eq_ok_iff.mp resolvedEq
      obtain ⟨restResolved, restEq, pairEq⟩ := bind_eq_ok_iff.mp restStep
      cases pairEq
      cases index with
      | zero =>
          cases treeEq
          exact ⟨head, List.mem_cons_self, headEq⟩
      | succ index =>
          have laterEq : restResolved[index]? = some tree := by
            simpa using treeEq
          obtain ⟨placed, member, placedEq⟩ := inductionHypothesis restEq laterEq
          rw [Nat.add_right_comm, Nat.add_assoc] at placedEq
          exact ⟨placed, List.mem_cons_of_mem head member, placedEq⟩

theorem normalize_eq_ok {nodes : List RuleNode} {forest : List (RuleTree num)}
    (normalized : normalize nodes = .ok forest) :
    ∃ placed, placeNodes nodes = .ok placed ∧ resolveForest none 0 0 placed = .ok forest := by
  unfold normalize at normalized
  split at normalized
  · cases normalized
  · exact bind_eq_ok_iff.mp normalized

/-! ## Resolved trees -/

theorem resolveTree_resolved (tree : Tree Label) :
    ∀ (key : String) (depth : Nat) (resolved : RuleTree num),
      resolveTree key depth tree = .ok resolved → ResolvedAt key resolved := by
  induction tree using Tree.induction with
  | node label children inductionHypothesis =>
      intro key depth resolved resolvedEq
      obtain ⟨below, kind, belowEq, _, admitted, rfl⟩ := resolveTree_eq_ok resolvedEq
      refine resolvedAt_node_iff.mpr ⟨rfl, admitted, ?_⟩
      intro index child childEq
      obtain ⟨placed, member, placedEq⟩ := resolveForest_eq_ok belowEq childEq
      rw [Nat.zero_add] at placedEq
      exact inductionHypothesis placed member _ _ child placedEq

/-- The trees of a rule stand at the top. -/
theorem normalize_resolved {nodes : List RuleNode} {forest : List (RuleTree num)}
    (normalized : normalize nodes = .ok forest) :
    ResolvedBelow none forest := by
  obtain ⟨trees, _, resolvedEq⟩ := normalize_eq_ok normalized
  intro index tree treeEq
  obtain ⟨placed, _, placedEq⟩ := resolveForest_eq_ok resolvedEq treeEq
  rw [Nat.zero_add] at placedEq
  exact resolveTree_resolved placed _ _ tree placedEq

end FuzzyRating
