import FuzzyRating.Proofs.Rule.Placement

/-!
The forest that the indentation of a rule describes, and the first fault of a rule that describes
none. Placing nodes one after the other finds either.
-/

namespace FuzzyRating

/-! ## Trees by position -/

namespace Siblings

/-- The tree of one of `total` nodes: below it stand the trees that it carries, and behind these its
children in their order. -/
def treeOf (siblings : Siblings) (total i : Nat) : Tree Label :=
  .node (siblings.label i) (siblings.carried i ++
    (childrenBefore siblings.width total i).attach.map fun child => treeOf siblings total child.1)
termination_by total - i
decreasing_by
  obtain ⟨within, behind, _⟩ := mem_childrenBefore_iff.mp child.2
  omega

theorem treeOf_eq (siblings : Siblings) (total i : Nat) :
    siblings.treeOf total i = siblings.treeBefore (siblings.treeOf total) total i := by
  rw [treeOf, treeBefore]
  simp

def forest (siblings : Siblings) (total : Nat) : List (Tree Label) :=
  (topsBefore siblings.width total).map (siblings.treeOf total)

end Siblings

namespace RuleNode

theorem sizeOf_children_lt {listed : RuleNode} {nodes : List RuleNode} (member : listed ∈ nodes) :
    sizeOf listed.children < sizeOf nodes := by
  have smaller := List.sizeOf_lt_of_mem member
  cases listed
  rw [RuleNode.node.sizeOf_spec] at smaller
  rw [children]
  omega

def widthAt (nodes : List RuleNode) (i : Nat) : Nat :=
  (nodes.map width).getD i 0

/-- The nodes of a list that carry these forests. -/
def siblingsCarrying (nodes : List RuleNode) (carried : List (List (Tree Label))) : Siblings where
  width := widthAt nodes
  label i := (nodes.map label).getD i ⟨"", none, none, none⟩
  carried i := carried.getD i []

/-- The forest that a list of nodes describes. Each node stands below the nearest earlier one of the
list that is indented less, behind the forest that the nodes listed by that one describe. -/
def described (nodes : List RuleNode) : List (Tree Label) :=
  (siblingsCarrying nodes (nodes.attach.map fun listed => described listed.1.children)).forest nodes.length
termination_by nodes
decreasing_by exact sizeOf_children_lt listed.2

def siblings (nodes : List RuleNode) : Siblings :=
  siblingsCarrying nodes (nodes.map fun listed => described listed.children)

theorem described_eq (nodes : List RuleNode) :
    described nodes = (siblings nodes).forest nodes.length := by
  rw [described]
  simp [siblings]

/-- Every node fits behind the siblings before it, and so it is with the nodes that it lists. -/
inductive WellIndented : List RuleNode → Prop
  | intro {nodes : List RuleNode}
      (fits : ∀ i < nodes.length, Fits (widthAt nodes) i)
      (below : ∀ listed ∈ nodes, WellIndented listed.children) :
      WellIndented nodes

/-- The fault that comes first in a list of siblings before which `index` nodes stand in the rule.
All nodes before it fit, and so do the nodes that they list. -/
inductive FirstFault : Nat → List RuleNode → RuleError → Prop
  | indentation {index i : Nat} {nodes : List RuleNode} {faulty : RuleNode}
      (isNode : nodes[i]? = some faulty)
      (fits : ∀ j < i, Fits (widthAt nodes) j)
      (belowBefore : ∀ listed ∈ nodes.take i, WellIndented listed.children)
      (notFits : ¬Fits (widthAt nodes) i) :
      FirstFault index nodes
        (.indentation (index + (labelsAll (nodes.take i)).length) faulty.levelName)
  | listed {index i : Nat} {nodes : List RuleNode} {faulty : RuleNode} {error : RuleError}
      (isNode : nodes[i]? = some faulty)
      (fits : ∀ j ≤ i, Fits (widthAt nodes) j)
      (belowBefore : ∀ listed ∈ nodes.take i, WellIndented listed.children)
      (below : FirstFault (index + (labelsAll (nodes.take i)).length + 1) faulty.children error) :
      FirstFault index nodes error

theorem FirstFault.not_wellIndented {index : Nat} {nodes : List RuleNode} {error : RuleError}
    (fault : FirstFault index nodes error) :
    ¬WellIndented nodes := by
  induction fault with
  | indentation isNode _ _ notFits =>
      rintro ⟨allFit, _⟩
      exact notFits (allFit _ (List.getElem?_eq_some_iff.mp isNode).1)
  | listed isNode _ _ _ inductionHypothesis =>
      rintro ⟨_, allBelow⟩
      exact inductionHypothesis (allBelow _ (List.mem_of_getElem? isNode))

theorem mem_take_of_getElem? {i j : Nat} {nodes : List RuleNode} {listed : RuleNode}
    (isNode : nodes[i]? = some listed) (before : i < j) :
    listed ∈ nodes.take j := by
  refine List.mem_of_getElem? (i := i) ?_
  rw [List.getElem?_take_of_lt before, isNode]

theorem FirstFault.unique {index : Nat} {nodes : List RuleNode} {error other : RuleError}
    (fault : FirstFault index nodes error) (otherFault : FirstFault index nodes other) :
    error = other := by
  induction fault with
  | @indentation index i nodes faulty isNode fits belowBefore notFits =>
      cases otherFault with
      | @indentation _ j _ otherFaulty otherIsNode otherFits otherBelow otherNotFits =>
          rcases Nat.lt_trichotomy i j with before | rfl | behind
          · exact absurd (otherFits i before) notFits
          · rw [isNode, Option.some.injEq] at otherIsNode
            rw [otherIsNode]
          · exact absurd (fits j behind) otherNotFits
      | @listed _ j _ otherFaulty _ otherIsNode otherFits otherBelow below =>
          rcases Nat.lt_or_ge j i with behind | before
          · exact absurd (belowBefore otherFaulty (mem_take_of_getElem? otherIsNode behind))
              below.not_wellIndented
          · exact absurd (otherFits i before) notFits
  | @listed index i nodes faulty error isNode fits belowBefore below inductionHypothesis =>
      cases otherFault with
      | @indentation _ j _ otherFaulty otherIsNode otherFits otherBelow otherNotFits =>
          rcases Nat.lt_or_ge i j with before | behind
          · exact absurd (otherBelow faulty (mem_take_of_getElem? isNode before))
              below.not_wellIndented
          · exact absurd (fits j behind) otherNotFits
      | @listed _ j _ otherFaulty _ otherIsNode otherFits otherBelow otherBelowFault =>
          rcases Nat.lt_trichotomy i j with before | rfl | behind
          · exact absurd (otherBelow faulty (mem_take_of_getElem? isNode before))
              below.not_wellIndented
          · rw [isNode, Option.some.injEq] at otherIsNode
            exact inductionHypothesis (otherIsNode ▸ otherBelowFault)
          · exact absurd (belowBefore otherFaulty (mem_take_of_getElem? otherIsNode behind))
              otherBelowFault.not_wellIndented

/-! ## Placing one node after the other -/

theorem list_induction {motive : List RuleNode → Prop}
    (list : ∀ nodes, (∀ listed ∈ nodes, motive listed.children) → motive nodes) :
    ∀ nodes, motive nodes := by
  have below : ∀ listed : RuleNode, motive listed.children := by
    intro listed
    induction listed using induction with
    | node _ _ _ _ children inductionHypothesis => exact list children inductionHypothesis
  exact fun nodes => list nodes fun listed _ => below listed

theorem place_eq_placeLevel (index : Nat) (placement : Placement) (listed : RuleNode) :
    place index placement listed =
      if placement.admits listed.width then do
        let carried ← placeLevel (index + 1) listed.children
        return (placement.push listed.width listed.label carried, index + listed.labels.length)
      else
        throw (.indentation index listed.levelName) := by
  rw [place_eq, placeLevel]
  cases placed : placeList (index + 1) .empty listed.children with
  | error error => rfl
  | ok result =>
      obtain ⟨carried, count⟩ := result
      have countEq := (placeList_walk placed).2
      have labelsLength : listed.labels.length = 1 + (labelsAll listed.children).length := by
        rw [labels_eq, List.length_cons, Nat.add_comm]
      rw [labelsLength, ← Nat.add_assoc, ← countEq]
      rfl

/-- Placing the nodes gives the forest that they describe or their first fault. -/
def Decided (nodes : List RuleNode) : Prop :=
  ∀ index, (∀ forest, placeLevel index nodes = .ok forest →
      WellIndented nodes ∧ forest = described nodes) ∧
    (∀ error, placeLevel index nodes = .error error → FirstFault index nodes error)

section

variable {nodes passed rest : List RuleNode} {placement : Placement}

private theorem placeList_decided (index : Nat) (each : ∀ listed ∈ nodes, Decided listed.children)
    (split : nodes = passed ++ rest)
    (stage : (siblings nodes).Stage ((siblings nodes).treeOf nodes.length) passed.length placement)
    (fits : ∀ i < passed.length, Fits (widthAt nodes) i)
    (below : ∀ listed ∈ passed, WellIndented listed.children) :
    (∀ placed count,
      placeList (index + (labelsAll passed).length) placement rest = .ok (placed, count) →
        (siblings nodes).Stage ((siblings nodes).treeOf nodes.length) nodes.length placed ∧ WellIndented nodes) ∧
    (∀ error, placeList (index + (labelsAll passed).length) placement rest = .error error →
      FirstFault index nodes error) := by
  -- what stands behind the nodes passed so far is placed behind their stage
  induction rest generalizing passed placement with
  | nil =>
      rw [List.append_nil] at split
      subst split
      rw [placeList]
      refine ⟨?_, fun error impossible => (by cases impossible)⟩
      rintro placed count ⟨⟩
      exact ⟨stage, .intro fits below⟩
  | cons next rest inductionHypothesis =>
      have isNode : nodes[passed.length]? = some next := by simp [split]
      have takeEq : nodes.take passed.length = passed := by simp [split]
      have widthEq : (siblings nodes).width passed.length = next.width := by
        simp [siblings, siblingsCarrying, widthAt, split]
      have labelEq : (siblings nodes).label passed.length = next.label := by
        simp [siblings, siblingsCarrying, split]
      have carriedEq : (siblings nodes).carried passed.length = described next.children := by
        simp [siblings, siblingsCarrying, split]
      have admits := stage.admits_iff
      rw [widthEq] at admits
      rw [placeList, place_eq_placeLevel]
      by_cases nextFits : Fits (widthAt nodes) passed.length
      · rw [if_pos (admits.mpr nextFits)]
        have nextDecided := each next (List.mem_of_getElem? isNode)
          (index + (labelsAll passed).length + 1)
        have fitsNow : ∀ i ≤ passed.length, Fits (widthAt nodes) i := by
          intro i within
          rcases Nat.lt_or_eq_of_le within with before | rfl
          · exact fits i before
          · exact nextFits
        cases carried : placeLevel (index + (labelsAll passed).length + 1) next.children with
        | error error =>
            have fault : FirstFault index nodes error :=
              .listed isNode fitsNow (by rwa [takeEq]) (by
                rw [takeEq]
                exact nextDecided.2 error carried)
            refine ⟨fun placed count impossible => (by cases impossible), ?_⟩
            rintro other ⟨⟩
            exact fault
        | ok carriedForest =>
            obtain ⟨nextBelow, rfl⟩ := nextDecided.1 carriedForest carried
            have within : passed.length ≤ nodes.length := by simp [split]
            have pushed := stage.push nextFits within fun i _ => (siblings nodes).treeOf_eq nodes.length i
            rw [widthEq, labelEq, carriedEq] at pushed
            have indexEq : index + (labelsAll (passed ++ [next])).length =
                index + (labelsAll passed).length + next.labels.length := by
              simp [Nat.add_assoc]
            have splitNow : nodes = (passed ++ [next]) ++ rest := by simp [split]
            have later := inductionHypothesis splitNow (by simpa using pushed)
              (fun i before => fitsNow i (by simpa [Nat.lt_succ_iff] using before))
              (by simpa [or_imp, forall_and] using ⟨below, nextBelow⟩)
            rw [indexEq] at later
            exact later
      · rw [if_neg fun admitted => nextFits (admits.mp admitted)]
        have fault : FirstFault index nodes
            (.indentation (index + (labelsAll (nodes.take passed.length)).length)
              next.levelName) :=
          .indentation isNode fits (by rwa [takeEq]) nextFits
        rw [takeEq] at fault
        refine ⟨fun placed count impossible => (by cases impossible), ?_⟩
        rintro error ⟨⟩
        exact fault

end

theorem decided (nodes : List RuleNode) : Decided nodes := by
  induction nodes using list_induction with
  | list nodes inductionHypothesis =>
      intro index
      have start := Siblings.stage_empty (siblings nodes) ((siblings nodes).treeOf nodes.length)
      have outcome := placeList_decided index inductionHypothesis (List.nil_append nodes).symm start
        (by simp) (by simp)
      rw [labelsAll_nil, List.length_nil, Nat.add_zero] at outcome
      refine ⟨fun forest forestEq => ?_, fun error errorEq => ?_⟩
      · obtain ⟨⟨placed, count⟩, placedEq, forestIs⟩ := bind_eq_ok_iff.mp forestEq
        obtain ⟨stage, wellIndented⟩ := outcome.1 placed count placedEq
        cases forestIs
        refine ⟨wellIndented, ?_⟩
        rw [described_eq]
        exact stage.forest_eq fun i _ => Siblings.treeOf_eq _ _ i
      · rw [placeLevel] at errorEq
        cases placedEq : placeList index .empty nodes with
        | error other =>
            rw [placedEq] at errorEq
            cases errorEq
            exact outcome.2 error placedEq
        | ok result =>
            rw [placedEq] at errorEq
            cases errorEq

theorem placeLevel_eq_ok_iff {nodes : List RuleNode} {index : Nat} {forest : List (Tree Label)} :
    placeLevel index nodes = .ok forest ↔ WellIndented nodes ∧ forest = described nodes := by
  constructor
  · exact (decided nodes index).1 forest
  · rintro ⟨wellIndented, rfl⟩
    cases placed : placeLevel index nodes with
    | error error =>
        exact absurd wellIndented ((decided nodes index).2 error placed).not_wellIndented
    | ok forest => rw [((decided nodes index).1 forest placed).2]

theorem placeLevel_eq_error_iff {nodes : List RuleNode} {index : Nat} {error : RuleError} :
    placeLevel index nodes = .error error ↔ FirstFault index nodes error := by
  constructor
  · exact (decided nodes index).2 error
  · intro fault
    cases placed : placeLevel index nodes with
    | error other => rw [((decided nodes index).2 other placed).unique fault]
    | ok forest =>
        exact absurd ((decided nodes index).1 forest placed).1 fault.not_wellIndented

theorem FirstFault.ne_nil {nodes : List RuleNode} {index : Nat} {error : RuleError}
    (fault : FirstFault index nodes error) :
    nodes ≠ [] := by
  rintro rfl
  cases fault with
  | indentation isNode => cases isNode
  | listed isNode => cases isNode

theorem preorderAll_described {nodes : List RuleNode} (wellIndented : WellIndented nodes) :
    Tree.preorderAll (described nodes) = labelsAll nodes := by
  have placed : placeLevel 0 nodes = .ok (described nodes) :=
    placeLevel_eq_ok_iff.mpr ⟨wellIndented, rfl⟩
  exact preorderAll_of_placeLevel placed

end RuleNode

/-! ## Rules -/

section

open RuleNode

variable {num : Type} [Arith num]

theorem normalize_eq_error_of_firstFault {nodes : List RuleNode} {error : RuleError}
    (fault : FirstFault 0 nodes error) :
    (normalize nodes : Except RuleError (List (RuleTree num))) = .error error := by
  have placed : placeNodes nodes = .error error := placeLevel_eq_error_iff.mpr fault
  have notEmpty : nodes.isEmpty = false := by simpa using fault.ne_nil
  rw [normalize, if_neg (by simp [notEmpty]), placed]
  rfl

theorem normalize_described {nodes : List RuleNode} {forest : List (RuleTree num)}
    (normalized : normalize nodes = .ok forest) :
    WellIndented nodes ∧
      forest.map (Tree.map Node.name) = (described nodes).map (Tree.map Label.name) := by
  obtain ⟨placed, placedEq, names⟩ := exists_placeLevel_of_normalize normalized
  obtain ⟨wellIndented, rfl⟩ := placeLevel_eq_ok_iff.mp placedEq
  exact ⟨wellIndented, names⟩

/-- Placing a list of nodes gives the forest that their indentation describes, or else the first
fault, and a rule stands for the forest that it describes: a walk through that meets the nodes in the
order in which they stand in the rule. -/
theorem placeLevel_described (index : Nat) (nodes : List RuleNode) :
    (∀ forest, placeLevel index nodes = .ok forest ↔
      WellIndented nodes ∧ forest = described nodes) ∧
    (∀ error, placeLevel index nodes = .error error ↔ FirstFault index nodes error) ∧
    (WellIndented nodes → Tree.preorderAll (described nodes) = labelsAll nodes) ∧
    (∀ error, FirstFault 0 nodes error →
      (normalize nodes : Except RuleError (List (RuleTree num))) = .error error) ∧
    (∀ forest : List (RuleTree num), normalize nodes = .ok forest →
      WellIndented nodes ∧
        forest.map (Tree.map Node.name) = (described nodes).map (Tree.map Label.name) ∧
        (Tree.preorderAll forest).map Node.name = (labelsAll nodes).map Label.name) := by
  refine ⟨fun forest => placeLevel_eq_ok_iff, fun error => placeLevel_eq_error_iff,
    preorderAll_described, fun error => normalize_eq_error_of_firstFault, ?_⟩
  intro forest normalized
  obtain ⟨wellIndented, names⟩ := normalize_described normalized
  refine ⟨wellIndented, names, ?_⟩
  rw [← Tree.preorderAll_map, names, Tree.preorderAll_map, preorderAll_described wellIndented]

end

/-- Below the site stand its slope, which it lists, and what is indented below it. -/
def terrain : List RuleNode :=
  [.node "Site" none none none [.node "Slope" none none (some "Steep") []],
   .node "  and" none none none [],
   .node "    Soil" none none (some "Clay") [],
   .node "    Water" none none (some "Wet") []]

/-- The last node stands further out than the one before it, but no node stands where it does. -/
def dedented : List RuleNode :=
  [.node "Site" none none none [],
   .node "    Soil" none none (some "Clay") [],
   .node "  Water" none none (some "Wet") []]

theorem placeLevel_described_terrain :
    (∃ forest : List (RuleTree Float), normalize terrain = .ok forest ∧
      RuleNode.WellIndented terrain ∧
      (Tree.preorderAll forest).map Node.name = ["Site", "Slope", "and", "Soil", "Water"]) ∧
    RuleNode.FirstFault 0 dedented (.indentation 2 "  Water") ∧
    (normalize dedented : Except RuleError (List (RuleTree Float))) =
      .error (.indentation 2 "  Water") := by
  obtain ⟨_, _, _, _, resolved⟩ := @placeLevel_described Float _ 0 terrain
  obtain ⟨_, faults, _, failed, _⟩ := @placeLevel_described Float _ 0 dedented
  have fault : RuleNode.FirstFault 0 dedented (.indentation 2 "  Water") :=
    (faults _).mp (by rfl)
  refine ⟨?_, fault, failed _ fault⟩
  have accepted : (normalize terrain : Except RuleError (List (RuleTree Float))).isOk = true := by
    decide +kernel
  cases normalized : (normalize terrain : Except RuleError (List (RuleTree Float))) with
  | error error =>
      rw [normalized] at accepted
      cases accepted
  | ok forest =>
      obtain ⟨wellIndented, _, names⟩ := resolved forest normalized
      have listed : (RuleNode.labelsAll terrain).map Label.name =
          ["Site", "Slope", "and", "Soil", "Water"] := by
        decide +kernel
      exact ⟨forest, rfl, wellIndented, names.trans listed⟩

end FuzzyRating
