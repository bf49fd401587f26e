import FuzzyRating.Proofs.Rule.Indentation
import FuzzyRating.Proofs.Rule.Walk
import Mathlib.Data.List.TakeWhile

/-!
Placing siblings one after the other. A node is admitted exactly if it fits, and what has been placed
behind any number of nodes is known: each open node has all its children among these nodes, and a
node that is closed gets no further ones.
-/

namespace FuzzyRating

/-! ## Nodes that have a place -/

private theorem not_mem_of_nearest {closed outer : List OpenNode} {nearest : OpenNode} {width : Nat}
    (sorted : ((closed ++ nearest :: outer).map OpenNode.width).Pairwise (· > ·))
    (deeper : ∀ node ∈ closed, width < node.width) (notDeeper : ¬width < nearest.width)
    (differs : nearest.width ≠ width) :
    width ∉ (closed ++ nearest :: outer).map OpenNode.width := by
  intro member
  obtain ⟨node, isOpen, isSame⟩ := List.mem_map.mp member
  rw [List.map_append, List.map_cons, List.pairwise_append, List.pairwise_cons] at sorted
  rcases List.mem_append.mp isOpen with isClosed | isKept
  · have := deeper node isClosed
    omega
  · rcases List.mem_cons.mp isKept with rfl | isOuter
    · exact differs isSame
    · have := sorted.2.1.1 node.width (List.mem_map_of_mem isOuter)
      omega

theorem Placement.admits_iff {placement : Placement} {width : Nat}
    (sorted : (placement.opened.map OpenNode.width).Pairwise (· > ·))
    (outermost : placement.topWidth = (placement.opened.map OpenNode.width).getLast?) :
    placement.admits width = true ↔ HasPlace (placement.opened.map OpenNode.width) width := by
  obtain ⟨roots, opened, topWidth⟩ := placement
  dsimp only at sorted outermost ⊢
  subst outermost
  unfold admits
  dsimp only
  have deeper := List.all_takeWhile (p := fun node : OpenNode => decide (width < node.width))
    (l := opened)
  have notDeeper := List.head?_dropWhile_not
    (fun node : OpenNode => decide (width < node.width)) opened
  have split := List.takeWhile_append_dropWhile
    (p := fun node : OpenNode => decide (width < node.width)) (l := opened)
  generalize opened.takeWhile (fun node => decide (width < node.width)) = closed at deeper split
  generalize opened.dropWhile (fun node => decide (width < node.width)) = kept at notDeeper split ⊢
  subst split
  simp only [List.all_eq_true, decide_eq_true_eq] at deeper
  cases kept with
  | nil =>
      -- all open nodes are indented further, the outermost one too
      rw [List.append_nil]
      cases closed with
      | nil => simp [HasPlace]
      | cons last outer =>
          have nonempty : (last :: outer).map OpenNode.width ≠ [] := List.cons_ne_nil _ _
          have allDeeper : ∀ other ∈ (last :: outer).map OpenNode.width, width < other := by
            simpa using deeper
          have outermostDeeper := allDeeper _ (List.getLast_mem nonempty)
          rw [List.getLast?_eq_some_getLast nonempty]
          simp only [Option.all_some, beq_iff_eq, not_hasPlace_of_lt nonempty allDeeper, iff_false]
          omega
  | cons nearest outer =>
      have isOpen : nearest.width ∈ (closed ++ nearest :: outer).map OpenNode.width := by simp
      by_cases same : nearest.width = width
      · have admitted : (!outer.isEmpty ||
            ((closed ++ nearest :: outer).map OpenNode.width).getLast?.all (· == width)) = true := by
          cases outer with
          | nil => simp [same]
          | cons => rfl
        simp only [same, if_true, admitted, true_iff]
        exact Or.inr (Or.inr (same ▸ isOpen))
      · have noneSame := not_mem_of_nearest sorted deeper (by simpa using notDeeper) same
        simp only [same, if_false]
        cases opened : closed ++ nearest :: outer with
        | nil => simp at opened
        | cons last rest =>
            rw [opened, List.map_cons] at noneSame
            rw [List.map_cons, hasPlace_cons_iff]
            simp [noneSame]

/-! ## Open nodes -/

/-- The nodes of a list by position: how far they are indented, what they say, and the trees of the
nodes that they list. -/
structure Siblings where
  width : Nat → Nat
  label : Nat → Label
  carried : Nat → List (Tree Label)

namespace Siblings

variable {siblings : Siblings} {tree : Nat → Tree Label} {count : Nat}
  {roots : List (Tree Label)} {pending isOpen : List Nat} {opened : List OpenNode}

/-- The tree of a node, given those of its children among the first `count` nodes. -/
def treeBefore (siblings : Siblings) (tree : Nat → Tree Label) (count i : Nat) : Tree Label :=
  .node (siblings.label i) (siblings.carried i ++ (childrenBefore siblings.width count i).map tree)

/-- A node that has been given these children so far. -/
def openNode (siblings : Siblings) (tree : Nat → Tree Label) (i : Nat) (closed : List Nat) :
    OpenNode :=
  ⟨siblings.width i, siblings.label i, (siblings.carried i ++ closed.map tree).reverse⟩

/-- The roots and open nodes behind the first `count` nodes. Those in `isOpen` are open, innermost
first. Each has all its children but the next inner one, and the innermost all but those that are
pending. -/
inductive OpenAt (siblings : Siblings) (tree : Nat → Tree Label) (count : Nat)
    (roots : List (Tree Label)) : List Nat → List Nat → List OpenNode → Prop
  | outside (closed : List Nat) {pending : List Nat}
      (tops : topsBefore siblings.width count = closed ++ pending)
      (rootsEq : roots = (closed.map tree).reverse) :
      OpenAt siblings tree count roots pending [] []
  | inside (closed : List Nat) {i : Nat} {outer pending : List Nat} {opened : List OpenNode}
      (children : childrenBefore siblings.width count i = closed ++ pending)
      (around : OpenAt siblings tree count roots [i] outer opened) :
      OpenAt siblings tree count roots pending (i :: outer)
        (siblings.openNode tree i closed :: opened)

theorem OpenAt.map_width (openAt : OpenAt siblings tree count roots pending isOpen opened) :
    opened.map OpenNode.width = isOpen.map siblings.width := by
  induction openAt with
  | outside => rfl
  | inside _ _ _ inductionHypothesis => rw [List.map_cons, List.map_cons, inductionHypothesis]; rfl

theorem closeWhile_openNode (test : Nat → Bool) (i : Nat) (closed pending : List Nat)
    (roots : List (Tree Label)) (opened : List OpenNode) :
    Placement.closeWhile test (pending.map tree).reverse roots
        (siblings.openNode tree i closed :: opened) =
      if test (siblings.width i) then
        Placement.closeWhile test [(siblings.openNode tree i (closed ++ pending)).close] roots opened
      else
        (roots, siblings.openNode tree i (closed ++ pending) :: opened) := by
  rw [Placement.closeWhile]
  simp [openNode]

/-- Closing gives the pending children to the innermost node that stays open. -/
theorem OpenAt.closeWhile (test : Nat → Bool)
    (openAt : OpenAt siblings tree count roots pending isOpen opened)
    (complete : ∀ i ∈ isOpen, test (siblings.width i) = true →
      tree i = siblings.treeBefore tree count i) :
    OpenAt siblings tree count
      (Placement.closeWhile test (pending.map tree).reverse roots opened).1 []
      (isOpen.dropWhile fun i => test (siblings.width i))
      (Placement.closeWhile test (pending.map tree).reverse roots opened).2 := by
  induction openAt with
  | @outside closed pending tops rootsEq =>
      refine OpenAt.outside (closed ++ pending) (by rw [tops, List.append_nil]) ?_
      simp [Placement.closeWhile, rootsEq]
  | @inside closed i outer pending opened children around inductionHypothesis =>
      rw [closeWhile_openNode]
      by_cases isClosed : test (siblings.width i) = true
      · have closedTree : (siblings.openNode tree i (closed ++ pending)).close = tree i := by
          rw [complete i List.mem_cons_self isClosed, treeBefore, children]
          simp [openNode, OpenNode.close]
        simp only [List.dropWhile_cons, isClosed, if_true, closedTree]
        exact inductionHypothesis fun other member =>
          complete other (List.mem_cons_of_mem i member)
      · simp only [List.dropWhile_cons, isClosed, Bool.false_eq_true, if_false]
        exact OpenAt.inside (closed ++ pending) (by rw [children, List.append_nil]) around

theorem OpenAt.roots_eq (openAt : OpenAt siblings tree count roots [] [] opened) :
    roots = ((topsBefore siblings.width count).map tree).reverse := by
  cases openAt with
  | outside closed tops rootsEq => rw [rootsEq, tops, List.append_nil]

theorem OpenAt.succ_of_not (openAt : OpenAt siblings tree count roots pending isOpen opened)
    (notTop : ¬IsTop siblings.width count)
    (notParent : ∀ i ∈ isOpen, ¬IsParent siblings.width i count) :
    OpenAt siblings tree (count + 1) roots pending isOpen opened := by
  induction openAt with
  | outside closed tops rootsEq =>
      exact OpenAt.outside closed (by rw [topsBefore_succ_of_not notTop, tops]) rootsEq
  | inside closed children around inductionHypothesis =>
      refine OpenAt.inside closed ?_ (inductionHypothesis fun other member =>
        notParent other (List.mem_cons_of_mem _ member))
      rw [childrenBefore_succ_of_not (notParent _ List.mem_cons_self), children]

/-- The next node is pending below its parent, which is the innermost of the nodes that it leaves
open. -/
theorem OpenAt.succ
    (openAt : OpenAt siblings tree count roots []
      ((openBefore siblings.width count).filter (siblings.width · < siblings.width count)) opened) :
    OpenAt siblings tree (count + 1) roots [count]
      ((openBefore siblings.width count).filter (siblings.width · < siblings.width count))
      opened := by
  have sorted := (openBefore_pairwise siblings.width count).filter
    (siblings.width · < siblings.width count)
  cases staysOpen : (openBefore siblings.width count).filter
      (siblings.width · < siblings.width count) with
  | nil =>
      rw [staysOpen] at openAt
      cases openAt with
      | outside closed tops rootsEq =>
          refine OpenAt.outside closed ?_ rootsEq
          rw [topsBefore_succ_of_isTop (isTop_of_filter_eq_nil staysOpen), tops, List.append_nil]
  | cons i outer =>
      have isParent := isParent_of_filter_eq rfl staysOpen
      rw [staysOpen] at openAt sorted
      cases openAt with
      | inside closed children around =>
          refine OpenAt.inside closed ?_ (around.succ_of_not isParent.not_isTop ?_)
          · rw [childrenBefore_succ_of_isParent isParent, children, List.append_nil]
          · intro other member otherParent
            have isBefore := ((List.pairwise_cons.mp sorted).1 other member).1
            rw [isParent.unique otherParent] at isBefore
            exact Nat.lt_irrefl other isBefore

theorem childrenBefore_self (widths : Nat → Nat) (i : Nat) : childrenBefore widths (i + 1) i = [] := by
  refine List.filter_eq_nil_iff.mpr fun child member => ?_
  simp only [decide_eq_true_eq]
  rintro ⟨behind, _⟩
  have := List.mem_range.mp member
  omega

/-! ## Stages of a placement -/

/-- The placement holds the first `count` nodes. -/
structure Stage (siblings : Siblings) (tree : Nat → Tree Label) (count : Nat)
    (placement : Placement) : Prop where
  openAt : OpenAt siblings tree count placement.roots [] (openBefore siblings.width count)
    placement.opened
  topWidth : placement.topWidth = (placement.opened.map OpenNode.width).getLast?

theorem stage_empty (siblings : Siblings) (tree : Nat → Tree Label) :
    Stage siblings tree 0 .empty where
  openAt := OpenAt.outside [] rfl rfl
  topWidth := rfl

variable {placement : Placement} {total : Nat}

theorem Stage.admits_iff (stage : Stage siblings tree count placement) :
    placement.admits (siblings.width count) = true ↔ Fits siblings.width count := by
  have widthsEq := stage.openAt.map_width
  have sorted : (placement.opened.map OpenNode.width).Pairwise (· > ·) := by
    rw [widthsEq, List.pairwise_map]
    exact (openBefore_pairwise siblings.width count).imp And.right
  rw [Placement.admits_iff sorted stage.topWidth, widthsEq, fits_iff_hasPlace]

theorem Stage.push (stage : Stage siblings tree count placement)
    (fits : Fits siblings.width count) (within : count ≤ total)
    (trees : ∀ i < count, tree i = siblings.treeBefore tree total i) :
    Stage siblings tree (count + 1)
      (placement.push (siblings.width count) (siblings.label count) (siblings.carried count)) := by
  have complete : ∀ i ∈ openBefore siblings.width count,
      decide (siblings.width count ≤ siblings.width i) = true →
        tree i = siblings.treeBefore tree count i := by
    intro i isOpen closed
    have isBefore := (mem_openBefore_iff.mp isOpen).1
    rw [trees i isBefore, treeBefore, treeBefore,
      childrenBefore_eq_of_le (of_decide_eq_true closed) isBefore within]
  have closed := stage.openAt.closeWhile (siblings.width count ≤ ·) complete
  rw [dropWhile_openBefore] at closed
  have pushed : OpenAt siblings tree (count + 1) _ [] (openBefore siblings.width (count + 1)) _ :=
    OpenAt.inside [] (childrenBefore_self siblings.width count) closed.succ
  rw [Placement.push_eq]
  refine ⟨by simpa [openNode] using pushed, ?_⟩
  have outermost := getLast?_openBefore_succ fits
  rw [← pushed.map_width, ← stage.openAt.map_width, ← stage.topWidth] at outermost
  exact outermost.symm

theorem Stage.forest_eq (stage : Stage siblings tree count placement)
    (trees : ∀ i < count, tree i = siblings.treeBefore tree count i) :
    placement.forest = (topsBefore siblings.width count).map tree := by
  have closed := stage.openAt.closeWhile (fun _ => true) fun i isOpen _ =>
    trees i (mem_openBefore_iff.mp isOpen).1
  have noneOpen : (openBefore siblings.width count).dropWhile (fun _ => true) = [] :=
    List.dropWhile_eq_nil_iff.mpr fun _ _ => rfl
  rw [noneOpen] at closed
  rw [Placement.forest]
  exact (congrArg List.reverse closed.roots_eq).trans (List.reverse_reverse _)

end Siblings

end FuzzyRating
