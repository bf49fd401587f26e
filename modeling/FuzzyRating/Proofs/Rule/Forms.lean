import FuzzyRating.Proofs.Rule.Walk
import FuzzyRating.Proofs.Stretch
import FuzzyRating.Rule.Outline

/-!
The ways to write a forest as a rule. A node may list its children, have them indented below it, or
list the first ones and have the others indented below it. All ways come to the same forest.
-/

namespace FuzzyRating

/-! ## Labels in front of which there is no indentation -/

namespace Label

/-- The name of the node does not begin like an indentation. -/
def IsUnindented (label : Label) : Prop :=
  Ends isIndent label.name.toList

/-- The label as it stands in a placed forest, with a name in any case. -/
def settled (label : Label) : Label :=
  { label with name := nodeName label.name label.nodeKind label.refId }

/-- The node with this label, this indentation in front of its name, and these children listed. -/
def written (label : Label) (indent : String) (listed : List RuleNode) : RuleNode :=
  .node (indent ++ label.name) label.nodeKind label.value label.refId listed

end Label

/-- Only characters that indent. -/
def IsIndentation (indent : String) : Prop :=
  ∀ c ∈ indent.toList, isIndent c = true

instance (indent : String) : Decidable (IsIndentation indent) :=
  decidable_of_iff (indent.toList.all isIndent = true) List.all_eq_true

section Labels

variable {label : Label} {indent : String} {listed : List RuleNode}

theorem Label.width_written (unindented : label.IsUnindented)
    (isIndentation : IsIndentation indent) :
    (label.written indent listed).width = indent.length := by
  change ((indent ++ label.name).toList.takeWhile isIndent).length = _
  rw [String.toList_append, takeWhile_stretch isIndentation unindented, String.length_toList]

theorem Label.label_written (unindented : label.IsUnindented)
    (isIndentation : IsIndentation indent) :
    (label.written indent listed).label = label.settled := by
  have sameName : plainName (indent ++ label.name) = plainName label.name := by
    have own : ([] ++ label.name.toList).dropWhile isIndent = label.name.toList :=
      dropWhile_stretch (by simp) unindented
    rw [List.nil_append] at own
    unfold plainName
    rw [String.toList_append, dropWhile_stretch isIndentation unindented, own]
  have sameNodeName : nodeName (indent ++ label.name) label.nodeKind label.refId =
      nodeName label.name label.nodeKind label.refId := by
    unfold nodeName
    rw [sameName]
  change (⟨nodeName (indent ++ label.name) label.nodeKind label.refId, _, _, _⟩ : Label) = _
  rw [sameNodeName]
  rfl

end Labels

/-! ## Forms of a forest -/

/-- The nodes stand for the forest, and those at its top are indented by `width`. Below each node
some of its first children are listed, with any indentation of their own, and the others are
indented further than the node. -/
inductive Written : Nat → List (Tree Label) → List RuleNode → Prop
  | nil {width : Nat} : Written width [] []
  | cons {width inner below : Nat} {indent : String} {label : Label}
      {early late trees : List (Tree Label)} {listed indented nodes : List RuleNode}
      (isIndentation : IsIndentation indent) (isWidth : indent.length = width)
      (nested : Written inner early listed) (deeper : width < below)
      (further : Written below late indented) (others : Written width trees nodes) :
      Written width (.node label (early ++ late) :: trees)
        (label.written indent listed :: (indented ++ nodes))

namespace Tree

mutual

/-- The form in which every node lists its children. -/
def nested : Tree Label → RuleNode
  | .node label children => label.written "" (nestedAll children)

def nestedAll : List (Tree Label) → List RuleNode
  | [] => []
  | tree :: trees => nested tree :: nestedAll trees

end

mutual

/-- The form in which every node is indented as `indent` gives it for its depth. -/
def indented (indent : Nat → String) (depth : Nat) : Tree Label → List RuleNode
  | .node label children =>
      label.written (indent depth) [] :: indentedAll indent (depth + 1) children

def indentedAll (indent : Nat → String) (depth : Nat) : List (Tree Label) → List RuleNode
  | [] => []
  | tree :: trees => indented indent depth tree ++ indentedAll indent depth trees

end

end Tree

/-! ## Placements that are closed up to a width -/

namespace Placement

/-- Further trees below the innermost open node, or at the top if none is open. -/
def deliver (trees roots : List (Tree Label)) :
    List OpenNode → List (Tree Label) × List OpenNode
  | [] => (trees.reverse ++ roots, [])
  | innermost :: opened =>
      (roots, { innermost with children := trees.reverse ++ innermost.children } :: opened)

/-- What is left of a placement when all nodes are closed that are indented this far or further. -/
def closedTo (placement : Placement) (width : Nat) : List (Tree Label) × List OpenNode :=
  closeWhile (width ≤ ·) [] placement.roots placement.opened

section

variable {trees : List (Tree Label)} {placement : Placement} {width below : Nat}

theorem closeWhile_eq_deliver (test : Nat → Bool) (trees roots : List (Tree Label))
    {opened : List OpenNode}
    (stays : ∀ innermost ∈ opened.head?, test innermost.width = false) :
    closeWhile test trees.reverse roots opened = deliver trees roots opened := by
  cases opened with
  | nil => rfl
  | cons innermost opened =>
      have open? := stays innermost rfl
      rw [closeWhile, deliver]
      simp [open?]

theorem deliver_deliver (early late roots : List (Tree Label)) (opened : List OpenNode) :
    deliver late (deliver early roots opened).1 (deliver early roots opened).2 =
      deliver (early ++ late) roots opened := by
  cases opened <;> simp [deliver]

theorem map_width_deliver (trees roots : List (Tree Label)) (opened : List OpenNode) :
    (deliver trees roots opened).2.map OpenNode.width = opened.map OpenNode.width := by
  cases opened <;> rfl

theorem map_width_closeWhile (test : Nat → Bool) (late roots : List (Tree Label))
    (opened : List OpenNode) :
    (closeWhile test late roots opened).2.map OpenNode.width =
      (opened.map OpenNode.width).dropWhile test := by
  induction opened generalizing late with
  | nil => rfl
  | cons innermost opened inductionHypothesis =>
      rw [closeWhile, List.map_cons, List.dropWhile_cons]
      dsimp only
      split
      · exact inductionHypothesis _
      · rfl

theorem head?_closeWhile (test : Nat → Bool) (late roots : List (Tree Label))
    (opened : List OpenNode) :
    ∀ innermost ∈ (closeWhile test late roots opened).2.head?, test innermost.width = false := by
  induction opened generalizing late with
  | nil =>
      rintro innermost ⟨⟩
  | cons first opened inductionHypothesis =>
      rw [closeWhile]
      dsimp only
      split
      · exact inductionHypothesis _
      · next staysOpen =>
          rintro innermost ⟨⟩
          simpa using staysOpen

/-! ## Placements that a node can follow -/

/-- A node of this width has a place behind the nodes placed so far, also as a sibling of nodes to
come. -/
structure Ready (placement : Placement) (width : Nat) : Prop where
  admits : placement.admits width = true
  atTop : (placement.closedTo width).2 = [] → placement.topWidth.all (· == width) = true

theorem ready_empty (width : Nat) : Ready .empty width where
  admits := rfl
  atTop _ := rfl

/-- Behind a node there is a place for a child. -/
theorem Ready.child {label : Label} {carried : List (Tree Label)} (deeper : width < below) :
    Ready (placement.push width label carried) below := by
  rw [push_eq]
  constructor
  · simp [Placement.admits, deeper, Nat.ne_of_lt deeper, Nat.not_lt.mpr (Nat.le_of_lt deeper)]
  · intro noneOpen
    simp [closedTo, closeWhile, Nat.not_le.mpr deeper] at noneOpen

private theorem dropWhile_of_dropWhile {inner outer : Nat → Bool} {widths rest : List Nat}
    {first : Nat}
    (less : ∀ width, inner width = true → outer width = true) (stops : outer first = false)
    (dropped : widths.dropWhile inner = first :: rest) :
    widths.dropWhile outer = first :: rest := by
  have taken : ∀ width ∈ widths.takeWhile inner, outer width = true := fun width member =>
    less width (List.all_eq_true.mp List.all_takeWhile width member)
  rw [← List.takeWhile_append_dropWhile (p := inner) (l := widths), dropped,
    List.dropWhile_append_of_pos taken, List.dropWhile_cons_of_neg (by simp [stops])]

/-- Behind a node and what is indented further there is a place for a sibling. -/
theorem Ready.sibling {placed : Placement} (ready : Ready placement width) (deeper : width < below)
    (isOpen : (placed.closedTo below).2.map OpenNode.width =
      width :: (placement.closedTo width).2.map OpenNode.width)
    (around : (placed.closedTo width).2.map OpenNode.width =
      (placement.closedTo width).2.map OpenNode.width)
    (topWidth : placed.topWidth = some (placement.topWidth.getD width)) :
    Ready placed width := by
  have atTop : (placement.closedTo width).2 = [] →
      placed.topWidth.all (· == width) = true := by
    intro noneOpen
    have isTop := ready.atTop noneOpen
    rw [topWidth]
    cases known : placement.topWidth with
    | none => simp
    | some top => simpa [known] using isTop
  refine ⟨?_, fun noneOpen => atTop ?_⟩
  · rw [closedTo, map_width_closeWhile] at isOpen
    have kept : (placed.opened.map OpenNode.width).dropWhile (width < ·) =
        width :: (placement.closedTo width).2.map OpenNode.width :=
      dropWhile_of_dropWhile (by simp; omega) (by simp) isOpen
    rw [List.dropWhile_map] at kept
    obtain ⟨nearest, further, keptEq, nearestWidth, furtherEq⟩ := List.map_eq_cons_iff.mp kept
    have keptEq : placed.opened.dropWhile (fun node => decide (width < node.width)) =
        nearest :: further := keptEq
    unfold Placement.admits
    rw [keptEq]
    cases further with
    | nil => simpa [nearestWidth] using atTop (by simpa using furtherEq.symm)
    | cons => simp [nearestWidth]
  · rw [noneOpen] at around
    simpa using around.symm

/-! ## Closing what has been placed -/

theorem deliver_nil (roots : List (Tree Label)) (opened : List OpenNode) :
    deliver [] roots opened = (roots, opened) := by
  cases opened <;> rfl

theorem closedTo_push {label : Label} {carried : List (Tree Label)} (deeper : width < below) :
    (placement.push width label carried).closedTo below =
      ((placement.closedTo width).1,
        ⟨width, label, carried.reverse⟩ :: (placement.closedTo width).2) := by
  rw [push_eq, closedTo, closeWhile]
  simp [Nat.not_le.mpr deeper, closedTo]

/-- When a node is closed, its tree comes behind those that were placed before it. -/
theorem closedTo_of_innermost {placed : Placement} {label : Label} {children : List (Tree Label)}
    (deeper : width < below)
    (isOpen : placed.closedTo below =
      ((placement.closedTo width).1, ⟨width, label, children⟩ :: (placement.closedTo width).2)) :
    placed.closedTo width = deliver [.node label children.reverse] (placement.closedTo width).1
      (placement.closedTo width).2 := by
  have less : ∀ other, decide (below ≤ other) = true → decide (width ≤ other) = true := by
    simp only [decide_eq_true_eq]
    omega
  have again := closeWhile_closeWhile less [] placed.roots placed.opened
  rw [closedTo, ← again]
  change closeWhile _ [] (placed.closedTo below).1 (placed.closedTo below).2 = _
  rw [isOpen, closeWhile]
  simp only [List.nil_append, Nat.le_refl, decide_true, if_true]
  exact closeWhile_eq_deliver (width ≤ ·) [.node label children.reverse] _
    (head?_closeWhile _ _ _ _)

/-- A placement that holds nothing but these trees, once all nodes of this width are closed. -/
theorem forest_of_closedTo
    (closed : placement.closedTo width = deliver trees [] []) :
    placement.forest = trees := by
  have less : ∀ other, decide (width ≤ other) = true → (fun _ => true) other = true :=
    fun _ _ => rfl
  have again := closeWhile_closeWhile less [] placement.roots placement.opened
  rw [forest, ← again]
  change (closeWhile _ [] (placement.closedTo width).1
    (placement.closedTo width).2).1.reverse = trees
  rw [closed]
  simp [deliver, closeWhile]

end

end Placement

/-! ## Placing a form -/

namespace RuleNode

theorem placeList_append (index : Nat) (placement : Placement) (early late : List RuleNode) :
    placeList index placement (early ++ late) =
      placeList index placement early >>= fun placed => placeList placed.2 placed.1 late := by
  induction early generalizing index placement with
  | nil => rfl
  | cons node early inductionHypothesis =>
      rw [List.cons_append, placeList, placeList, bind_assoc]
      exact bind_congr fun _ => inductionHypothesis _ _

/-- What placing the nodes of a form does: its trees come behind the nodes placed before. -/
def Places (index : Nat) (placement : Placement) (nodes : List RuleNode) (width : Nat)
    (trees : List (Tree Label)) : Prop :=
  ∃ placed count, placeList index placement nodes = .ok (placed, count) ∧
    placed.closedTo width =
      Placement.deliver trees (placement.closedTo width).1 (placement.closedTo width).2 ∧
    placed.Ready width ∧ (∀ top, placement.topWidth = some top → placed.topWidth = some top)

theorem places_of_written {width : Nat} {forest : List (Tree Label)} {nodes : List RuleNode}
    (written : Written width forest nodes)
    (unindented : ∀ label ∈ Tree.preorderAll forest, label.IsUnindented) :
    ∀ index (placement : Placement), placement.Ready width →
      Places index placement nodes width (forest.map (Tree.map Label.settled)) := by
  induction written with
  | nil =>
      intro index placement ready
      exact ⟨placement, index, rfl, (Placement.deliver_nil _ _).symm, ready, fun _ isTop => isTop⟩
  | @cons _ inner below indent label early late trees listed indented nodes isIndentation isWidth
      nested deeper further others nestedHypothesis furtherHypothesis othersHypothesis =>
      intro index placement ready
      subst isWidth
      simp only [Tree.preorderAll_cons, Tree.preorderAll_append, List.mem_cons, List.mem_append,
        or_imp, forall_and, forall_eq] at unindented
      obtain ⟨ownUnindented, ⟨earlyUnindented, lateUnindented⟩, treesUnindented⟩ := unindented
      -- the listed children are placed by themselves, and the node is opened with them
      obtain ⟨carried, carriedCount, carriedEq, carriedClosed, _, _⟩ :=
        nestedHypothesis earlyUnindented (index + 1) .empty (Placement.ready_empty inner)
      have nodeEq : place index placement (label.written indent listed) =
          .ok (placement.push indent.length label.settled
            (early.map (Tree.map Label.settled)), carriedCount) := by
        rw [place_eq, label.width_written ownUnindented isIndentation, if_pos ready.admits,
          label.label_written ownUnindented isIndentation]
        change placeList (index + 1) .empty listed >>= _ = _
        rw [carriedEq]
        change Except.ok (placement.push _ _ carried.forest, _) = _
        rw [Placement.forest_of_closedTo carriedClosed]
      -- the indented children follow while the node is open, and its siblings close it
      obtain ⟨middle, middleCount, middleEq, middleClosed, _, middleTop⟩ :=
        furtherHypothesis lateUnindented carriedCount _ (Placement.Ready.child deeper)
      rw [Placement.closedTo_push deeper] at middleClosed
      have nodeClosed := Placement.closedTo_of_innermost deeper middleClosed
      have middleReady : middle.Ready indent.length := by
        refine ready.sibling deeper ?_ ?_ (middleTop _ rfl)
        · rw [middleClosed]
          rfl
        · rw [nodeClosed, Placement.map_width_deliver]
      obtain ⟨placed, count, placedEq, placedClosed, placedReady, placedTop⟩ :=
        othersHypothesis treesUnindented middleCount middle middleReady
      refine ⟨placed, count, ?_, ?_, placedReady, ?_⟩
      · rw [placeList, nodeEq]
        change placeList carriedCount _ (indented ++ nodes) = _
        rw [placeList_append, middleEq]
        exact placedEq
      · rw [placedClosed, nodeClosed, Placement.deliver_deliver, List.map_cons, Tree.map,
          Tree.mapAll_eq_map]
        simp
      · intro top isTop
        refine placedTop top (middleTop top ?_)
        rw [Placement.push_eq, isTop]
        rfl

theorem placeNodes_of_written {width : Nat} {forest : List (Tree Label)} {nodes : List RuleNode}
    (written : Written width forest nodes)
    (unindented : ∀ label ∈ Tree.preorderAll forest, label.IsUnindented) :
    placeNodes nodes = .ok (forest.map (Tree.map Label.settled)) := by
  obtain ⟨placed, count, placedEq, closed, _, _⟩ :=
    places_of_written written unindented 0 .empty (Placement.ready_empty width)
  change placeList 0 .empty nodes >>= _ = _
  rw [placedEq]
  exact congrArg Except.ok (Placement.forest_of_closedTo closed)

end RuleNode

/-! ## The forms of a rule -/

namespace Tree

private theorem nestedAll_written_of {trees : List (Tree Label)}
    (each : ∀ tree ∈ trees, ∀ others nodes, Written 0 others nodes →
      Written 0 (tree :: others) (nested tree :: nodes)) :
    Written 0 trees (nestedAll trees) := by
  induction trees with
  | nil => exact .nil
  | cons tree trees inductionHypothesis =>
      exact each tree List.mem_cons_self _ _ <|
        inductionHypothesis fun other member => each other (List.mem_cons_of_mem tree member)

private theorem nested_written (tree : Tree Label) :
    ∀ others nodes, Written 0 others nodes → Written 0 (tree :: others) (nested tree :: nodes) := by
  induction tree using Tree.induction with
  | node label children inductionHypothesis =>
      intro others nodes written
      have listed := nestedAll_written_of inductionHypothesis
      have node : Written 0 (.node label (children ++ []) :: others)
          (label.written "" (nestedAll children) :: ([] ++ nodes)) :=
        .cons (by simp [IsIndentation]) rfl listed Nat.one_pos .nil written
      rw [List.append_nil] at node
      exact node

theorem nestedAll_written (forest : List (Tree Label)) : Written 0 forest (nestedAll forest) :=
  nestedAll_written_of fun tree _ => nested_written tree

private theorem indentedAll_written_of {indent : Nat → String} {trees : List (Tree Label)}
    (each : ∀ tree ∈ trees, ∀ depth others nodes, Written (indent depth).length others nodes →
      Written (indent depth).length (tree :: others) (indented indent depth tree ++ nodes))
    (depth : Nat) :
    Written (indent depth).length trees (indentedAll indent depth trees) := by
  induction trees with
  | nil => exact .nil
  | cons tree trees inductionHypothesis =>
      exact each tree List.mem_cons_self depth _ _ <|
        inductionHypothesis fun other member => each other (List.mem_cons_of_mem tree member)

section

variable {indent : Nat → String} (isIndentation : ∀ depth, IsIndentation (indent depth))
  (deeper : ∀ depth, (indent depth).length < (indent (depth + 1)).length)

include isIndentation deeper

private theorem indented_written (tree : Tree Label) :
    ∀ depth others nodes, Written (indent depth).length others nodes →
      Written (indent depth).length (tree :: others) (indented indent depth tree ++ nodes) := by
  induction tree using Tree.induction with
  | node label children inductionHypothesis =>
      intro depth others nodes written
      have below := indentedAll_written_of inductionHypothesis (depth + 1)
      have noneListed : Written 0 [] [] := .nil
      exact .cons (isIndentation depth) rfl noneListed (deeper depth) below written

theorem indentedAll_written (depth : Nat) (forest : List (Tree Label)) :
    Written (indent depth).length forest (indentedAll indent depth forest) :=
  indentedAll_written_of (fun tree _ => indented_written isIndentation deeper tree) depth

end

end Tree

section

variable {num : Type} [Arith num]

theorem normalize_of_written {width : Nat} {forest : List (Tree Label)} {nodes : List RuleNode}
    (written : Written width forest nodes)
    (unindented : ∀ label ∈ Tree.preorderAll forest, label.IsUnindented) :
    (normalize nodes : Except RuleError (List (RuleTree num))) =
      if forest.isEmpty then .error .empty
      else resolveForest none 0 0 (forest.map (Tree.map Label.settled)) := by
  have sameEmpty : nodes.isEmpty = forest.isEmpty := by
    cases written <;> rfl
  rw [normalize, RuleNode.placeNodes_of_written written unindented, sameEmpty]
  cases forest.isEmpty <;> rfl

/-- A forest is the same rule, or has the same fault, however it is written: with all children
listed, with all of them indented, and with the first ones listed and the others indented. -/
theorem normalize_written {forest : List (Tree Label)}
    (unindented : ∀ label ∈ Tree.preorderAll forest, label.IsUnindented)
    {indent : Nat → String} (isIndentation : ∀ depth, IsIndentation (indent depth))
    (deeper : ∀ depth, (indent depth).length < (indent (depth + 1)).length)
    {width : Nat} {mixed : List RuleNode} (written : Written width forest mixed) :
    let rule : Except RuleError (List (RuleTree num)) :=
      if forest.isEmpty then .error .empty
      else resolveForest none 0 0 (forest.map (Tree.map Label.settled))
    normalize (Tree.nestedAll forest) = rule ∧
      normalize (Tree.indentedAll indent 0 forest) = rule ∧ normalize mixed = rule :=
  ⟨normalize_of_written (Tree.nestedAll_written forest) unindented,
    normalize_of_written (Tree.indentedAll_written isIndentation deeper 0 forest) unindented,
    normalize_of_written written unindented⟩

end

/-- The label of a node that refers to an evaluation. -/
def Label.referring (name refId : String) : Label :=
  ⟨name, none, none, some refId⟩

def siteGround : Tree Label :=
  .node ⟨"Ground", some "or", none, none⟩
    [.node (.referring "Soil" "Clay") [], .node (.referring "Water" "Wet") []]

/-- A site with its slope and its ground. -/
def siteForest : List (Tree Label) :=
  [.node ⟨"Site", none, none, none⟩ [.node (.referring "Slope" "Steep") [], siteGround]]

/-- The site lists its slope, and the ground is indented below it, in spaces, tabs and dots. -/
def siteMixed : List RuleNode :=
  [Label.written ⟨"Site", none, none, none⟩ "" [Label.written (.referring "Slope" "Steep") "" []],
   Label.written ⟨"Ground", some "or", none, none⟩ ".." [],
   Label.written (.referring "Soil" "Clay") "\t\t\t" [],
   Label.written (.referring "Water" "Wet") " . " []]

theorem siteMixed_written : Written 0 siteForest siteMixed := by
  have noNodes (width : Nat) : Written width [] [] := .nil
  have blank : IsIndentation "" := by decide
  have dots : IsIndentation ".." := by decide
  have tabs : IsIndentation "\t\t\t" := by decide
  have mixed : IsIndentation " . " := by decide
  have water : Written 3 [.node (.referring "Water" "Wet") []]
      [Label.written (.referring "Water" "Wet") " . " []] :=
    .cons mixed rfl (noNodes 0) (Nat.lt_succ_self 3) (noNodes 4) (noNodes 3)
  have soil : Written 3
      [.node (.referring "Soil" "Clay") [], .node (.referring "Water" "Wet") []]
      [Label.written (.referring "Soil" "Clay") "\t\t\t" [],
        Label.written (.referring "Water" "Wet") " . " []] :=
    .cons tabs rfl (noNodes 0) (Nat.lt_succ_self 3) (noNodes 4) water
  have slope : Written 0 [.node (.referring "Slope" "Steep") []]
      [Label.written (.referring "Slope" "Steep") "" []] :=
    .cons blank rfl (noNodes 0) Nat.one_pos (noNodes 1) (noNodes 0)
  have ground : Written 2 [siteGround] siteMixed.tail :=
    .cons dots rfl (noNodes 0) (Nat.lt_succ_self 2) soil (noNodes 2)
  exact .cons blank rfl slope Nat.two_pos ground (noNodes 0)

theorem normalize_written_site :
    ∃ rule : List (RuleTree Float), normalize (Tree.nestedAll siteForest) = .ok rule ∧
      normalize (Tree.indentedAll indentation 0 siteForest) = .ok rule ∧
      normalize siteMixed = .ok rule := by
  have unindented : ∀ label ∈ Tree.preorderAll siteForest, label.IsUnindented := by
    have begins : ∀ label ∈ Tree.preorderAll siteForest,
        label.name.toList.head?.all (isIndent · == false) = true := by
      decide +kernel
    intro label member c isHead
    simpa [isHead] using begins label member
  have isIndentation : ∀ depth, IsIndentation (indentation depth) := by
    intro depth c member
    simp only [indentation, String.toList_ofList, List.mem_replicate] at member
    rw [member.2]
    rfl
  have deeper : ∀ depth, (indentation depth).length < (indentation (depth + 1)).length := by
    intro depth
    simp only [indentation, String.length_ofList, List.length_replicate]
    omega
  obtain ⟨nested, indented, mixed⟩ :=
    @normalize_written Float _ siteForest unindented indentation isIndentation deeper 0 siteMixed
      siteMixed_written
  have accepted : (normalize siteMixed : Except RuleError (List (RuleTree Float))).isOk = true := by
    decide +kernel
  cases rule : (normalize siteMixed : Except RuleError (List (RuleTree Float))) with
  | error error =>
      rw [rule] at accepted
      cases accepted
  | ok forest => exact ⟨forest, nested.trans (mixed.symm.trans rule),
      indented.trans (mixed.symm.trans rule), rfl⟩

end FuzzyRating
