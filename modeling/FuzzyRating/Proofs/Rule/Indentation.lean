import Mathlib.Tactic.Common

/-!
What the widths of sibling nodes say: which node fits behind those before it, which one is its
parent, and which ones are still open behind a number of them.
-/

namespace FuzzyRating

variable {widths : Nat → Nat} {parent child count i j : Nat}

/-! ## Parents -/

/-- The nearest earlier node that is indented less. -/
def IsParent (widths : Nat → Nat) (parent child : Nat) : Prop :=
  parent < child ∧ widths parent < widths child ∧
    ∀ m < child, parent < m → widths child ≤ widths m

/-- No earlier node is indented less. -/
def IsTop (widths : Nat → Nat) (i : Nat) : Prop :=
  ∀ m < i, widths i ≤ widths m

instance : Decidable (IsParent widths parent child) :=
  inferInstanceAs (Decidable (_ ∧ _ ∧ _))

instance : Decidable (IsTop widths i) :=
  inferInstanceAs (Decidable (∀ m < i, _))

theorem IsParent.unique {other : Nat} (isParent : IsParent widths parent child)
    (otherParent : IsParent widths other child) :
    parent = other := by
  obtain ⟨before, less, between⟩ := isParent
  obtain ⟨otherBefore, otherLess, otherBetween⟩ := otherParent
  rcases Nat.lt_trichotomy parent other with lower | same | higher
  · have := between other otherBefore lower
    omega
  · exact same
  · have := otherBetween parent before higher
    omega

theorem IsParent.not_isTop (isParent : IsParent widths parent child) : ¬IsTop widths child := by
  intro isTop
  have := isTop parent isParent.1
  have := isParent.2.1
  omega

theorem isTop_or_exists_isParent (widths : Nat → Nat) (i : Nat) :
    IsTop widths i ∨ ∃ parent, IsParent widths parent i := by
  -- the nodes before `i` are searched from the first one on
  suffices upTo : ∀ n ≤ i, (∀ m < n, widths i ≤ widths m) ∨
      ∃ parent < n, widths parent < widths i ∧
        ∀ m < n, parent < m → widths i ≤ widths m by
    rcases upTo i (Nat.le_refl i) with isTop | ⟨parent, before, less, between⟩
    · exact Or.inl isTop
    · exact Or.inr ⟨parent, before, less, between⟩
  intro n
  induction n with
  | zero =>
      intro _
      exact Or.inl fun m impossible => absurd impossible (Nat.not_lt_zero m)
  | succ n inductionHypothesis =>
      intro within
      by_cases less : widths n < widths i
      · exact Or.inr ⟨n, Nat.lt_succ_self n, less, fun m before behind => by omega⟩
      · rcases inductionHypothesis (by omega) with none | ⟨parent, before, parentLess, between⟩
        · refine Or.inl fun m before => ?_
          rcases Nat.lt_succ_iff_lt_or_eq.mp before with earlier | rfl
          · exact none m earlier
          · omega
        · refine Or.inr ⟨parent, by omega, parentLess, fun m mBefore behind => ?_⟩
          rcases Nat.lt_succ_iff_lt_or_eq.mp mBefore with earlier | rfl
          · exact between m earlier behind
          · omega

/-- The children of a node among the first `count` nodes. -/
def childrenBefore (widths : Nat → Nat) (count i : Nat) : List Nat :=
  (List.range count).filter fun child => IsParent widths i child

/-- The nodes without a parent among the first `count` nodes. -/
def topsBefore (widths : Nat → Nat) (count : Nat) : List Nat :=
  (List.range count).filter fun i => IsTop widths i

theorem mem_childrenBefore_iff :
    child ∈ childrenBefore widths count i ↔ child < count ∧ IsParent widths i child := by
  simp [childrenBefore]

theorem childrenBefore_succ_of_isParent (isParent : IsParent widths i count) :
    childrenBefore widths (count + 1) i = childrenBefore widths count i ++ [count] := by
  simp [childrenBefore, List.range_succ, isParent]

theorem childrenBefore_succ_of_not (notParent : ¬IsParent widths i count) :
    childrenBefore widths (count + 1) i = childrenBefore widths count i := by
  simp [childrenBefore, List.range_succ, notParent]

theorem topsBefore_succ_of_isTop (isTop : IsTop widths count) :
    topsBefore widths (count + 1) = topsBefore widths count ++ [count] := by
  simp [topsBefore, List.range_succ, isTop]

theorem topsBefore_succ_of_not (notTop : ¬IsTop widths count) :
    topsBefore widths (count + 1) = topsBefore widths count := by
  simp [topsBefore, List.range_succ, notTop]

theorem childrenBefore_eq_of_le {later : Nat} (closing : widths count ≤ widths i)
    (isBefore : i < count) (within : count ≤ later) :
    childrenBefore widths later i = childrenBefore widths count i := by
  obtain ⟨extra, rfl⟩ := Nat.exists_eq_add_of_le within
  induction extra with
  | zero => rfl
  | succ extra inductionHypothesis =>
      rw [← Nat.add_assoc, childrenBefore_succ_of_not, inductionHypothesis (Nat.le_add_right _ _)]
      rintro ⟨_, less, between⟩
      by_cases isNext : extra = 0
      · subst isNext
        rw [Nat.add_zero] at less
        omega
      · have := between count (by omega) isBefore
        omega

/-! ## Open nodes -/

/-- The nodes, last first, that no later one of the first `count` nodes has closed. -/
def openBefore (widths : Nat → Nat) : Nat → List Nat
  | 0 => []
  | count + 1 => count :: (openBefore widths count).filter (widths · < widths count)

theorem mem_openBefore_iff :
    i ∈ openBefore widths count ↔ i < count ∧ ∀ m < count, i < m → widths i < widths m := by
  induction count with
  | zero => simp [openBefore]
  | succ count inductionHypothesis =>
      rw [openBefore, List.mem_cons, List.mem_filter, inductionHypothesis]
      constructor
      · rintro (rfl | ⟨⟨before, later⟩, less⟩)
        · exact ⟨Nat.lt_succ_self i, fun m within behind => by omega⟩
        · refine ⟨by omega, fun m within behind => ?_⟩
          rcases Nat.lt_succ_iff_lt_or_eq.mp within with earlier | rfl
          · exact later m earlier behind
          · simpa using less
      · rintro ⟨before, later⟩
        rcases Nat.lt_succ_iff_lt_or_eq.mp before with earlier | rfl
        · have less := later count (Nat.lt_succ_self count) earlier
          exact Or.inr ⟨⟨earlier, fun m within => later m (by omega)⟩, by simpa using less⟩
        · exact Or.inl rfl

theorem openBefore_pairwise (widths : Nat → Nat) (count : Nat) :
    (openBefore widths count).Pairwise fun a b => b < a ∧ widths b < widths a := by
  induction count with
  | zero => exact List.Pairwise.nil
  | succ count inductionHypothesis =>
      refine List.pairwise_cons.mpr ⟨?_, inductionHypothesis.filter _⟩
      intro outer member
      obtain ⟨isOpen, less⟩ := List.mem_filter.mp member
      exact ⟨(mem_openBefore_iff.mp isOpen).1, by simpa using less⟩

/-- The open nodes stand in the order of their widths, so those that stay open come behind those
that are closed. -/
theorem dropWhile_openBefore (widths : Nat → Nat) (count width : Nat) :
    (openBefore widths count).dropWhile (fun i => width ≤ widths i) =
      (openBefore widths count).filter (widths · < width) := by
  have sorted := openBefore_pairwise widths count
  generalize openBefore widths count = opened at sorted
  induction opened with
  | nil => rfl
  | cons first opened inductionHypothesis =>
      obtain ⟨inside, restSorted⟩ := List.pairwise_cons.mp sorted
      by_cases closed : width ≤ widths first
      · rw [List.dropWhile_cons_of_pos (by simpa using closed),
          List.filter_cons_of_neg (by simpa using closed), inductionHypothesis restSorted]
      · rw [List.dropWhile_cons_of_neg (by simpa using closed), eq_comm, List.filter_eq_self]
        intro outer member
        rcases List.mem_cons.mp member with rfl | inRest
        · simpa using closed
        · have := (inside outer inRest).2
          simp only [decide_eq_true_eq]
          omega

theorem isParent_of_filter_eq {width : Nat} {outer : List Nat} (isWidth : widths count = width)
    (staysOpen : (openBefore widths count).filter (widths · < width) = i :: outer) :
    IsParent widths i count := by
  subst isWidth
  have member : i ∈ (openBefore widths count).filter (widths · < widths count) := by
    rw [staysOpen]
    exact List.mem_cons_self
  obtain ⟨isOpen, less⟩ := List.mem_filter.mp member
  simp only [decide_eq_true_eq] at less
  have before := (mem_openBefore_iff.mp isOpen).1
  rcases isTop_or_exists_isParent widths count with isTop | ⟨parent, isParent⟩
  · have := isTop i before
    omega
  · have parentOpen : parent ∈ i :: outer := by
      rw [← staysOpen, List.mem_filter, mem_openBefore_iff]
      refine ⟨⟨isParent.1, fun m within behind => ?_⟩, by simpa using isParent.2.1⟩
      exact Nat.lt_of_lt_of_le isParent.2.1 (isParent.2.2 m within behind)
    rcases List.mem_cons.mp parentOpen with rfl | isOuter
    · exact isParent
    · have sorted := (openBefore_pairwise widths count).filter (widths · < widths count)
      rw [staysOpen] at sorted
      have isBefore := ((List.pairwise_cons.mp sorted).1 parent isOuter).1
      have := isParent.2.2 i before isBefore
      omega

theorem isTop_of_filter_eq_nil
    (noneOpen : (openBefore widths count).filter (widths · < widths count) = []) :
    IsTop widths count := by
  rcases isTop_or_exists_isParent widths count with isTop | ⟨parent, isParent⟩
  · exact isTop
  · have parentOpen : parent ∈ openBefore widths count := by
      refine mem_openBefore_iff.mpr ⟨isParent.1, fun m within behind => ?_⟩
      exact Nat.lt_of_lt_of_le isParent.2.1 (isParent.2.2 m within behind)
    have closed := List.filter_eq_nil_iff.mp noneOpen parent parentOpen
    exact absurd isParent.2.1 (by simpa using closed)

/-! ## Nodes that fit -/

/-- A node fits if it is the first one, if it is indented further than the node before it, or if it
is indented like an earlier node behind which none is indented less. -/
def Fits (widths : Nat → Nat) (i : Nat) : Prop :=
  i = 0 ∨ widths (i - 1) < widths i ∨
    ∃ j < i, widths j = widths i ∧ ∀ m < i, j < m → widths i ≤ widths m

instance : Decidable (Fits widths i) :=
  inferInstanceAs (Decidable (_ ∨ _ ∨ ∃ j < i, _ ∧ ∀ m < i, _))

private theorem exists_open_of_eq {width : Nat} (isBefore : j < count) (isWidth : widths j = width)
    (between : ∀ m < count, j < m → width ≤ widths m) :
    ∃ i ∈ openBefore widths count, widths i = width := by
  -- the last of the nodes that are indented like this is open
  obtain ⟨distance, distanceEq⟩ : ∃ distance, count = j + distance := ⟨count - j, by omega⟩
  induction distance using Nat.strongRecOn generalizing j with
  | ind distance inductionHypothesis =>
      by_cases again : ∃ m < count, j < m ∧ widths m = width
      · obtain ⟨m, within, behind, sameWidth⟩ := again
        exact inductionHypothesis (count - m) (by omega) within sameWidth
          (fun n nWithin nBehind => between n nWithin (by omega)) (by omega)
      · refine ⟨j, mem_openBefore_iff.mpr ⟨isBefore, fun m within behind => ?_⟩, isWidth⟩
        have atLeast := between m within behind
        have different : widths m ≠ width := fun same => again ⟨m, within, behind, same⟩
        omega

/-- A node of this width has a place behind open nodes of these widths, innermost first. -/
def HasPlace (opened : List Nat) (width : Nat) : Prop :=
  opened = [] ∨ (∃ last outer, opened = last :: outer ∧ last < width) ∨ width ∈ opened

theorem hasPlace_cons_iff {last width : Nat} {outer : List Nat} :
    HasPlace (last :: outer) width ↔ last < width ∨ width ∈ last :: outer := by
  simp [HasPlace]

theorem not_hasPlace_of_lt {opened : List Nat} {width : Nat} (nonempty : opened ≠ [])
    (deeper : ∀ other ∈ opened, width < other) :
    ¬HasPlace opened width := by
  rintro (none | ⟨last, outer, rfl, less⟩ | member)
  · exact nonempty none
  · exact Nat.lt_asymm less (deeper last List.mem_cons_self)
  · exact Nat.lt_irrefl width (deeper width member)

/-- Whether a node fits can be seen from the nodes that are open. -/
theorem fits_iff_hasPlace :
    Fits widths count ↔ HasPlace ((openBefore widths count).map widths) (widths count) := by
  cases count with
  | zero => simp [Fits, HasPlace, openBefore]
  | succ before =>
      have lastOpen : openBefore widths (before + 1) =
          before :: (openBefore widths before).filter (widths · < widths before) := rfl
      constructor
      · rintro (impossible | deeper | ⟨j, isBefore, sameWidth, between⟩)
        · cases impossible
        · exact Or.inr (Or.inl ⟨widths before, _, by rw [lastOpen, List.map_cons], deeper⟩)
        · exact Or.inr (Or.inr (List.mem_map.mpr (exists_open_of_eq isBefore sameWidth between)))
      · rintro (noneOpen | ⟨last, outer, openEq, deeper⟩ | isOpenWidth)
        · rw [lastOpen, List.map_cons] at noneOpen
          cases noneOpen
        · rw [lastOpen, List.map_cons, List.cons.injEq] at openEq
          exact Or.inr (Or.inl (openEq.1 ▸ deeper))
        · obtain ⟨i, isOpen, sameWidth⟩ := List.mem_map.mp isOpenWidth
          obtain ⟨isBefore, later⟩ := mem_openBefore_iff.mp isOpen
          refine Or.inr (Or.inr ⟨i, isBefore, sameWidth, fun m within behind => ?_⟩)
          have := later m within behind
          omega

/-- As long as all nodes fit, the outermost open node is indented like the first node. -/
theorem getLast?_openBefore_succ (fits : Fits widths count) :
    ((openBefore widths (count + 1)).map widths).getLast? =
      some (((openBefore widths count).map widths).getLast?.getD (widths count)) := by
  have staysOpen := dropWhile_openBefore widths count (widths count)
  obtain ⟨closed, split⟩ := List.dropWhile_suffix
    (fun i => decide (widths count ≤ widths i)) (l := openBefore widths count)
  rw [openBefore, ← staysOpen, List.map_cons, List.getLast?_cons]
  cases kept : (openBefore widths count).dropWhile (fun i => widths count ≤ widths i) with
  | cons first rest =>
      rw [kept] at split
      rw [← split, List.map_append, List.getLast?_append, List.map_cons, List.getLast?_cons]
      rfl
  | nil =>
      rw [kept, eq_comm, List.filter_eq_nil_iff] at staysOpen
      cases outermost : (openBefore widths count).getLast? with
      | none => simp [outermost]
      | some last =>
          -- a node that closes all others is indented like the outermost of them
          obtain ⟨inner, openEq⟩ := List.getLast?_eq_some_iff.mp outermost
          have sorted := openBefore_pairwise widths count
          have atMost : ∀ i ∈ openBefore widths count, widths last ≤ widths i := by
            rw [openEq, List.pairwise_append] at sorted
            rw [openEq]
            intro i member
            rcases List.mem_append.mp member with isInner | isLast
            · exact Nat.le_of_lt (sorted.2.2 i isInner last (List.mem_singleton_self last)).2
            · exact Nat.le_of_eq (congrArg widths (List.mem_singleton.mp isLast).symm)
          have isOpen : last ∈ openBefore widths count := List.mem_of_getLast? outermost
          have atLeast : ∀ i ∈ openBefore widths count, widths count ≤ widths i := by
            simpa using staysOpen
          have sameWidth : widths last = widths count := by
            rcases fits_iff_hasPlace.mp fits with
              noneOpen | ⟨first, rest, firstEq, deeper⟩ | isOpenWidth
            · rw [List.map_eq_nil_iff.mp noneOpen] at isOpen
              cases isOpen
            · obtain ⟨i, _, openCons, rfl, _⟩ := List.map_eq_cons_iff.mp firstEq
              have := atLeast i (openCons ▸ List.mem_cons_self)
              omega
            · obtain ⟨i, iOpen, iWidth⟩ := List.mem_map.mp isOpenWidth
              have := atMost i iOpen
              have := atLeast last isOpen
              omega
          simp [outermost, sameWidth]

end FuzzyRating
