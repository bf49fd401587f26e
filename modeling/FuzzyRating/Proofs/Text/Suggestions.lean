import FuzzyRating.Proofs.Keyed
import FuzzyRating.Proofs.Text.EditDistance

/-!
Suggestions do not depend on the order in which names are available: nearness and text order
together leave no choice. They are the first three of the available names within reach, where the
reach depends on how many bytes the key takes, and not on how many characters it has.
-/

namespace FuzzyRating.Text

theorem suggestionOrder_iff {a b : Nat × String} :
    suggestionOrder a b = true ↔ a.1 < b.1 ∨ (a.1 = b.1 ∧ a.2 ≤ b.2) := by
  simp [suggestionOrder]

theorem suggestionOrder_trans (a b c : Nat × String) (first : suggestionOrder a b = true)
    (second : suggestionOrder b c = true) :
    suggestionOrder a c = true := by
  rw [suggestionOrder_iff] at first second ⊢
  rcases first with nearer | ⟨sameFirst, belowFirst⟩
  · apply Or.inl
    omega
  · rcases second with nearer | ⟨sameSecond, belowSecond⟩
    · apply Or.inl
      omega
    · exact Or.inr ⟨sameFirst.trans sameSecond, String.le_trans belowFirst belowSecond⟩

theorem suggestionOrder_total (a b : Nat × String) :
    (suggestionOrder a b || suggestionOrder b a) = true := by
  rw [Bool.or_eq_true, suggestionOrder_iff, suggestionOrder_iff]
  by_cases same : a.1 = b.1
  · rcases String.le_total a.2 b.2 with below | above
    · exact Or.inl (Or.inr ⟨same, below⟩)
    · exact Or.inr (Or.inr ⟨same.symm, above⟩)
  · rcases Nat.lt_or_gt_of_ne same with nearer | farther
    · exact Or.inl (Or.inl nearer)
    · exact Or.inr (Or.inl farther)

theorem suggestionOrder_antisymm {a b : Nat × String} (first : suggestionOrder a b = true)
    (second : suggestionOrder b a = true) :
    a = b := by
  rw [suggestionOrder_iff] at first second
  have sameDistance : a.1 = b.1 := by
    omega
  have below : a.2 ≤ b.2 := by
    rcases first with nearer | ⟨_, below⟩
    · omega
    · exact below
  have above : b.2 ≤ a.2 := by
    rcases second with nearer | ⟨_, above⟩
    · omega
    · exact above
  exact Prod.ext sameDistance (String.le_antisymm below above)

theorem suggestions_of_perm {available other : List String} (reordered : available.Perm other)
    (key : String) :
    suggestions key available = suggestions key other := by
  have sortedEq {near otherNear : List (Nat × String)} (sameNear : near.Perm otherNear) :
      near.mergeSort suggestionOrder = otherNear.mergeSort suggestionOrder :=
    mergeSort_eq_of_perm suggestionOrder_trans suggestionOrder_total
      (fun _ _ _ _ => suggestionOrder_antisymm) sameNear
  unfold suggestions
  dsimp only
  rw [sortedEq (reordered.filterMap _)]

/-! ## The nearest names -/

def editsBetween (key name : String) : Nat :=
  distance key.toList name.toList

/-- The available names that differ from the key and are at most `reach` edits away, in order of
the number of edits and then of the text. -/
structure Ranked (reach : Nat) (key : String) (available ranked : List String) : Prop where
  names : ranked.Perm
    (available.filter fun name => decide (name ≠ key ∧ editsBetween key name ≤ reach))
  ordered : ranked.Pairwise fun name other =>
    editsBetween key name < editsBetween key other ∨
      editsBetween key name = editsBetween key other ∧ name ≤ other

/-- The first three of the names within reach. -/
def Suggests (reach : Nat) (key : String) (available names : List String) : Prop :=
  ∃ ranked, Ranked reach key available ranked ∧ names = ranked.take 3

/-- One edit from a key of at most three units of length, two from a longer one. -/
def reachOf (size : Nat) : Nat :=
  if size ≤ 3 then 1 else 2

section Nearest

variable {key : String}

/-- The order of suggestions, on names alone. -/
def nearer (key name other : String) : Bool :=
  suggestionOrder (editsBetween key name, name) (editsBetween key other, other)

/-- Names are sorted as they are together with their distances. -/
theorem suggestions_eq (key : String) (available : List String) :
    suggestions key available =
      ((available.filter fun name =>
        decide (name ≠ key ∧ editsBetween key name ≤ suggestionReach key)).mergeSort
          (nearer key)).take 3 := by
  have scored : (available.filterMap fun name =>
        if name ≠ key ∧ editsBetween key name ≤ suggestionReach key then
          some (editsBetween key name, name) else none) =
      (available.filter fun name =>
        decide (name ≠ key ∧ editsBetween key name ≤ suggestionReach key)).map
          fun name => (editsBetween key name, name) := by
    rw [← List.filterMap_eq_filter, List.map_filterMap]
    apply List.filterMap_congr
    intro name _
    by_cases near : name ≠ key ∧ editsBetween key name ≤ suggestionReach key <;>
      simp [Option.guard, near]
  have sorted := congrArg (fun near => ((near.mergeSort suggestionOrder).take 3).map Prod.snd) scored
  refine Eq.trans sorted ?_
  have sameOrder (names : List String) :
      (names.mergeSort (nearer key)).map (fun name => (editsBetween key name, name)) =
        (names.map fun name => (editsBetween key name, name)).mergeSort suggestionOrder := by
    apply List.map_mergeSort
    intro name _ other _
    rfl
  rw [← sameOrder, ← List.map_take, List.map_map]
  exact List.map_id _

theorem suggests_suggestions (key : String) (available : List String) :
    Suggests (reachOf key.utf8ByteSize) key available (suggestions key available) := by
  refine ⟨_, ⟨List.mergeSort_perm _ _, ?_⟩, suggestions_eq key available⟩
  have sorted := @List.pairwise_mergeSort _ (nearer key)
    (fun _ _ _ => suggestionOrder_trans _ _ _) (fun _ _ => suggestionOrder_total _ _)
  exact (sorted _).imp suggestionOrder_iff.mp

theorem length_le_utf8ByteSize (text : String) : text.length ≤ text.utf8ByteSize := by
  have bound (characters : List Char) :
      characters.length ≤ (String.ofList characters).utf8ByteSize := by
    induction characters with
    | nil => exact Nat.zero_le _
    | cons c rest inductionHypothesis =>
        have positive := c.utf8Size_pos
        rw [String.ofList_cons, String.utf8ByteSize_append, String.utf8ByteSize_singleton,
          List.length_cons]
        omega
  have whole := bound text.toList
  rwa [String.ofList_toList, String.length_toList] at whole

/-- Two more characters are two edits. -/
theorem editsBetween_append (key : String) (c d : Char) :
    editsBetween key (key ++ String.ofList [c, d]) = 2 := by
  have isLeast := isLeast_distance key.toList (key ++ String.ofList [c, d]).toList
  have behind : (key ++ String.ofList [c, d]).toList = key.toList ++ [c, d] := by
    rw [String.toList_append, String.toList_ofList]
  rw [behind] at isLeast
  have atMost : editsBetween key (key ++ String.ofList [c, d]) ≤ 2 := by
    have first : Edit key.toList (key.toList ++ [c]) := by
      simpa using Edit.insert key.toList c []
    have second : Edit (key.toList ++ [c]) (key.toList ++ [c, d]) := by
      simpa using Edit.insert (key.toList ++ [c]) d []
    rw [editsBetween, behind]
    exact isLeast.2 (Edits.step first (Edits.step second (Edits.done _)))
  have atLeast := isLeast.1.length_le
  rw [List.length_append, ← behind] at atLeast
  have two : [c, d].length = 2 := rfl
  rw [editsBetween] at atMost ⊢
  omega

/-- The reach is counted in bytes: where that allows two edits and the number of characters would
allow one, a name with two more characters is suggested. -/
theorem not_suggests_of_short (short : key.length ≤ 3) (long : 3 < key.utf8ByteSize) (c d : Char) :
    ¬ Suggests (reachOf key.length) key [key ++ String.ofList [c, d]]
      (suggestions key [key ++ String.ofList [c, d]]) := by
  have twoEdits := editsBetween_append key c d
  have different : key ++ String.ofList [c, d] ≠ key := by
    intro same
    have lengths := congrArg String.length same
    simp at lengths
  have suggested : suggestions key [key ++ String.ofList [c, d]] =
      [key ++ String.ofList [c, d]] := by
    have inReach : suggestionReach key = 2 := if_neg (by omega)
    rw [suggestions_eq, List.filter_singleton, inReach, twoEdits]
    simp
  rintro ⟨ranked, isRanked, namesEq⟩
  have nothing : ranked = [] := by
    have names := isRanked.names
    have reach : reachOf key.length = 1 := if_pos short
    rw [List.filter_singleton, reach, twoEdits] at names
    simpa using names
  rw [suggested, nothing] at namesEq
  cases namesEq

/-- The suggestions for a key are the first three of the names within reach, by the least number of
edits and then by the text. The reach goes by the bytes of the key, and for all available names this
is what the number of its characters gives if short keys take few bytes. -/
theorem suggestions_nearest (key : String) :
    (∀ source target, IsLeast {count | Edits count source target} (distance source target)) ∧
      (∀ available,
        Suggests (reachOf key.utf8ByteSize) key available (suggestions key available)) ∧
      ((∀ available, Suggests (reachOf key.length) key available (suggestions key available)) ↔
        (key.length ≤ 3 → key.utf8ByteSize ≤ 3)) := by
  refine ⟨isLeast_distance, suggests_suggestions key, ?_, ?_⟩
  · intro byCharacters short
    by_contra long
    exact not_suggests_of_short short (Nat.lt_of_not_le long) 'l' 'e' (byCharacters _)
  · intro agrees available
    have sameReach : reachOf key.length = reachOf key.utf8ByteSize := by
      have atLeast := length_le_utf8ByteSize key
      unfold reachOf
      by_cases short : key.length ≤ 3
      · rw [if_pos short, if_pos (agrees short)]
      · rw [if_neg short, if_neg (by omega)]
    rw [sameReach]
    exact suggests_suggestions key available

/-- A key of three characters in four bytes reaches a name two edits away. -/
theorem suggestions_beyondReach :
    "Höh".length = 3 ∧ suggestions "Höh" ["Höhle"] = ["Höhle"] ∧
      editsBetween "Höh" "Höhle" = 2 ∧
      ¬ Suggests (reachOf "Höh".length) "Höh" ["Höhle"] (suggestions "Höh" ["Höhle"]) := by
  refine ⟨by decide, by decide +kernel, editsBetween_append "Höh" 'l' 'e', ?_⟩
  exact not_suggests_of_short (by decide) (by decide) 'l' 'e'

end Nearest

end FuzzyRating.Text
