import FuzzyRating.Proofs.Rule.Resolve
import FuzzyRating.Proofs.Stretch
import Mathlib.Data.List.Nodup

/-!
The keys of a resolved rule: no two nodes share one, and no key contains a slash.
-/

namespace FuzzyRating

/-! ## Keys at and below a place -/

/-- A key is that of a place, or goes on from it with a point. -/
def AtOrBelow (place key : String) : Prop :=
  ∃ rest, key.toList = place.toList ++ rest ∧ (rest = [] ∨ rest.head? = some '.')

theorem AtOrBelow.refl (key : String) : AtOrBelow key key :=
  ⟨[], by simp, Or.inl rfl⟩

private theorem toList_childKey_some (key : String) (index : Nat) :
    (childKey (some key) index).toList = key.toList ++ '.' :: Nat.toDigits 10 index := by
  simp [childKey]

private theorem toList_childKey_none (index : Nat) :
    (childKey none index).toList = Nat.toDigits 10 index := by
  simp [childKey]

private theorem toList_childKey (parent : Option String) :
    ∃ start, ∀ index, (childKey parent index).toList = start ++ Nat.toDigits 10 index := by
  cases parent with
  | none => exact ⟨[], toList_childKey_none⟩
  | some key => exact ⟨key.toList ++ ['.'], fun index => by simp [toList_childKey_some]⟩

/-- What is at or below a child is below its parent. -/
theorem AtOrBelow.of_childKey {parent key : String} {index : Nat}
    (below : AtOrBelow (childKey (some parent) index) key) :
    AtOrBelow parent key ∧ key ≠ parent := by
  obtain ⟨rest, keyEq, _⟩ := below
  rw [toList_childKey_some] at keyEq
  constructor
  · exact ⟨'.' :: (Nat.toDigits 10 index ++ rest), by simpa using keyEq, Or.inr rfl⟩
  · rintro rfl
    have sameLength := congrArg List.length keyEq
    simp only [List.length_append, List.length_cons] at sameLength
    omega

private theorem ends_of_point {rest : List Char} (ends : rest = [] ∨ rest.head? = some '.') :
    Ends Char.isDigit rest := by
  rcases ends with rfl | point
  · exact Ends.nil
  · intro c isHead
    rw [point] at isHead
    cases isHead
    rfl

/-- Places of different children have nothing below them in common. -/
theorem AtOrBelow.childKey_inj {parent : Option String} {key : String} {first second : Nat}
    (belowFirst : AtOrBelow (childKey parent first) key)
    (belowSecond : AtOrBelow (childKey parent second) key) :
    first = second := by
  obtain ⟨start, childEq⟩ := toList_childKey parent
  obtain ⟨firstRest, firstEq, firstEnds⟩ := belowFirst
  obtain ⟨secondRest, secondEq, secondEnds⟩ := belowSecond
  rw [childEq, List.append_assoc] at firstEq secondEq
  have sameRest := List.append_cancel_left (firstEq.symm.trans secondEq)
  have allDigits (index : Nat) : ∀ c ∈ Nat.toDigits 10 index, c.isDigit = true := fun _ =>
    Nat.isDigit_of_mem_toDigits (by decide) (by decide)
  have sameDigits := (stretch_inj (allDigits first) (allDigits second) (ends_of_point firstEnds)
    (ends_of_point secondEnds) sameRest).1
  have sameValue := congrArg (Nat.ofDigitChars 10 · 0) sameDigits
  simpa using sameValue

/-! ## The keys of a forest -/

variable {num : Type}

theorem atOrBelow_of_mem_preorder {tree : RuleTree num} {place : String}
    (resolved : ResolvedAt place tree) :
    ∀ label ∈ tree.preorder, AtOrBelow place label.key := by
  induction tree using Tree.induction generalizing place with
  | node label children inductionHypothesis =>
      obtain ⟨rfl, _, below⟩ := resolvedAt_node_iff.mp resolved
      intro other member
      rcases Tree.mem_preorder_node_iff.mp member with rfl | ⟨child, childMember, inChild⟩
      · exact AtOrBelow.refl _
      · obtain ⟨index, childEq⟩ := List.getElem?_of_mem childMember
        have belowChild := inductionHypothesis child childMember (below index child childEq) other
          inChild
        exact belowChild.of_childKey.1

private theorem keys_nodup_of {parent : Option String} {trees : List (RuleTree num)}
    (resolved : ResolvedBelow parent trees)
    (each : ∀ tree ∈ trees, (tree.preorder.map Node.key).Nodup) :
    ((Tree.preorderAll trees).map Node.key).Nodup := by
  rw [Tree.preorderAll_eq_flatMap, List.map_flatMap, List.nodup_flatMap]
  refine ⟨each, List.pairwise_iff_getElem.mpr ?_⟩
  intro first second firstIn secondIn earlier key inFirst inSecond
  obtain ⟨firstLabel, firstMember, rfl⟩ := List.mem_map.mp inFirst
  obtain ⟨secondLabel, secondMember, sameKey⟩ := List.mem_map.mp inSecond
  have belowFirst := atOrBelow_of_mem_preorder
    (resolved first _ (List.getElem?_eq_getElem firstIn)) firstLabel firstMember
  have belowSecond := atOrBelow_of_mem_preorder
    (resolved second _ (List.getElem?_eq_getElem secondIn)) secondLabel secondMember
  rw [sameKey] at belowSecond
  have same := belowFirst.childKey_inj belowSecond
  omega

private theorem preorder_keys_nodup {tree : RuleTree num} {place : String}
    (resolved : ResolvedAt place tree) :
    (tree.preorder.map Node.key).Nodup := by
  induction tree using Tree.induction generalizing place with
  | node label children inductionHypothesis =>
      obtain ⟨_, _, below⟩ := resolvedAt_node_iff.mp resolved
      rw [Tree.preorder_node, List.map_cons, List.nodup_cons]
      constructor
      · intro repeated
        obtain ⟨other, member, sameKey⟩ := List.mem_map.mp repeated
        obtain ⟨child, childMember, inChild⟩ := Tree.mem_preorderAll_iff.mp member
        obtain ⟨index, childEq⟩ := List.getElem?_of_mem childMember
        have belowChild := atOrBelow_of_mem_preorder (below index child childEq) other inChild
        exact belowChild.of_childKey.2 sameKey
      · refine keys_nodup_of below fun child member => ?_
        obtain ⟨childPlace, childResolved⟩ := below.of_mem member
        exact inductionHypothesis child member childResolved

/-- No two nodes of a forest have the same key. -/
theorem keys_nodup {parent : Option String} {trees : List (RuleTree num)}
    (resolved : ResolvedBelow parent trees) :
    ((Tree.preorderAll trees).map Node.key).Nodup :=
  keys_nodup_of resolved fun tree member => by
    obtain ⟨place, treeResolved⟩ := resolved.of_mem member
    exact preorder_keys_nodup treeResolved

private theorem slash_not_mem_toDigits (index : Nat) : '/' ∉ Nat.toDigits 10 index := by
  intro member
  have isDigit := Nat.isDigit_of_mem_toDigits (by decide) (by decide) member
  simp at isDigit

private theorem slash_not_mem_of_resolvedAt {tree : RuleTree num} {place : String}
    (resolved : ResolvedAt place tree) (clean : '/' ∉ place.toList) :
    ∀ label ∈ tree.preorder, '/' ∉ label.key.toList := by
  induction tree using Tree.induction generalizing place with
  | node label children inductionHypothesis =>
      obtain ⟨rfl, _, below⟩ := resolvedAt_node_iff.mp resolved
      intro other member
      rcases Tree.mem_preorder_node_iff.mp member with rfl | ⟨child, childMember, inChild⟩
      · exact clean
      · obtain ⟨index, childEq⟩ := List.getElem?_of_mem childMember
        have childClean : '/' ∉ (childKey (some label.key) index).toList := by
          rw [toList_childKey_some]
          simp [clean, slash_not_mem_toDigits]
        exact inductionHypothesis child childMember (below index child childEq) childClean other
          inChild

/-- No key of a rule contains the sign that stands between the keys of nested rules. -/
theorem slash_not_mem_key {trees : List (RuleTree num)} (resolved : ResolvedBelow none trees) :
    ∀ label ∈ Tree.preorderAll trees, '/' ∉ label.key.toList := by
  intro label member
  obtain ⟨tree, treeMember, inTree⟩ := Tree.mem_preorderAll_iff.mp member
  obtain ⟨index, treeEq⟩ := List.getElem?_of_mem treeMember
  have clean : '/' ∉ (childKey none index).toList := by
    rw [toList_childKey_none]
    exact slash_not_mem_toDigits index
  exact slash_not_mem_of_resolvedAt (resolved index tree treeEq) clean label inTree

end FuzzyRating
