import Mathlib.Data.List.Nodup
import Mathlib.Order.Lattice

/-!
Lists whose entries have keys: what is found under a key, and the one order that entries with
different keys are sorted to.
-/

namespace FuzzyRating

variable {alpha kappa : Type}

section Finding

variable [BEq kappa] [LawfulBEq kappa]

/-- Where keys differ, the entry that is found under a key is the one that has it. -/
theorem find?_key_eq_some_iff {key : alpha → kappa} {entries : List alpha} {entry : alpha}
    (distinct : (entries.map key).Nodup) {wanted : kappa} :
    entries.find? (key · == wanted) = some entry ↔ entry ∈ entries ∧ key entry = wanted := by
  constructor
  · intro found
    have sameKey := List.find?_some found
    exact ⟨List.mem_of_find?_eq_some found, beq_iff_eq.mp sameKey⟩
  · rintro ⟨member, rfl⟩
    cases found : entries.find? (key · == key entry) with
    | none =>
        have absent := List.find?_eq_none.mp found entry member
        exact absurd (beq_self_eq_true (key entry)) absent
    | some other =>
        have sameKey := List.find?_some found
        rw [List.inj_on_of_nodup_map distinct (List.mem_of_find?_eq_some found) member
          (beq_iff_eq.mp sameKey)]

/-- What is found under a key is an entry of that key. -/
theorem mem_of_lookup {entries : List (kappa × alpha)} {key : kappa} {value : alpha}
    (found : entries.lookup key = some value) : (key, value) ∈ entries := by
  obtain ⟨before, after, equality, _⟩ := List.lookup_eq_some_iff.mp found
  rw [equality]
  exact List.mem_append_right before List.mem_cons_self

end Finding

/-! ## Sorting -/

theorem pairwise_mergeSort_key [LinearOrder kappa] (key : alpha → kappa) (entries : List alpha) :
    (entries.mergeSort fun a b => decide (key a ≤ key b)).Pairwise fun a b => key a ≤ key b := by
  have transitive (a b c : alpha) (first : decide (key a ≤ key b) = true)
      (second : decide (key b ≤ key c) = true) : decide (key a ≤ key c) = true :=
    decide_eq_true (le_trans (of_decide_eq_true first) (of_decide_eq_true second))
  have total (a b : alpha) : (decide (key a ≤ key b) || decide (key b ≤ key a)) = true := by
    simpa using le_total (key a) (key b)
  exact (List.pairwise_mergeSort transitive total entries).imp of_decide_eq_true

/-- Where no two entries tie, sorting does not see the order they came in. -/
theorem mergeSort_eq_of_perm {atMost : alpha → alpha → Bool}
    (transitive : ∀ a b c, atMost a b = true → atMost b c = true → atMost a c = true)
    (total : ∀ a b, (atMost a b || atMost b a) = true) {entries others : List alpha}
    (noTies : ∀ a ∈ entries, ∀ b ∈ entries, atMost a b = true → atMost b a = true → a = b)
    (same : others.Perm entries) : others.mergeSort atMost = entries.mergeSort atMost := by
  have sortedSame : (others.mergeSort atMost).Perm (entries.mergeSort atMost) :=
    (List.mergeSort_perm others atMost).trans
      (same.trans (List.mergeSort_perm entries atMost).symm)
  refine sortedSame.eq_of_pairwise ?_ (List.pairwise_mergeSort transitive total others)
    (List.pairwise_mergeSort transitive total entries)
  intro a b aMember bMember first second
  exact noTies a (same.mem_iff.mp (List.mem_mergeSort.mp aMember)) b
    (List.mem_mergeSort.mp bMember) first second

end FuzzyRating
