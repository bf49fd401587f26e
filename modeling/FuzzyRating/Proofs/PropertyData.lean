import FuzzyRating.Proofs.Journal
import FuzzyRating.Proofs.Keyed
import FuzzyRating.PropertyData

/-!
The data of a subject as a map. The order in which its entries came does not matter.
-/

namespace FuzzyRating.PropertyData

variable {num : Type}

theorem get?_eq_some_iff {data : PropertyData num} {key : String} {value : PropertyValue num} :
    data.get? key = some value ↔ (key, value) ∈ data.entries := by
  obtain ⟨entries, distinct⟩ := data
  change entries.lookup key = some value ↔ (key, value) ∈ entries
  induction entries with
  | nil =>
      simp
  | cons entry entries inductionHypothesis =>
      obtain ⟨first, firstValue⟩ := entry
      obtain ⟨fresh, restDistinct⟩ := List.nodup_cons.mp distinct
      by_cases same : key = first
      · subst same
        have notLater : (key, value) ∉ entries := fun member =>
          fresh (List.mem_map.mpr ⟨(key, value), member, rfl⟩)
        simp [notLater, eq_comm]
      · have lookupEq : ((first, firstValue) :: entries).lookup key = entries.lookup key := by
          simp only [List.lookup_cons, beq_eq_false_iff_ne.mpr same]
        rw [lookupEq, inductionHypothesis restDistinct]
        simp [same]

theorem get?_filter (test : String → PropertyValue num → Bool) (data : PropertyData num)
    (key : String) :
    (data.filter test).get? key = (data.get? key).filter (test key) := by
  apply Option.ext
  intro value
  rw [get?_eq_some_iff, Option.filter_eq_some_iff, get?_eq_some_iff]
  exact List.mem_filter

/-! ## The order of entries -/

/-- Data with the same values are entries in some order. -/
theorem perm_entries_iff {data other : PropertyData num} :
    data.entries.Perm other.entries ↔ ∀ key, data.get? key = other.get? key := by
  have dataNodup : data.entries.Nodup := data.distinct.of_map Prod.fst
  have otherNodup : other.entries.Nodup := other.distinct.of_map Prod.fst
  rw [List.perm_ext_iff_of_nodup dataNodup otherNodup]
  constructor
  · intro sameMembers key
    apply Option.ext
    intro value
    rw [get?_eq_some_iff, get?_eq_some_iff]
    exact sameMembers (key, value)
  · rintro sameValues ⟨key, value⟩
    rw [← get?_eq_some_iff, ← get?_eq_some_iff, sameValues key]

theorem sorted_eq_of_perm {data other : PropertyData num}
    (reordered : data.entries.Perm other.entries) :
    data.sorted = other.sorted := by
  refine mergeSort_eq_of_perm Journal.keyOrder_trans Journal.keyOrder_total ?_ reordered
  rintro entry member otherEntry otherMember below above
  -- two entries that stand before each other have one key, and so one value
  have sameKey : entry.1 = otherEntry.1 :=
    String.le_antisymm (of_decide_eq_true below) (of_decide_eq_true above)
  exact List.inj_on_of_nodup_map other.distinct member otherMember sameKey

theorem entries_insert_of_fresh {data : PropertyData num} {key : String}
    (fresh : key ∉ data.entries.map Prod.fst) (value : PropertyValue num) :
    (data.insert key value).entries = (key, value) :: data.entries := by
  have allKept : data.entries.filter (fun entry => entry.1 != key) = data.entries := by
    rw [List.filter_eq_self]
    intro entry member
    rw [bne_iff_ne]
    rintro rfl
    exact fresh (List.mem_map_of_mem member)
  exact congrArg (List.cons (key, value)) allKept

private theorem entries_foldl_insert {entries : List (String × PropertyValue num)}
    {data : PropertyData num}
    (distinct : ((entries ++ data.entries).map Prod.fst).Nodup) :
    (entries.foldl (fun data (key, value) => data.insert key value) data).entries =
      entries.reverse ++ data.entries := by
  induction entries generalizing data with
  | nil => rfl
  | cons entry entries inductionHypothesis =>
      obtain ⟨key, value⟩ := entry
      have fresh : key ∉ data.entries.map Prod.fst := by
        intro inData
        have notLater := (List.nodup_cons.mp distinct).1
        simp only [List.append_eq, List.map_append, List.mem_append] at notLater
        exact notLater (Or.inr inData)
      have inserted := entries_insert_of_fresh fresh value
      rw [List.foldl_cons, inductionHypothesis]
      · simp [inserted]
      · have moved : (entries ++ (key, value) :: data.entries).Perm
            ((key, value) :: entries ++ data.entries) :=
          List.perm_middle
        rw [inserted]
        exact (moved.map Prod.fst).nodup_iff.mpr distinct

theorem entries_ofList {entries : List (String × PropertyValue num)}
    (distinct : (entries.map Prod.fst).Nodup) :
    (ofList entries).entries = entries.reverse := by
  have inserted : (ofList entries).entries = entries.reverse ++ (empty : PropertyData num).entries :=
    entries_foldl_insert (by simpa [empty] using distinct)
  simpa [empty] using inserted

end FuzzyRating.PropertyData
