import FuzzyRating.Journal
import FuzzyRating.Proofs.Keyed

/-!
Journals as maps: what is current under a key is the newest entry of that key.
-/

namespace FuzzyRating.Journal

variable {alpha : Type}

theorem keyOrder_trans (a b c : String × alpha)
    (first : decide (a.1 ≤ b.1) = true) (second : decide (b.1 ≤ c.1) = true) :
    decide (a.1 ≤ c.1) = true := by
  simp only [decide_eq_true_eq] at *
  exact String.le_trans first second

theorem keyOrder_total (a b : String × alpha) :
    (decide (a.1 ≤ b.1) || decide (b.1 ≤ a.1)) = true := by
  simpa using String.le_total a.1 b.1

/-- The first entry does not matter to other keys. -/
theorem lookup_cons_of_ne {key first : String} (different : key ≠ first) (value : alpha)
    (rest : List (String × alpha)) :
    ((first, value) :: rest).lookup key = rest.lookup key := by
  simp only [List.lookup_cons, beq_eq_false_iff_ne.mpr different]

/-- The entries of one key. -/
private def ofKey (key : String) (entries : List (String × alpha)) : List (String × alpha) :=
  entries.filter fun entry => entry.1 == key

private theorem lookup_eq_head_ofKey (key : String) (entries : List (String × alpha)) :
    entries.lookup key = (ofKey key entries).head?.map Prod.snd := by
  induction entries with
  | nil =>
      rfl
  | cons entry entries inductionHypothesis =>
      obtain ⟨first, value⟩ := entry
      by_cases same : key = first
      · subst same
        simp [ofKey]
      · rw [lookup_cons_of_ne same, inductionHypothesis]
        simp [ofKey, Ne.symm same]

theorem sorted_pairwise (entries : List (String × alpha)) :
    (entries.mergeSort fun a b => decide (a.1 ≤ b.1)).Pairwise (·.1 ≤ ·.1) := by
  have sorted := List.pairwise_mergeSort keyOrder_trans keyOrder_total entries
  simpa using sorted

/-- Sorting by keys is stable: the entries of one key keep their order. -/
private theorem ofKey_sorted (key : String) (entries : List (String × alpha)) :
    ofKey key (entries.mergeSort fun a b => decide (a.1 ≤ b.1)) = ofKey key entries := by
  have sameKey : (ofKey key entries).Pairwise fun a b => decide (a.1 ≤ b.1) = true := by
    refine List.pairwise_of_forall_mem_list fun a inFirst b inSecond => ?_
    have firstKey : a.1 = key := by simpa [ofKey] using (List.mem_filter.mp inFirst).2
    have secondKey : b.1 = key := by simpa [ofKey] using (List.mem_filter.mp inSecond).2
    simp [firstKey, secondKey]
  have contained : (ofKey key entries).Sublist
      (entries.mergeSort fun a b => decide (a.1 ≤ b.1)) :=
    List.sublist_mergeSort keyOrder_trans keyOrder_total sameKey List.filter_sublist
  have within : (ofKey key entries).Sublist
      (ofKey key (entries.mergeSort fun a b => decide (a.1 ≤ b.1))) := by
    have filtered := contained.filter fun entry => entry.1 == key
    simpa [ofKey] using filtered
  have sameLength : (ofKey key entries).length =
      (ofKey key (entries.mergeSort fun a b => decide (a.1 ≤ b.1))).length :=
    ((List.mergeSort_perm entries _).filter _).length_eq.symm
  exact (within.eq_of_length sameLength).symm

theorem lookup_sorted (key : String) (entries : List (String × alpha)) :
    (entries.mergeSort fun a b => decide (a.1 ≤ b.1)).lookup key = entries.lookup key := by
  rw [lookup_eq_head_ofKey, lookup_eq_head_ofKey, ofKey_sorted]

/-- In sorted entries none of which stands before the key `last`, only the first one of each key
other than `last` is kept. -/
private theorem mem_dropRepeats_iff {key : String} {value : alpha} :
    ∀ {entries : List (String × alpha)} {last : Option String},
      entries.Pairwise (·.1 ≤ ·.1) →
      (∀ lastKey ∈ last, ∀ entry ∈ entries, lastKey ≤ entry.1) →
      ((key, value) ∈ dropRepeats last entries ↔
        last ≠ some key ∧ entries.lookup key = some value)
  | [], last, _, _ => by
      simp [dropRepeats]
  | (first, firstValue) :: rest, last, sorted, bounded => by
      have restSorted := (List.pairwise_cons.mp sorted).2
      have restBounded : ∀ lastKey ∈ some first, ∀ entry ∈ rest, lastKey ≤ entry.1 := by
        rintro lastKey ⟨⟩
        exact (List.pairwise_cons.mp sorted).1
      rw [dropRepeats]
      by_cases repeated : last = some first
      · subst repeated
        rw [if_pos rfl, mem_dropRepeats_iff restSorted restBounded]
        by_cases same : key = first
        · simp [same]
        · rw [lookup_cons_of_ne same]
      · rw [if_neg repeated, List.mem_cons, mem_dropRepeats_iff restSorted restBounded]
        by_cases same : key = first
        · subst same
          simp [repeated, eq_comm]
        · have notLast : rest.lookup key = some value → last ≠ some key := by
            rintro found rfl
            have inRest : (key, value) ∈ rest := by
              obtain ⟨before, after, equality, _⟩ := List.lookup_eq_some_iff.mp found
              rw [equality]
              exact List.mem_append_right before List.mem_cons_self
            have lower : key ≤ first := bounded key rfl _ List.mem_cons_self
            have upper : first ≤ key := restBounded first rfl _ inRest
            exact same (String.le_antisymm lower upper)
          rw [lookup_cons_of_ne same]
          simp only [Prod.mk.injEq, same, false_and, false_or, ne_eq, Option.some.injEq,
            Ne.symm same, not_false_eq_true, true_and]
          exact ⟨fun found => ⟨notLast found, found⟩, And.right⟩

/-- The current entry of a key is the newest one. -/
theorem mem_current_iff {journal : Journal alpha} {key : String} {value : alpha} :
    (key, value) ∈ current journal ↔ journal.lookup key = some value := by
  unfold current
  have noLast : ∀ lastKey ∈ (none : Option String),
      ∀ entry ∈ journal.mergeSort fun a b => decide (a.1 ≤ b.1), lastKey ≤ entry.1 := by
    rintro lastKey ⟨⟩
  rw [mem_dropRepeats_iff (sorted_pairwise journal) noLast, lookup_sorted]
  simp

private theorem dropRepeats_keys_nodup {entries : Journal alpha} {last : Option String}
    (sorted : entries.Pairwise (·.1 ≤ ·.1))
    (bounded : ∀ lastKey ∈ last, ∀ entry ∈ entries, lastKey ≤ entry.1) :
    ((dropRepeats last entries).map Prod.fst).Nodup := by
  induction entries generalizing last with
  | nil => simp [dropRepeats]
  | cons entry rest inductionHypothesis =>
      obtain ⟨first, value⟩ := entry
      have restSorted := (List.pairwise_cons.mp sorted).2
      have restBounded : ∀ lastKey ∈ some first, ∀ entry ∈ rest, lastKey ≤ entry.1 := by
        rintro lastKey ⟨⟩
        exact (List.pairwise_cons.mp sorted).1
      rw [dropRepeats]
      by_cases repeated : last = some first
      · rw [if_pos repeated]
        exact inductionHypothesis restSorted fun lastKey isLast other member =>
          bounded lastKey isLast other (List.mem_cons_of_mem _ member)
      · rw [if_neg repeated, List.map_cons, List.nodup_cons]
        refine ⟨?_, inductionHypothesis restSorted restBounded⟩
        intro again
        obtain ⟨other, otherMember, sameKey⟩ := List.mem_map.mp again
        have kept := (mem_dropRepeats_iff restSorted restBounded).mp otherMember
        exact kept.1 (congrArg some sameKey.symm)

/-- Every key has one current entry at most. -/
theorem current_keys_nodup (journal : Journal alpha) :
    ((current journal).map Prod.fst).Nodup := by
  refine dropRepeats_keys_nodup (sorted_pairwise journal) ?_
  rintro lastKey ⟨⟩

/-- Every key of a journal has a current entry. -/
theorem exists_mem_current {journal : Journal alpha} {entry : String × alpha}
    (member : entry ∈ journal) :
    ∃ value, (entry.1, value) ∈ current journal := by
  cases found : journal.lookup entry.1 with
  | some value =>
      exact ⟨value, mem_current_iff.mpr found⟩
  | none =>
      have absent := List.lookup_eq_none_iff.mp found entry member
      simp at absent

theorem mem_keys_current_iff {journal : Journal alpha} {key : String} :
    key ∈ (current journal).map Prod.fst ↔ key ∈ journal.map Prod.fst := by
  constructor
  · intro isKey
    obtain ⟨entry, isCurrent, rfl⟩ := List.mem_map.mp isKey
    exact List.mem_map_of_mem (mem_of_lookup (mem_current_iff.mp isCurrent))
  · intro isKey
    obtain ⟨entry, member, rfl⟩ := List.mem_map.mp isKey
    obtain ⟨value, isCurrent⟩ := exists_mem_current member
    exact List.mem_map.mpr ⟨_, isCurrent, rfl⟩

theorem keys_current_perm {journal : Journal alpha} (distinct : (journal.map Prod.fst).Nodup) :
    ((current journal).map Prod.fst).Perm (journal.map Prod.fst) :=
  (List.perm_ext_iff_of_nodup (current_keys_nodup journal) distinct).mpr fun _ =>
    mem_keys_current_iff

/-- When a key says which entry it is, every entry is current. -/
theorem mem_current_iff_of_unique {journal : Journal alpha}
    (unique : ∀ first ∈ journal, ∀ second ∈ journal, first.1 = second.1 → first = second)
    {entry : String × alpha} :
    entry ∈ current journal ↔ entry ∈ journal := by
  have inJournal {other : String × alpha} (isCurrent : other ∈ current journal) :
      other ∈ journal :=
    mem_of_lookup (mem_current_iff.mp isCurrent)
  constructor
  · exact inJournal
  · intro member
    obtain ⟨value, isCurrent⟩ := exists_mem_current member
    rwa [unique entry member _ (inJournal isCurrent) rfl]

theorem dropRepeats_map {beta : Type} (change : alpha → beta) (last : Option String)
    (entries : Journal alpha) :
    dropRepeats last (entries.map (Prod.map id change)) =
      (dropRepeats last entries).map (Prod.map id change) := by
  induction entries generalizing last with
  | nil => rfl
  | cons entry rest inductionHypothesis =>
      obtain ⟨key, value⟩ := entry
      rw [List.map_cons, Prod.map_apply, id, dropRepeats, dropRepeats]
      by_cases repeated : last = some key
      · rw [if_pos repeated, if_pos repeated, inductionHypothesis]
      · rw [if_neg repeated, if_neg repeated, List.map_cons, inductionHypothesis]
        rfl

/-- Which entries are current depends on the keys alone. -/
theorem current_map {beta : Type} (change : alpha → beta) (journal : Journal alpha) :
    current (journal.map (Prod.map id change)) =
      (current journal).map (Prod.map id change) := by
  have sameOrder : ∀ a ∈ journal, ∀ b ∈ journal, decide (a.1 ≤ b.1) =
      decide ((Prod.map id change a).1 ≤ (Prod.map id change b).1) :=
    fun _ _ _ _ => rfl
  have sorted : (journal.map (Prod.map id change)).mergeSort (fun a b => decide (a.1 ≤ b.1)) =
      (journal.mergeSort fun a b => decide (a.1 ≤ b.1)).map (Prod.map id change) :=
    (List.map_mergeSort sameOrder).symm
  rw [current, current, sorted, dropRepeats_map]

/-- Entries of which all keys get `front` in front. -/
def under (front : String) (entries : Journal alpha) : Journal alpha :=
  entries.map fun entry => (front ++ entry.1, entry.2)

theorem under_append (front : String) (early late : Journal alpha) :
    under front (early ++ late) = under front early ++ under front late :=
  List.map_append

theorem lookup_under (front key : String) (entries : Journal alpha) :
    (under front entries).lookup (front ++ key) = entries.lookup key := by
  induction entries with
  | nil =>
      rfl
  | cons entry entries inductionHypothesis =>
      obtain ⟨first, value⟩ := entry
      change ((front ++ first, value) :: under front entries).lookup (front ++ key) = _
      by_cases same : key = first
      · subst same
        simp only [List.lookup_cons, beq_self_eq_true]
      · have different : front ++ key ≠ front ++ first := fun equal =>
          same ((String.append_right_inj front).mp equal)
        rw [lookup_cons_of_ne same, lookup_cons_of_ne different, inductionHypothesis]

/-- Entries of other keys do not matter to what is found under a key. -/
theorem lookup_append_of_ne {key : String} {front : Journal alpha}
    (different : ∀ entry ∈ front, entry.1 ≠ key) (rest : Journal alpha) :
    (front ++ rest).lookup key = rest.lookup key := by
  have notFound : front.lookup key = none := by
    rw [List.lookup_eq_none_iff]
    intro entry member
    exact bne_iff_ne.mpr (different entry member).symm
  rw [List.lookup_append, notFound, Option.none_or]

end FuzzyRating.Journal
