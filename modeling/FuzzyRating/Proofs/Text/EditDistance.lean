import FuzzyRating.Text.Distance
import Mathlib.Order.Bounds.Defs

/-!
The distance between two texts, which is computed row by row, is the least number of insertions,
deletions and replacements of single characters that lead from one to the other.
-/

namespace FuzzyRating.Text

/-! ## Edits -/

/-- One character is put in, left out or replaced. -/
inductive Edit : List Char → List Char → Prop
  | insert (front : List Char) (c : Char) (back : List Char) :
      Edit (front ++ back) (front ++ c :: back)
  | delete (front : List Char) (c : Char) (back : List Char) :
      Edit (front ++ c :: back) (front ++ back)
  | replace (front : List Char) (c d : Char) (back : List Char) :
      Edit (front ++ c :: back) (front ++ d :: back)

/-- So many edits, one after the other. -/
inductive Edits : Nat → List Char → List Char → Prop
  | done (text : List Char) : Edits 0 text text
  | step {count : Nat} {source middle target : List Char} (first : Edit source middle)
      (rest : Edits count middle target) : Edits (count + 1) source target

variable {source middle target : List Char}

theorem Edit.behind (c : Char) (edit : Edit source target) :
    Edit (c :: source) (c :: target) := by
  cases edit with
  | insert front d back => exact .insert (c :: front) d back
  | delete front d back => exact .delete (c :: front) d back
  | replace front d e back => exact .replace (c :: front) d e back

theorem Edit.reverse (edit : Edit source target) : Edit source.reverse target.reverse := by
  cases edit with
  | insert front c back => simpa using Edit.insert back.reverse c front.reverse
  | delete front c back => simpa using Edit.delete back.reverse c front.reverse
  | replace front c d back => simpa using Edit.replace back.reverse c d front.reverse

theorem Edits.behind {count : Nat} (c : Char) (edits : Edits count source target) :
    Edits count (c :: source) (c :: target) := by
  induction edits with
  | done text => exact .done (c :: text)
  | step first _ inductionHypothesis => exact .step (first.behind c) inductionHypothesis

theorem Edits.reverse {count : Nat} (edits : Edits count source target) :
    Edits count source.reverse target.reverse := by
  induction edits with
  | done text => exact .done text.reverse
  | step first _ inductionHypothesis => exact .step first.reverse inductionHypothesis

/-- Each edit changes the length by one at most. -/
theorem Edits.length_le {count : Nat} (edits : Edits count source target) :
    target.length ≤ source.length + count := by
  induction edits with
  | done text => exact Nat.le_refl text.length
  | step first _ inductionHypothesis =>
      cases first <;> simp only [List.length_append, List.length_cons] at inductionHypothesis ⊢ <;>
        omega

theorem Edits.min {count other : Nat} (edits : Edits count source target)
    (others : Edits other source target) : Edits (min count other) source target := by
  rcases Nat.le_total count other with fewer | more
  · rwa [Nat.min_eq_left fewer]
  · rwa [Nat.min_eq_right more]

/-- How many edits suffice, from how many suffice without the first characters. -/
def leastEdits : List Char → List Char → Nat
  | [], target => target.length
  | source, [] => source.length
  | a :: source, b :: target =>
      min (min (leastEdits source (b :: target) + 1) (leastEdits (a :: source) target + 1))
        (leastEdits source target + if a = b then 0 else 1)

theorem leastEdits_nil_left (target : List Char) : leastEdits [] target = target.length := by
  rw [leastEdits]

theorem leastEdits_nil_right (source : List Char) : leastEdits source [] = source.length := by
  cases source <;> simp [leastEdits]

theorem leastEdits_cons_cons (a b : Char) (source target : List Char) :
    leastEdits (a :: source) (b :: target) =
      min (min (leastEdits source (b :: target) + 1) (leastEdits (a :: source) target + 1))
        (leastEdits source target + if a = b then 0 else 1) := by
  rw [leastEdits]

/-! ## As many edits suffice -/

theorem edits_insertAll (target : List Char) : Edits target.length [] target := by
  induction target with
  | nil => exact .done []
  | cons c target inductionHypothesis =>
      exact .step (.insert [] c []) (inductionHypothesis.behind c)

theorem edits_deleteAll (source : List Char) : Edits source.length source [] := by
  induction source with
  | nil => exact .done []
  | cons c source inductionHypothesis => exact .step (.delete [] c source) inductionHypothesis

theorem edits_leastEdits (source target : List Char) :
    Edits (leastEdits source target) source target := by
  induction source generalizing target with
  | nil =>
      rw [leastEdits_nil_left]
      exact edits_insertAll target
  | cons a source sourceHypothesis =>
      induction target with
      | nil =>
          rw [leastEdits_nil_right]
          exact edits_deleteAll (a :: source)
      | cons b target targetHypothesis =>
          have deleted : Edits (leastEdits source (b :: target) + 1) (a :: source) (b :: target) :=
            .step (.delete [] a source) (sourceHypothesis (b :: target))
          have inserted : Edits (leastEdits (a :: source) target + 1) (a :: source) (b :: target) :=
            .step (.insert [] b (a :: source)) (targetHypothesis.behind b)
          have replaced : Edits (leastEdits source target + if a = b then 0 else 1)
              (a :: source) (b :: target) := by
            by_cases same : a = b
            · rw [if_pos same, same]
              exact (sourceHypothesis target).behind b
            · rw [if_neg same]
              exact .step (.replace [] a b source) ((sourceHypothesis target).behind b)
          rw [leastEdits_cons_cons]
          exact (deleted.min inserted).min replaced

/-! ## Fewer edits do not -/

/-- Whatever the target, the number of edits is at most one more than from another text. -/
def AtMostOneMore (source middle : List Char) : Prop :=
  ∀ target, leastEdits source target ≤ leastEdits middle target + 1

theorem atMostOneMore_delete (c : Char) (text : List Char) : AtMostOneMore (c :: text) text := by
  intro target
  cases target with
  | nil => simp [leastEdits_nil_right]
  | cons d target =>
      rw [leastEdits_cons_cons]
      omega

theorem leastEdits_cons_right_le (source : List Char) (d : Char) (target : List Char) :
    leastEdits source (d :: target) ≤ leastEdits source target + 1 := by
  cases source with
  | nil => simp [leastEdits_nil_left]
  | cons a source =>
      rw [leastEdits_cons_cons]
      omega

theorem atMostOneMore_insert (c : Char) (text : List Char) : AtMostOneMore text (c :: text) := by
  intro target
  induction target with
  | nil =>
      simp only [leastEdits_nil_right, List.length_cons]
      omega
  | cons d target inductionHypothesis =>
      have longer := leastEdits_cons_right_le text d target
      rw [leastEdits_cons_cons]
      omega

theorem atMostOneMore_replace (c d : Char) (text : List Char) :
    AtMostOneMore (c :: text) (d :: text) := by
  intro target
  induction target with
  | nil => simp [leastEdits_nil_right]
  | cons e target inductionHypothesis =>
      rw [leastEdits_cons_cons, leastEdits_cons_cons]
      split <;> split <;> omega

theorem AtMostOneMore.behind (near : AtMostOneMore source middle) (c : Char) :
    AtMostOneMore (c :: source) (c :: middle) := by
  intro target
  induction target with
  | nil =>
      have lengths := near []
      simp only [leastEdits_nil_right, List.length_cons] at lengths ⊢
      omega
  | cons d target inductionHypothesis =>
      have whole := near (d :: target)
      have shorter := near target
      rw [leastEdits_cons_cons, leastEdits_cons_cons]
      omega

theorem AtMostOneMore.append (near : AtMostOneMore source middle) (front : List Char) :
    AtMostOneMore (front ++ source) (front ++ middle) := by
  induction front with
  | nil => exact near
  | cons c front inductionHypothesis => exact inductionHypothesis.behind c

theorem atMostOneMore_of_edit (edit : Edit source middle) : AtMostOneMore source middle := by
  cases edit with
  | insert front c back => exact (atMostOneMore_insert c back).append front
  | delete front c back => exact (atMostOneMore_delete c back).append front
  | replace front c d back => exact (atMostOneMore_replace c d back).append front

theorem leastEdits_self (text : List Char) : leastEdits text text = 0 := by
  induction text with
  | nil => rw [leastEdits_nil_left, List.length_nil]
  | cons c text inductionHypothesis =>
      rw [leastEdits_cons_cons, if_pos rfl]
      omega

theorem leastEdits_le {count : Nat} (edits : Edits count source target) :
    leastEdits source target ≤ count := by
  induction edits with
  | done text => exact Nat.le_of_eq (leastEdits_self text)
  | step first _ inductionHypothesis =>
      have near := atMostOneMore_of_edit first
      exact Nat.le_trans (near _) (Nat.succ_le_succ inductionHypothesis)

/-! ## Rows -/

/-- The numbers of edits from one text to `passed` and to every longer beginning of the target, of
which `ahead` is left. Beginnings are written backwards. -/
def leastEditsAlong (source passed : List Char) : List Char → List Nat
  | [] => [leastEdits source passed]
  | c :: ahead => leastEdits source passed :: leastEditsAlong source (c :: passed) ahead

theorem exists_leastEditsAlong_eq (source passed ahead : List Char) :
    ∃ further, leastEditsAlong source passed ahead = leastEdits source passed :: further := by
  cases ahead <;> exact ⟨_, rfl⟩

theorem range'_eq_leastEditsAlong (passed ahead : List Char) :
    List.range' passed.length (ahead.length + 1) = leastEditsAlong [] passed ahead := by
  induction ahead generalizing passed with
  | nil => rw [leastEditsAlong, leastEdits_nil_left, List.length_nil, List.range'_one]
  | cons c ahead inductionHypothesis =>
      rw [leastEditsAlong, leastEdits_nil_left, ← inductionHypothesis, List.length_cons,
        List.range'_succ, List.length_cons]

theorem distanceRow_eq (a : Char) (source passed ahead : List Char) :
    leastEdits (a :: source) passed ::
        distanceRow a (leastEdits (a :: source) passed) ahead
          (leastEditsAlong source passed ahead) =
      leastEditsAlong (a :: source) passed ahead := by
  induction ahead generalizing passed with
  | nil => rfl
  | cons b ahead inductionHypothesis =>
      obtain ⟨further, furtherEq⟩ := exists_leastEditsAlong_eq source (b :: passed) ahead
      have rest := inductionHypothesis (b :: passed)
      rw [furtherEq] at rest
      rw [leastEditsAlong, leastEditsAlong, furtherEq, distanceRow, ← rest, leastEdits_cons_cons,
        Nat.min_comm (leastEdits source (b :: passed) + 1)]

theorem nextRow_eq (target : List Char) (source : List Char) (a : Char) :
    nextRow target (leastEditsAlong source [] target) a =
      leastEditsAlong (a :: source) [] target := by
  obtain ⟨further, furtherEq⟩ := exists_leastEditsAlong_eq source [] target
  have first : (leastEditsAlong source [] target).headD 0 + 1 = leastEdits (a :: source) [] := by
    rw [furtherEq, List.headD_cons, leastEdits_nil_right, leastEdits_nil_right, List.length_cons]
  rw [nextRow, first]
  exact distanceRow_eq a source [] target

theorem foldl_nextRow_eq (target passed ahead : List Char) :
    ahead.foldl (nextRow target) (leastEditsAlong passed [] target) =
      leastEditsAlong (ahead.reverse ++ passed) [] target := by
  induction ahead generalizing passed with
  | nil => rfl
  | cons a ahead inductionHypothesis =>
      rw [List.foldl_cons, nextRow_eq, inductionHypothesis, List.reverse_cons, List.append_assoc,
        List.singleton_append]

theorem getLastD_leastEditsAlong (source passed ahead : List Char) (other : Nat) :
    (leastEditsAlong source passed ahead).getLastD other =
      leastEdits source (ahead.reverse ++ passed) := by
  induction ahead generalizing passed other with
  | nil => rfl
  | cons c ahead inductionHypothesis =>
      rw [leastEditsAlong, List.getLastD_cons, inductionHypothesis, List.reverse_cons,
        List.append_assoc, List.singleton_append]

/-- Row by row the texts are taken from their ends on. -/
theorem distance_eq (source target : List Char) :
    distance source target = leastEdits source.reverse target.reverse := by
  have start : List.range (target.length + 1) = leastEditsAlong [] [] target := by
    rw [List.range_eq_range']
    exact range'_eq_leastEditsAlong [] target
  rw [distance, start, foldl_nextRow_eq, getLastD_leastEditsAlong, List.append_nil,
    List.append_nil]

/-- The distance is the least number of edits. -/
theorem isLeast_distance (source target : List Char) :
    IsLeast {count | Edits count source target} (distance source target) := by
  rw [distance_eq]
  constructor
  · have edits := (edits_leastEdits source.reverse target.reverse).reverse
    rwa [List.reverse_reverse, List.reverse_reverse] at edits
  · intro count edits
    exact leastEdits_le edits.reverse

end FuzzyRating.Text
