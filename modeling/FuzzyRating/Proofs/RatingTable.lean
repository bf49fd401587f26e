import FuzzyRating.Proofs.Rounding.Order
import FuzzyRating.RatingTable
import Mathlib.Data.List.Chain

/-!
Tables of rating classes on doubles. A list of thresholds is accepted exactly if it is not empty,
finite and strictly ascending and leaves "not rated" out, and in such a table the scan from below
stops at the entry with the greatest threshold that a rating reaches.
-/

namespace FuzzyRating.RatingTable

variable {thresholds : List (RatingThreshold Float)} {table : RatingTable Float} {rating : Float}

/-! ## Tables -/

/-- What a table is made of. -/
structure IsTable (thresholds : List (RatingThreshold Float)) : Prop where
  nonempty : thresholds ≠ []
  finite : ∀ entry ∈ thresholds, entry.threshold.isFinite = true
  ascending : thresholds.Pairwise fun entry next =>
    Arith.lt entry.threshold next.threshold = true
  assignable : ∀ entry ∈ thresholds, entry.rank ≠ .notRated

/-- The number that a threshold stands for. -/
def exactThreshold (entry : RatingThreshold Float) : ℚ :=
  Rounding.number entry.threshold

/-- Comparing neighbours is enough. -/
theorem firstDescent?_eq_none_iff
    (finite : ∀ entry ∈ thresholds, entry.threshold.isFinite = true) :
    firstDescent? thresholds = none ↔
      thresholds.Pairwise fun entry next => exactThreshold entry < exactThreshold next := by
  have neighbours : firstDescent? thresholds = none ↔
      (thresholds.map exactThreshold).IsChain (· < ·) := by
    induction thresholds with
    | nil => exact ⟨fun _ => .nil, fun _ => rfl⟩
    | cons entry rest inductionHypothesis =>
        obtain ⟨entryFinite, restFinite⟩ := List.forall_mem_cons.mp finite
        cases rest with
        | nil => exact ⟨fun _ => .singleton _, fun _ => rfl⟩
        | cons next rest =>
            have nextFinite := restFinite next List.mem_cons_self
            have further := inductionHypothesis restFinite
            have descent := Rounding.le_iff nextFinite entryFinite
            rw [List.map_cons] at further
            rw [List.map_cons, List.map_cons, List.isChain_cons_cons, ← further, firstDescent?]
            by_cases notAbove : Arith.le next.threshold entry.threshold = true
            · rw [if_pos notAbove]
              have notLess := (descent.mp notAbove).not_gt
              exact ⟨nofun, fun both => absurd both.1 notLess⟩
            · rw [if_neg notAbove]
              have less : exactThreshold entry < exactThreshold next :=
                lt_of_not_ge fun atMost => notAbove (descent.mpr atMost)
              exact ⟨fun none => ⟨less, none⟩, And.right⟩
  rw [neighbours, List.isChain_iff_pairwise, List.pairwise_map]

theorem pairwise_lt_iff (finite : ∀ entry ∈ thresholds, entry.threshold.isFinite = true) :
    (thresholds.Pairwise fun entry next => Arith.lt entry.threshold next.threshold = true) ↔
      thresholds.Pairwise fun entry next => exactThreshold entry < exactThreshold next := by
  apply List.Pairwise.iff_of_mem
  intro entry next member nextMember
  exact Rounding.lt_iff (finite entry member) (finite next nextMember)

/-- Exactly the tables are accepted, each as it is. -/
theorem ofThresholds_eq_ok_iff :
    ofThresholds thresholds = .ok table ↔ table = ⟨thresholds⟩ ∧ IsTable thresholds := by
  have finiteIff : thresholds.find? (fun entry => !Arith.isFinite entry.threshold) = none ↔
      ∀ entry ∈ thresholds, entry.threshold.isFinite = true := by
    rw [List.find?_eq_none]
    exact forall₂_congr fun entry _ => by
      change ¬ (!entry.threshold.isFinite) = true ↔ _
      simp
  have assignableIff : thresholds.any (·.rank == .notRated) = true ↔
      ¬ ∀ entry ∈ thresholds, entry.rank ≠ .notRated := by
    simp
  unfold ofThresholds
  dsimp only
  by_cases isEmpty : thresholds.isEmpty = true
  · rw [if_pos isEmpty]
    exact ⟨nofun, fun made => absurd (List.isEmpty_iff.mp isEmpty) made.2.nonempty⟩
  rw [if_neg isEmpty]
  cases found : thresholds.find? fun entry => !Arith.isFinite entry.threshold with
  | some entry =>
      exact ⟨nofun, fun made => absurd (finiteIff.mpr made.2.finite) (by simp [found])⟩
  | none =>
      have finite := finiteIff.mp found
      by_cases assigned : thresholds.any (·.rank == .notRated) = true
      · simp only [assigned, if_true]
        exact ⟨nofun, fun made => absurd made.2.assignable (assignableIff.mp assigned)⟩
      · simp only [assigned]
        have ascendingIff := (firstDescent?_eq_none_iff finite).trans (pairwise_lt_iff finite).symm
        cases descent : firstDescent? thresholds with
        | some pair =>
            exact ⟨nofun, fun made => absurd (ascendingIff.mpr made.2.ascending) (by simp [descent])⟩
        | none =>
            constructor
            · intro made
              cases made
              exact ⟨rfl, fun isNil => isEmpty (List.isEmpty_iff.mpr isNil), finite,
                ascendingIff.mp descent, not_not.mp fun given => assigned (assignableIff.mpr given)⟩
            · rintro ⟨rfl, _⟩
              rfl

/-- Zero does not ascend to zero. -/
example : (ofThresholds [⟨0.0, .slight⟩, ⟨-0.0, .severe⟩] :
    Except _ (RatingTable Float)).toOption.isNone = true := by
  decide +kernel

/-! ## Classes -/

/-- The class of the entry with the greatest threshold that a rating reaches, or of the lowest entry
if it reaches none. Thresholds and ratings are compared as doubles. -/
inductive ClassOf (thresholds : List (RatingThreshold Float)) (rating : Float) : RatingClass → Prop
  | reached {entry : RatingThreshold Float} (member : entry ∈ thresholds)
      (atOrBelow : Arith.le entry.threshold rating = true)
      (greatest : ∀ other ∈ thresholds, Arith.le other.threshold rating = true →
        Arith.le other.threshold entry.threshold = true) :
      ClassOf thresholds rating entry.rank
  | below {entry : RatingThreshold Float} (member : entry ∈ thresholds)
      (lowest : ∀ other ∈ thresholds, Arith.le entry.threshold other.threshold = true)
      (above : ∀ other ∈ thresholds, Arith.lt rating other.threshold = true) :
      ClassOf thresholds rating entry.rank

/-- Where what holds of an entry holds of all before it, a scan from the front finds all entries of
which it holds. -/
theorem takeWhile_eq_filter {alpha : Type} {test : alpha → Bool} {entries : List alpha}
    (kept : entries.Pairwise fun entry later => test later = true → test entry = true) :
    entries.takeWhile test = entries.filter test := by
  induction entries with
  | nil => rfl
  | cons entry rest inductionHypothesis =>
      obtain ⟨before, restKept⟩ := List.pairwise_cons.mp kept
      by_cases holds : test entry = true
      · rw [List.takeWhile_cons_of_pos holds, List.filter_cons_of_pos holds,
          inductionHypothesis restKept]
      · rw [List.takeWhile_cons_of_neg holds, List.filter_cons_of_neg holds, eq_comm,
          List.filter_eq_nil_iff]
        exact fun later member laterHolds => holds (before later member laterHolds)

namespace IsTable

variable {entry other : RatingThreshold Float} (isTable : IsTable thresholds)

include isTable

theorem exact_ascending :
    thresholds.Pairwise fun entry next => exactThreshold entry < exactThreshold next :=
  (pairwise_lt_iff isTable.finite).mp isTable.ascending

theorem le_iff (member : entry ∈ thresholds) (otherMember : other ∈ thresholds) :
    Arith.le entry.threshold other.threshold = true ↔
      exactThreshold entry ≤ exactThreshold other :=
  Rounding.le_iff (isTable.finite entry member) (isTable.finite other otherMember)

/-- The first entry is the lowest one. -/
theorem exists_lowest : ∃ entry, thresholds.head? = some entry ∧ entry ∈ thresholds ∧
    ∀ other ∈ thresholds, Arith.le entry.threshold other.threshold = true := by
  obtain ⟨entry, rest, rfl⟩ := List.exists_cons_of_ne_nil isTable.nonempty
  refine ⟨entry, rfl, List.mem_cons_self, fun other member => ?_⟩
  rw [isTable.le_iff List.mem_cons_self member]
  rcases List.mem_cons.mp member with rfl | later
  · exact le_rfl
  · exact ((List.pairwise_cons.mp isTable.exact_ascending).1 other later).le

/-- The last of the entries for which a test holds is the highest one of them. -/
theorem le_of_getLast? {test : RatingThreshold Float → Bool}
    (isLast : (thresholds.filter test).getLast? = some entry) :
    (entry ∈ thresholds ∧ test entry = true) ∧ ∀ other ∈ thresholds, test other = true →
      Arith.le other.threshold entry.threshold = true := by
  have lastMember := List.mem_filter.mp (List.mem_of_getLast? isLast)
  refine ⟨lastMember, fun other member holds => ?_⟩
  obtain ⟨before, filteredEq⟩ := List.getLast?_eq_some_iff.mp isLast
  have within : other ∈ before ++ [entry] := by
    rw [← filteredEq]
    exact List.mem_filter.mpr ⟨member, holds⟩
  have filtered := isTable.exact_ascending.filter test
  rw [filteredEq] at filtered
  rw [isTable.le_iff member lastMember.1]
  rcases List.mem_append.mp within with earlier | same
  · exact ((List.pairwise_append.mp filtered).2.2 other earlier entry List.mem_cons_self).le
  · rw [List.mem_singleton.mp same]

variable (finite : rating.isFinite = true)

include finite

theorem reached_iff (member : entry ∈ thresholds) :
    Arith.le entry.threshold rating = true ↔ exactThreshold entry ≤ Rounding.number rating :=
  Rounding.le_iff (isTable.finite entry member) finite

theorem takeWhile_reached :
    thresholds.takeWhile (fun entry => Arith.le entry.threshold rating) =
      thresholds.filter fun entry => Arith.le entry.threshold rating := by
  apply takeWhile_eq_filter
  apply isTable.exact_ascending.imp_of_mem
  intro entry later member laterMember less laterReached
  rw [isTable.reached_iff finite laterMember] at laterReached
  exact (isTable.reached_iff finite member).mpr (less.le.trans laterReached)

end IsTable

theorem classOf_classify (isTable : IsTable table.thresholds) (finite : rating.isFinite = true) :
    ClassOf table.thresholds rating (table.classify (some rating)) := by
  have isNumber : (some rating).filter (fun value => !Arith.isNaN value) = some rating := by
    change (if (!rating.isNaN) = true then some rating else none) = some rating
    rw [isNaN_of_isFinite finite]
    rfl
  unfold classify
  rw [isNumber]
  dsimp only
  rw [isTable.takeWhile_reached finite]
  cases last : (table.thresholds.filter fun entry => Arith.le entry.threshold rating).getLast? with
  | some entry =>
      obtain ⟨⟨member, reached⟩, greatest⟩ := isTable.le_of_getLast? last
      exact .reached member reached greatest
  | none =>
      obtain ⟨entry, isFirst, member, lowest⟩ := isTable.exists_lowest
      rw [Option.none_or, isFirst]
      refine .below member lowest fun other otherMember => ?_
      have notReached := List.filter_eq_nil_iff.mp (List.getLast?_eq_none_iff.mp last) other
        otherMember
      rw [isTable.reached_iff finite otherMember, not_le] at notReached
      exact (Rounding.lt_iff finite (isTable.finite other otherMember)).mpr notReached

/-- A class that a rating has is never that of "not rated". -/
theorem ne_notRated_of_classOf (isTable : IsTable table.thresholds) {rank : RatingClass}
    (isClass : ClassOf table.thresholds rating rank) : rank ≠ .notRated := by
  cases isClass with
  | reached member _ _ => exact isTable.assignable _ member
  | below member _ _ => exact isTable.assignable _ member

end FuzzyRating.RatingTable
