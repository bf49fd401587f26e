import FuzzyRating.Proofs.Exact.Curve

/-!
Points with exact coordinates, and where a query lies among them: at or before the first, at or
beyond the last, or between two neighbours.
-/

namespace FuzzyRating

open Exact

variable {scalar : Type} [Field scalar] [LinearOrder scalar] {power : scalar → scalar → scalar}

instance : FiniteOrder (Exact power) where
  le_total a b aFinite bFinite := by
    obtain ⟨a, rfl⟩ := isFinite_iff.mp aFinite
    obtain ⟨b, rfl⟩ := isFinite_iff.mp bFinite
    simpa using le_total a b

/-- The point at exact coordinates. -/
def Point.exact (point : Point scalar) : Point (Exact power) :=
  ⟨number point.x, number point.y⟩

omit [Field scalar] [LinearOrder scalar] in
theorem Point.exact_injective :
    Function.Injective (Point.exact : Point scalar → Point (Exact power)) := by
  rintro ⟨x, y⟩ ⟨x', y'⟩ same
  cases same
  rfl

/-- The place among points at exact coordinates. -/
def Curve.Bracket.exact : Curve.Bracket scalar → Curve.Bracket (Exact power)
  | .clamped y => .clamped (number y)
  | .between index lower upper => .between index lower.exact upper.exact

namespace Curve

/-- Points in the order of their places. -/
def Ascending (points : List (Point scalar)) : Prop :=
  points.Pairwise fun a b => a.x ≤ b.x

/-- Points in the order of their places, each at a place of its own. -/
def StrictlyAscending (points : List (Point scalar)) : Prop :=
  points.Pairwise fun a b => a.x < b.x

instance (points : List (Point scalar)) : Decidable (StrictlyAscending points) :=
  inferInstanceAs (Decidable (points.Pairwise fun a b => a.x < b.x))

omit [Field scalar] in
theorem StrictlyAscending.ascending {points : List (Point scalar)}
    (ascending : StrictlyAscending points) : Ascending points :=
  ascending.imp le_of_lt

theorem related_of_getElem? {alpha : Type} {related : alpha → alpha → Prop} {entries : List alpha}
    (inOrder : entries.Pairwise related) {i j : Nat} {earlier later : alpha}
    (isEarlier : entries[i]? = some earlier) (isLater : entries[j]? = some later) (less : i < j) :
    related earlier later := by
  obtain ⟨earlierWithin, rfl⟩ := List.getElem?_eq_some_iff.mp isEarlier
  obtain ⟨laterWithin, rfl⟩ := List.getElem?_eq_some_iff.mp isLater
  exact List.pairwise_iff_getElem.mp inOrder i j earlierWithin laterWithin less

omit [Field scalar] in
/-- Along points in some order, a later one has no less of what they are ordered by. -/
theorem le_of_getElem? {points : List (Point scalar)} {measure : Point scalar → scalar}
    (inOrder : points.Pairwise fun a b => measure a ≤ measure b) {i j : Nat}
    {earlier later : Point scalar} (isEarlier : points[i]? = some earlier)
    (isLater : points[j]? = some later) (atMost : i ≤ j) : measure earlier ≤ measure later := by
  rcases Nat.eq_or_lt_of_le atMost with rfl | less
  · rw [isEarlier] at isLater
    cases isLater
    exact le_rfl
  · exact related_of_getElem? inOrder isEarlier isLater less

omit [Field scalar] in
/-- Where no two points share a place, an index is known from the place of its point. -/
theorem StrictlyAscending.index_eq {points : List (Point scalar)}
    (ascending : StrictlyAscending points) {i j : Nat} {point other : Point scalar}
    (isPoint : points[i]? = some point) (isOther : points[j]? = some other)
    (samePlace : other.x = point.x) : j = i := by
  rcases Nat.lt_trichotomy j i with before | same | behind
  · exact absurd samePlace (related_of_getElem? ascending isOther isPoint before).ne
  · exact same
  · exact absurd samePlace (related_of_getElem? ascending isPoint isOther behind).ne'

theorem pairwise_exact {points : List (Point scalar)} (ascending : Ascending points) :
    (points.map Point.exact : List (Point (Exact power))).Pairwise
      fun a b => Arith.totalLe a.x b.x = true :=
  List.pairwise_map.mpr (ascending.imp fun atMost => decide_eq_true atMost)

/-- Where a query lies among points. What lies at or before the first point is not looked for behind
it, even where others share its place. -/
inductive Lies (points : List (Point scalar)) (x : scalar) : Bracket scalar → Prop
  | before {first : Point scalar} (isFirst : points[0]? = some first) (atOrBefore : x ≤ first.x) :
      Lies points x (.clamped first.y)
  | beyond {last : Point scalar} (after : ∀ first, points[0]? = some first → first.x < x)
      (isLast : points[points.length - 1]? = some last) (atOrBeyond : last.x ≤ x) :
      Lies points x (.clamped last.y)
  | between {index : Nat} {lower upper : Point scalar}
      (after : ∀ first, points[0]? = some first → first.x < x)
      (isLower : points[index]? = some lower) (isUpper : points[index + 1]? = some upper)
      (atOrAbove : lower.x ≤ x) (below : x < upper.x) :
      Lies points x (.between (index + 1) lower upper)

variable (power) in
/-- The search among points finds where a query lies. -/
theorem exists_place {points : List (Point scalar)} (nonempty : points ≠ [])
    (ascending : Ascending points) (x : scalar) :
    ∃ place, bracket (points.map Point.exact) (number x : Exact power) = some place.exact ∧
      Lies points x place := by
  obtain ⟨first, isFirst⟩ : ∃ first, points[0]? = some first :=
    ⟨points.head nonempty, by rw [← List.head?_eq_getElem?, List.head?_eq_some_head]⟩
  have firstEq : (points.map Point.exact).head? = some (first.exact : Point (Exact power)) := by
    rw [List.head?_map, List.head?_eq_getElem?, isFirst, Option.map_some]
  by_cases atOrBefore : x ≤ first.x
  · exact ⟨.clamped first.y, bracket_of_atOrBefore firstEq (decide_eq_true atOrBefore),
      .before isFirst atOrBefore⟩
  · have after : ∀ other, points[0]? = some other → other.x < x := by
      intro other isOther
      rw [isFirst] at isOther
      cases isOther
      exact lt_of_not_ge atOrBefore
    have ascends : Ascends (points.map Point.exact : List (Point (Exact power))) :=
      ascends_of_pairwise (pairwise_exact ascending)
    have found : (bracket (points.map Point.exact) (number x : Exact power)).isSome = true := by
      refine bracket_isSome (by simpa using nonempty) (fun point member => ?_) rfl
      obtain ⟨own, _, rfl⟩ := List.mem_map.mp member
      rfl
    obtain ⟨place, placeEq⟩ := Option.isSome_iff_exists.mp found
    rw [placeEq]
    cases place with
    | clamped y =>
        rcases bracket_eq_end placeEq with ⟨other, otherEq, otherAtOrBefore, _⟩ |
          ⟨last, lastEq, atOrBeyond, rfl⟩
        · rw [firstEq] at otherEq
          cases otherEq
          exact absurd (of_decide_eq_true otherAtOrBefore) atOrBefore
        · rw [List.getLast?_map, List.getLast?_eq_getElem?] at lastEq
          obtain ⟨last, isLast, rfl⟩ := Option.map_eq_some_iff.mp lastEq
          exact ⟨.clamped last.y, rfl, .beyond after isLast (of_decide_eq_true atOrBeyond)⟩
    | between index lower upper =>
        obtain ⟨positive, lowerEq, upperEq, atOrAbove, below⟩ := bracket_eq_between ascends placeEq
        obtain ⟨index, rfl⟩ := Nat.exists_eq_succ_of_ne_zero positive.ne'
        rw [List.getElem?_map] at lowerEq upperEq
        obtain ⟨lower, isLower, rfl⟩ := Option.map_eq_some_iff.mp lowerEq
        obtain ⟨upper, isUpper, rfl⟩ := Option.map_eq_some_iff.mp upperEq
        exact ⟨.between (index + 1) lower upper, rfl, .between after isLower isUpper
          (of_decide_eq_true atOrAbove) (lt_of_not_ge (of_decide_eq_false below))⟩

namespace Lies

variable {points : List (Point scalar)} {x : scalar} {place : Bracket scalar}

omit [Field scalar] in
/-- Strictly between two neighbours a query lies on their segment. -/
theorem of_inside (ascending : Ascending points) (lies : Lies points x place) {index : Nat}
    {lower upper : Point scalar} (isLower : points[index]? = some lower)
    (isUpper : points[index + 1]? = some upper) (above : lower.x < x) (below : x < upper.x) :
    place = .between (index + 1) lower upper := by
  cases lies with
  | before isFirst atOrBefore =>
      have firstAtMost := le_of_getElem? ascending isFirst isLower (Nat.zero_le index)
      exact absurd firstAtMost (not_le.mpr (above.trans_le atOrBefore))
  | beyond _ isLast atOrBeyond =>
      have within := (List.getElem?_eq_some_iff.mp isUpper).1
      have lastAtLeast := le_of_getElem? ascending isUpper isLast (by omega)
      exact absurd lastAtLeast (not_le.mpr (atOrBeyond.trans_lt below))
  | @between own ownLower ownUpper _ isOwnLower isOwnUpper atOrAbove ownBelow =>
      rcases Nat.lt_trichotomy own index with before | rfl | behind
      · have ownAtMost := le_of_getElem? ascending isOwnUpper isLower before
        exact absurd ownAtMost (not_le.mpr (above.trans ownBelow))
      · rw [isLower] at isOwnLower
        rw [isUpper] at isOwnUpper
        cases isOwnLower
        cases isOwnUpper
        rfl
      · have ownAtLeast := le_of_getElem? ascending isUpper isOwnLower behind
        exact absurd ownAtLeast (not_le.mpr (atOrAbove.trans_lt below))

omit [Field scalar] in
/-- A query at a point that has its place alone lies at an end, or on the segment that the point
begins. -/
theorem of_point (ascending : Ascending points) {index : Nat} {point : Point scalar}
    (isPoint : points[index]? = some point)
    (alone : ∀ i other, points[i]? = some other → other.x = point.x → i = index)
    (lies : Lies points point.x place) :
    place = .clamped point.y ∨ ∃ upper, points[index + 1]? = some upper ∧ point.x < upper.x ∧
      place = .between (index + 1) point upper := by
  have eq_of_place {i : Nat} {other : Point scalar} (isOther : points[i]? = some other)
      (samePlace : other.x = point.x) : other = point := by
    rw [alone i other isOther samePlace, isPoint] at isOther
    exact (Option.some.inj isOther).symm
  cases lies with
  | before isFirst atOrBefore =>
      have firstAtMost := le_of_getElem? ascending isFirst isPoint (Nat.zero_le index)
      rw [eq_of_place isFirst (firstAtMost.antisymm atOrBefore)]
      exact Or.inl rfl
  | beyond _ isLast atOrBeyond =>
      have within := (List.getElem?_eq_some_iff.mp isPoint).1
      have lastAtLeast := le_of_getElem? ascending isPoint isLast (by omega)
      rw [eq_of_place isLast (atOrBeyond.antisymm lastAtLeast)]
      exact Or.inl rfl
  | @between own lower upper _ isLower isUpper atOrAbove below =>
      -- the point is not behind the lower end, since it is before the upper one
      have notBehind : index ≤ own := by
        by_contra behind
        have upperAtMost := le_of_getElem? ascending isUpper isPoint (by omega)
        exact absurd upperAtMost (not_le.mpr below)
      have samePlace := atOrAbove.antisymm (le_of_getElem? ascending isPoint isLower notBehind)
      obtain rfl := alone own lower isLower samePlace
      rw [eq_of_place isLower samePlace]
      exact Or.inr ⟨upper, isUpper, below, rfl⟩

omit [Field scalar] in
theorem of_atOrBefore (lies : Lies points x place) {first : Point scalar}
    (isFirst : points[0]? = some first) (atOrBefore : x ≤ first.x) : place = .clamped first.y := by
  cases lies with
  | before isOwnFirst _ =>
      rw [isFirst] at isOwnFirst
      cases isOwnFirst
      rfl
  | beyond after _ _ => exact absurd (after first isFirst) (not_lt.mpr atOrBefore)
  | between after _ _ _ _ => exact absurd (after first isFirst) (not_lt.mpr atOrBefore)

omit [Field scalar] in
theorem of_atOrBeyond (ascending : Ascending points) (lies : Lies points x place)
    (after : ∀ first, points[0]? = some first → first.x < x) {last : Point scalar}
    (isLast : points[points.length - 1]? = some last) (atOrBeyond : last.x ≤ x) :
    place = .clamped last.y := by
  cases lies with
  | before isFirst atOrBefore => exact absurd (after _ isFirst) (not_lt.mpr atOrBefore)
  | beyond _ isOwnLast _ =>
      rw [isLast] at isOwnLast
      cases isOwnLast
      rfl
  | between _ _ isUpper _ below =>
      have within := (List.getElem?_eq_some_iff.mp isUpper).1
      have lastAtLeast := le_of_getElem? ascending isUpper isLast (by omega)
      exact absurd (lastAtLeast.trans atOrBeyond) (not_le.mpr below)

end Lies

/-! ## Curves by their segments -/

/-- The height at a place, given that of each segment by the number of its upper end and its ends. -/
def Bracket.height (segment : Nat → Point scalar → Point scalar → scalar → scalar) (x : scalar) :
    Bracket scalar → scalar
  | .clamped y => y
  | .between index lower upper => segment index lower upper x

/-- A curve made of segments between neighbours, level before the first and beyond the last point. -/
def Follows (points : List (Point scalar))
    (segment : Nat → Point scalar → Point scalar → scalar → scalar) (height : scalar → scalar) :
    Prop :=
  ∀ x, ∃ place, Lies points x place ∧ height x = place.height segment x

/-- A curve through points that keeps the height of the outermost ones beyond them. -/
structure Interpolates (points : List (Point scalar)) (height : scalar → scalar) : Prop where
  through : ∀ point ∈ points, height point.x = point.y
  before : ∀ first ∈ points, (∀ point ∈ points, first.x ≤ point.x) →
    ∀ x, x ≤ first.x → height x = first.y
  beyond : ∀ last ∈ points, (∀ point ∈ points, point.x ≤ last.x) →
    ∀ x, last.x ≤ x → height x = last.y

omit [Field scalar] in
/-- Whether a curve goes through points does not depend on their order. -/
theorem Interpolates.perm {points reordered : List (Point scalar)} {height : scalar → scalar}
    (same : points.Perm reordered) (interpolates : Interpolates points height) :
    Interpolates reordered height where
  through point member := interpolates.through point (same.mem_iff.mpr member)
  before first member least := interpolates.before first (same.mem_iff.mpr member)
    fun point pointMember => least point (same.mem_iff.mp pointMember)
  beyond last member greatest := interpolates.beyond last (same.mem_iff.mpr member)
    fun point pointMember => greatest point (same.mem_iff.mp pointMember)

theorem exists_follows {points : List (Point scalar)} (nonempty : points ≠ [])
    (ascending : Ascending points)
    {segment : Nat → Point scalar → Point scalar → scalar → scalar}
    {curve : Exact power → Option (Exact power)}
    (drawn : ∀ x place, bracket (points.map Point.exact) (number x : Exact power) =
      some place.exact → Lies points x place →
      curve (number x) = some (number (place.height segment x))) :
    ∃ height : scalar → scalar, Follows points segment height ∧
      ∀ x, curve (number x) = some (number (height x)) := by
  choose place found lies using exists_place power nonempty ascending
  exact ⟨fun x => (place x).height segment x, fun x => ⟨place x, lies x, rfl⟩,
    fun x => drawn x (place x) (found x) (lies x)⟩

/-- Segments that begin at their lower and end at their upper end. -/
def Meets (segment : Nat → Point scalar → Point scalar → scalar → scalar) : Prop :=
  ∀ index lower upper, lower.x < upper.x →
    segment index lower upper lower.x = lower.y ∧ segment index lower upper upper.x = upper.y

namespace Follows

variable {points : List (Point scalar)}
  {segment : Nat → Point scalar → Point scalar → scalar → scalar} {height : scalar → scalar}
  (follows : Follows points segment height)

include follows

omit [Field scalar]

theorem eq_of_atOrBefore {first : Point scalar} (isFirst : points[0]? = some first) {x : scalar}
    (atOrBefore : x ≤ first.x) : height x = first.y := by
  obtain ⟨place, lies, heightEq⟩ := follows x
  rw [heightEq, lies.of_atOrBefore isFirst atOrBefore]
  rfl

theorem eq_of_atOrBeyond (ascending : Ascending points) {x : scalar}
    (after : ∀ first, points[0]? = some first → first.x < x) {last : Point scalar}
    (isLast : points[points.length - 1]? = some last) (atOrBeyond : last.x ≤ x) :
    height x = last.y := by
  obtain ⟨place, lies, heightEq⟩ := follows x
  rw [heightEq, lies.of_atOrBeyond ascending after isLast atOrBeyond]
  rfl

variable (meets : Meets segment)

include meets

theorem eq_of_point (ascending : Ascending points) {index : Nat} {point : Point scalar}
    (isPoint : points[index]? = some point)
    (alone : ∀ i other, points[i]? = some other → other.x = point.x → i = index) :
    height point.x = point.y := by
  obtain ⟨place, lies, heightEq⟩ := follows point.x
  rw [heightEq]
  rcases lies.of_point ascending isPoint alone with rfl | ⟨upper, _, less, rfl⟩
  · rfl
  · exact (meets (index + 1) point upper less).1

theorem eq_of_segment (ascending : StrictlyAscending points) {index : Nat}
    {lower upper : Point scalar} (isLower : points[index]? = some lower)
    (isUpper : points[index + 1]? = some upper) {x : scalar} (atOrAbove : lower.x ≤ x)
    (atOrBelow : x ≤ upper.x) : height x = segment (index + 1) lower upper x := by
  have less := related_of_getElem? ascending isLower isUpper (Nat.lt_succ_self index)
  obtain ⟨meetsLower, meetsUpper⟩ := meets (index + 1) lower upper less
  rcases atOrAbove.eq_or_lt with rfl | above
  · rw [meetsLower]
    exact follows.eq_of_point meets ascending.ascending isLower
      fun i other isOther samePlace => ascending.index_eq isLower isOther samePlace
  · rcases atOrBelow.eq_or_lt with rfl | below
    · rw [meetsUpper]
      exact follows.eq_of_point meets ascending.ascending isUpper
        fun i other isOther samePlace => ascending.index_eq isUpper isOther samePlace
    · obtain ⟨place, lies, heightEq⟩ := follows x
      rw [heightEq, lies.of_inside ascending.ascending isLower isUpper above below]
      rfl

/-- A curve whose segments meet the points goes through them. -/
theorem interpolates (ascending : StrictlyAscending points) : Interpolates points height where
  through point member := by
    obtain ⟨index, isPoint⟩ := List.mem_iff_getElem?.mp member
    exact follows.eq_of_point meets ascending.ascending isPoint
      fun i other isOther samePlace => ascending.index_eq isPoint isOther samePlace
  before first member least x atOrBefore := by
    obtain ⟨index, isFirst⟩ := List.mem_iff_getElem?.mp member
    obtain ⟨within, _⟩ := List.getElem?_eq_some_iff.mp isFirst
    have isHead : points[0]? = some points[0] := List.getElem?_eq_getElem (by omega)
    have headAtMost := le_of_getElem? ascending.ascending isHead isFirst (Nat.zero_le index)
    have samePlace := headAtMost.antisymm (least _ (List.mem_of_getElem? isHead))
    obtain rfl := ascending.index_eq isFirst isHead samePlace
    exact follows.eq_of_atOrBefore isFirst atOrBefore
  beyond last member greatest x atOrBeyond := by
    obtain ⟨index, isLast⟩ := List.mem_iff_getElem?.mp member
    obtain ⟨within, _⟩ := List.getElem?_eq_some_iff.mp isLast
    have isEnd : points[points.length - 1]? = some points[points.length - 1] :=
      List.getElem?_eq_getElem (by omega)
    have endAtLeast := le_of_getElem? ascending.ascending isLast isEnd (by omega)
    have samePlace := (greatest _ (List.mem_of_getElem? isEnd)).antisymm endAtLeast
    obtain rfl := ascending.index_eq isLast isEnd samePlace
    by_cases after : ∀ first, points[0]? = some first → first.x < x
    · exact follows.eq_of_atOrBeyond ascending.ascending after isLast atOrBeyond
    · -- a query at or before the first point leaves room for no other
      push Not at after
      obtain ⟨first, isFirst, atOrBefore⟩ := after
      have firstAtMost := le_of_getElem? ascending.ascending isFirst isLast (Nat.zero_le _)
      have onlyPlace := firstAtMost.antisymm (atOrBeyond.trans atOrBefore)
      have isOnly := ascending.index_eq isLast isFirst onlyPlace
      rw [← isOnly] at isLast
      exact follows.eq_of_atOrBefore isLast (atOrBefore.trans onlyPlace.le)

end Follows

end Curve

end FuzzyRating
