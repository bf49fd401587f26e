import FuzzyRating.Proofs.Exact.Combination
import FuzzyRating.Proofs.Exact.Rating
import Mathlib.Algebra.BigOperators.Group.List.Basic
import Mathlib.Algebra.Order.BigOperators.Group.List
import Mathlib.Algebra.Order.BigOperators.GroupWithZero.List
import Mathlib.Data.List.ReduceOption
import Mathlib.Tactic.FieldSimp

/-!
Operators computed exactly. From the product over the least rating, the average and the greatest up to
the sum they are in order, and they come in pairs of opposites.
-/

namespace FuzzyRating

open Exact

variable {scalar : Type} [Field scalar] [LinearOrder scalar] {power : scalar → scalar → scalar}

namespace Exact

/-- The number that a value is, if it is one. -/
def number? : Exact power → Option scalar
  | number value => some value
  | notANumber => none

theorem least_number (a b : scalar) :
    Arith.least (number a : Exact power) (number b) = number (min a b) := by
  unfold Arith.least
  rw [isNaN_number, le_number, Bool.false_or, min_comm, min_def, apply_ite number]
  simp only [decide_eq_true_eq]

theorem greatest_number (a b : scalar) :
    Arith.greatest (number a : Exact power) (number b) = number (max a b) := by
  unfold Arith.greatest
  rw [isNaN_number, le_number, Bool.false_or, max_def, apply_ite number]
  simp only [decide_eq_true_eq]

end Exact

namespace Operator

/-! ## What operators come to -/

/-- The value of an operator on numbers. -/
def exactly : Operator → List scalar → scalar
  | and, values => values.min?.getD 1
  | or, values => values.max?.getD 0
  | product, values => values.prod
  | sum, values => 1 - (values.map (1 - ·)).prod
  | times, [] => 1
  | times, [value] => value
  | times, value :: multiplier :: _ => value * multiplier
  | average, values => values.sum / values.length

omit [Field scalar] [LinearOrder scalar] in
theorem foldl_number {step : Exact power → Exact power → Exact power}
    {exactStep : scalar → scalar → scalar}
    (isExact : ∀ a b, step (number a) (number b) = number (exactStep a b)) (start : scalar)
    (values : List scalar) :
    (values.map number).foldl step (number start) = number (values.foldl exactStep start) := by
  rw [List.foldl_map]
  exact List.foldl_hom number fun a b => isExact a b

theorem foldl_mul_number (values : List scalar) :
    (values.map number).foldl (· * ·) Arith.one = (number values.prod : Exact power) := by
  rw [one_eq, foldl_number number_mul, List.prod_eq_foldl]

theorem map_complement_number (values : List scalar) :
    (values.map number).map (Arith.one - ·) =
      ((values.map (1 - ·)).map number : List (Exact power)) := by
  rw [List.map_map, List.map_map]
  refine List.map_congr_left fun value _ => ?_
  rw [Function.comp_apply, one_eq, number_sub]
  rfl

/-! ## Products of ratings -/

section Products

variable [IsStrictOrderedRing scalar] {values : List scalar}
  (unit : ∀ value ∈ values, 0 ≤ value ∧ value ≤ 1)

include unit

theorem prod_mem_unit : 0 ≤ values.prod ∧ values.prod ≤ 1 := by
  induction values with
  | nil => simp
  | cons first rest inductionHypothesis =>
      obtain ⟨⟨firstNonneg, firstAtMost⟩, restUnit⟩ := List.forall_mem_cons.mp unit
      obtain ⟨nonneg, atMost⟩ := inductionHypothesis restUnit
      rw [List.prod_cons]
      exact ⟨mul_nonneg firstNonneg nonneg, mul_le_one₀ firstAtMost nonneg atMost⟩

theorem prod_le_of_mem {value : scalar} (member : value ∈ values) : values.prod ≤ value := by
  induction values with
  | nil => cases member
  | cons first rest inductionHypothesis =>
      obtain ⟨⟨firstNonneg, firstAtMost⟩, restUnit⟩ := List.forall_mem_cons.mp unit
      obtain ⟨nonneg, atMost⟩ := prod_mem_unit restUnit
      rw [List.prod_cons]
      rcases List.mem_cons.mp member with rfl | behind
      · exact mul_le_of_le_one_right firstNonneg atMost
      · exact (mul_le_of_le_one_left nonneg firstAtMost).trans
          (inductionHypothesis restUnit behind)

theorem complements_unit : ∀ value ∈ values.map (1 - ·), 0 ≤ value ∧ value ≤ 1 := by
  intro value member
  obtain ⟨own, ownMember, rfl⟩ := List.mem_map.mp member
  obtain ⟨nonneg, atMost⟩ := unit own ownMember
  exact ⟨sub_nonneg.mpr atMost, sub_le_self 1 nonneg⟩

/-- No rating exceeds the complement of the product of the complements. -/
theorem le_one_sub_prod_complements {value : scalar} (member : value ∈ values) :
    value ≤ 1 - (values.map (1 - ·)).prod :=
  le_sub_comm.mp (prod_le_of_mem (complements_unit unit)
    (List.mem_map.mpr ⟨value, member, rfl⟩))

/-- The maximum at the end of a sum never changes it. -/
theorem probabilisticSum_number :
    probabilisticSum (values.map number) =
      (number (1 - (values.map (1 - ·)).prod) : Exact power) := by
  have atLeastGreatest (greatest : scalar) (atMost : greatest ≤ 1 - (values.map (1 - ·)).prod) :
      Arith.greatest (Arith.one - number (values.map (1 - ·)).prod) (number greatest) =
        (number (1 - (values.map (1 - ·)).prod) : Exact power) := by
    rw [one_eq, number_sub, greatest_number, max_eq_left atMost]
  unfold probabilisticSum
  rw [map_complement_number, foldl_mul_number]
  cases values with
  | nil =>
      change Arith.greatest _ Arith.zero = _
      rw [zero_eq]
      exact atLeastGreatest 0 (by simp)
  | cons first rest =>
      change Arith.greatest _ ((rest.map number).foldl Arith.greatest (number first)) = _
      rw [foldl_number greatest_number]
      have greatestEq : (first :: rest).max? = some (rest.foldl max first) := List.max?_cons'
      have isGreatest := List.max?_eq_some_iff.mp greatestEq
      exact atLeastGreatest _ (le_one_sub_prod_complements unit isGreatest.1)

/-- On ratings an operator computes its exact value. -/
theorem apply_number (operator : Operator) :
    operator.apply (values.map number) = (number (operator.exactly values) : Exact power) := by
  cases operator with
  | and =>
      cases values with
      | nil => exact one_eq
      | cons first rest => exact foldl_number least_number first rest
  | or =>
      cases values with
      | nil => exact zero_eq
      | cons first rest => exact foldl_number greatest_number first rest
  | product => exact foldl_mul_number values
  | sum => exact probabilisticSum_number unit
  | times =>
      rcases values with _ | ⟨value, _ | ⟨multiplier, rest⟩⟩
      · exact one_eq
      · rfl
      · exact number_mul value multiplier
  | average =>
      cases values with
      | nil =>
          rw [exactly, List.sum_nil, zero_div]
          exact zero_eq
      | cons first rest =>
          have count : ((rest.length + 1 : Nat) : scalar) ≠ 0 :=
            Nat.cast_ne_zero.mpr (Nat.succ_ne_zero _)
          change (rest.map number).foldl (· + ·) (number first) /
            Arith.ofNat ((rest.map number).length + 1) = _
          rw [foldl_number number_add, List.length_map, ofNat_eq, number_div _ count, exactly,
            List.sum_eq_foldl, List.foldl_cons, zero_add, List.length_cons]

end Products

/-! ## Order and duality -/

section Family

variable {values : List scalar}

omit [Field scalar] in
theorem exists_min? (nonempty : values ≠ []) : ∃ least, values.min? = some least :=
  Option.ne_none_iff_exists'.mp fun isNone => nonempty (List.min?_eq_none_iff.mp isNone)

omit [Field scalar] in
theorem exists_max? (nonempty : values ≠ []) : ∃ greatest, values.max? = some greatest :=
  Option.ne_none_iff_exists'.mp fun isNone => nonempty (List.max?_eq_none_iff.mp isNone)

theorem exactly_and {least : scalar} (isLeast : values.min? = some least) :
    and.exactly values = least := by
  rw [exactly, isLeast, Option.getD_some]

theorem exactly_or {greatest : scalar} (isGreatest : values.max? = some greatest) :
    or.exactly values = greatest := by
  rw [exactly, isGreatest, Option.getD_some]

/-- Apart from times, operators do not see the order of ratings. -/
theorem exactly_perm {operator : Operator} (notTimes : operator ≠ .times) {others : List scalar}
    (same : others.Perm values) : operator.exactly others = operator.exactly values := by
  cases operator with
  | and =>
      have sameLeast : others.min? = values.min? := Option.ext fun least => by
        simp only [List.min?_eq_some_iff, same.mem_iff]
      rw [exactly, exactly, sameLeast]
  | or =>
      have sameGreatest : others.max? = values.max? := Option.ext fun greatest => by
        simp only [List.max?_eq_some_iff, same.mem_iff]
      rw [exactly, exactly, sameGreatest]
  | product => exact same.prod_eq
  | sum =>
      rw [exactly, exactly, (same.map (1 - ·)).prod_eq]
  | times => exact absurd rfl notTimes
  | average => rw [exactly, exactly, same.sum_eq, same.length_eq]

variable [IsStrictOrderedRing scalar]

theorem exactly_or_eq (nonempty : values ≠ []) :
    or.exactly values = 1 - and.exactly (values.map (1 - ·)) := by
  obtain ⟨greatest, isGreatest⟩ := exists_max? nonempty
  obtain ⟨member, atMost⟩ := List.max?_eq_some_iff.mp isGreatest
  have isLeast : (values.map (1 - ·)).min? = some (1 - greatest) := by
    refine List.min?_eq_some_iff.mpr ⟨List.mem_map.mpr ⟨greatest, member, rfl⟩, ?_⟩
    intro complement complementMember
    obtain ⟨value, valueMember, rfl⟩ := List.mem_map.mp complementMember
    exact sub_le_sub_left (atMost value valueMember) 1
  rw [exactly_or isGreatest, exactly_and isLeast, sub_sub_cancel]

/-- The average lies between the least and the greatest value. -/
theorem exactly_average_mem (nonempty : values ≠ []) :
    and.exactly values ≤ average.exactly values ∧ average.exactly values ≤ or.exactly values := by
  obtain ⟨least, isLeast⟩ := exists_min? nonempty
  obtain ⟨greatest, isGreatest⟩ := exists_max? nonempty
  have count : (0 : scalar) < values.length :=
    Nat.cast_pos.mpr (List.length_pos_iff.mpr nonempty)
  have atLeast := values.card_nsmul_le_sum least (List.min?_eq_some_iff.mp isLeast).2
  have atMost := values.sum_le_card_nsmul greatest (List.max?_eq_some_iff.mp isGreatest).2
  rw [nsmul_eq_mul] at atLeast atMost
  rw [exactly_and isLeast, exactly_or isGreatest, exactly]
  exact ⟨(le_div_iff₀' count).mpr atLeast, (div_le_iff₀' count).mpr atMost⟩

theorem exactly_product_le_and (nonempty : values ≠ [])
    (unit : ∀ value ∈ values, 0 ≤ value ∧ value ≤ 1) :
    product.exactly values ≤ and.exactly values := by
  obtain ⟨least, isLeast⟩ := exists_min? nonempty
  rw [exactly_and isLeast]
  exact prod_le_of_mem unit (List.min?_eq_some_iff.mp isLeast).1

theorem exactly_or_le_sum (nonempty : values ≠ [])
    (unit : ∀ value ∈ values, 0 ≤ value ∧ value ≤ 1) :
    or.exactly values ≤ sum.exactly values := by
  obtain ⟨greatest, isGreatest⟩ := exists_max? nonempty
  rw [exactly_or isGreatest]
  exact le_one_sub_prod_complements unit (List.max?_eq_some_iff.mp isGreatest).1

end Family

/-! ## Ratings that may be absent -/

/-- The numbers among ratings. -/
def numbers (ratings : List (Option (Exact power))) : List scalar :=
  ratings.reduceOption.filterMap number?

section Ratings

variable {ratings : List (Option (Exact power))}

theorem rated_eq (ratings : List (Option (Exact power))) :
    rated ratings = (numbers ratings).map number := by
  induction ratings with
  | nil => rfl
  | cons rating rest inductionHypothesis =>
      rcases rating with _ | value | _
      · exact inductionHypothesis
      · exact congrArg (number value :: ·) inductionHypothesis
      · exact inductionHypothesis

theorem numbers_complement (ratings : List (Option (Exact power))) :
    numbers (ratings.map (Option.map (Arith.one - ·))) = (numbers ratings).map (1 - ·) := by
  induction ratings with
  | nil => rfl
  | cons rating rest inductionHypothesis =>
      rcases rating with _ | value | _
      · exact inductionHypothesis
      · rw [List.map_cons, Option.map_some, one_eq, number_sub]
        rw [one_eq] at inductionHypothesis
        exact congrArg ((1 - value) :: ·) inductionHypothesis
      · exact inductionHypothesis

omit [Field scalar] [LinearOrder scalar] in
theorem numbers_perm {others : List (Option (Exact power))}
    (same : others.reduceOption.Perm ratings.reduceOption) :
    (numbers others).Perm (numbers ratings) :=
  same.filterMap number?

omit [Field scalar] [LinearOrder scalar] in
theorem mem_numbers_iff {value : scalar} :
    value ∈ numbers ratings ↔ some (number value) ∈ ratings := by
  unfold numbers
  rw [List.mem_filterMap]
  constructor
  · rintro ⟨rating, member, isNumber⟩
    rw [List.reduceOption_mem_iff] at member
    cases rating with
    | notANumber => cases isNumber
    | number own =>
        cases isNumber
        exact member
  · exact fun member => ⟨number value, List.reduceOption_mem_iff.mpr member, rfl⟩

variable (inUnit : ∀ rating ∈ ratings, ∀ value ∈ rating, value.InUnit)

include inUnit

theorem numbers_unit : ∀ value ∈ numbers ratings, 0 ≤ value ∧ value ≤ 1 := by
  intro value member
  obtain ⟨nonneg, atMost⟩ := inUnit _ (mem_numbers_iff.mp member) _ rfl
  exact ⟨nonneg, atMost⟩

theorem numbers_ne_nil (someRated : ∃ value, some value ∈ ratings) : numbers ratings ≠ [] := by
  obtain ⟨value, member⟩ := someRated
  obtain @⟨own, _, _⟩ := inUnit _ member _ rfl
  exact List.ne_nil_of_mem (mem_numbers_iff.mpr member)

omit inUnit in
theorem combine_number [IsStrictOrderedRing scalar] (operator : Operator)
    (unit : ∀ value ∈ numbers ratings, 0 ≤ value ∧ value ≤ 1) (nonempty : numbers ratings ≠ []) :
    combine operator ratings = some (number (operator.exactly (numbers ratings))) := by
  obtain ⟨first, rest, numbersEq⟩ := List.exists_cons_of_ne_nil nonempty
  rw [← apply_number unit operator, numbersEq]
  unfold combine
  rw [rated_eq, numbersEq]
  rfl

variable [IsStrictOrderedRing scalar]

/-- On ratings that are not all absent, operators are in order, in pairs of opposites, and, apart from
times, see neither the order of ratings nor absent ones. -/
theorem combine_family (someRated : ∃ value, some value ∈ ratings) :
    (∃ product least average greatest sum : scalar,
      combine .product ratings = some (number product) ∧
      combine .and ratings = some (number least) ∧
      combine .average ratings = some (number average) ∧
      combine .or ratings = some (number greatest) ∧
      combine .sum ratings = some (number sum) ∧
      0 ≤ product ∧ product ≤ least ∧ least ≤ average ∧ average ≤ greatest ∧
      greatest ≤ sum ∧ sum ≤ 1) ∧
    combine .or ratings =
      (combine .and (ratings.map (Option.map (Arith.one - ·)))).map (Arith.one - ·) ∧
    combine .sum ratings =
      (combine .product (ratings.map (Option.map (Arith.one - ·)))).map (Arith.one - ·) ∧
    probabilisticSum (rated ratings) =
      Arith.one - ((rated ratings).map (Arith.one - ·)).foldl (· * ·) Arith.one ∧
    ∀ operator, operator ≠ .times → ∀ others : List (Option (Exact power)),
      others.reduceOption.Perm ratings.reduceOption →
      combine operator others = combine operator ratings := by
  have unit := numbers_unit inUnit
  have nonempty := numbers_ne_nil inUnit someRated
  have complementsUnit : ∀ value ∈ numbers (ratings.map (Option.map (Arith.one - ·))),
      0 ≤ value ∧ value ≤ 1 := by
    rw [numbers_complement]
    exact complements_unit unit
  have complementsNonempty : numbers (ratings.map (Option.map (Arith.one - ·))) ≠ [] := by
    rw [numbers_complement]
    exact List.map_eq_nil_iff.not.mpr nonempty
  refine ⟨?_, ?_, ?_, ?_, ?_⟩
  · obtain ⟨atLeast, atMost⟩ := exactly_average_mem nonempty
    exact ⟨_, _, _, _, _, combine_number .product unit nonempty,
      combine_number .and unit nonempty, combine_number .average unit nonempty,
      combine_number .or unit nonempty, combine_number .sum unit nonempty,
      (prod_mem_unit unit).1, exactly_product_le_and nonempty unit, atLeast, atMost,
      exactly_or_le_sum nonempty unit, sub_le_self 1 (prod_mem_unit (complements_unit unit)).1⟩
  · rw [combine_number .or unit nonempty, combine_number .and complementsUnit complementsNonempty,
      numbers_complement, exactly_or_eq nonempty, Option.map_some, one_eq, number_sub]
  · rw [combine_number .sum unit nonempty,
      combine_number .product complementsUnit complementsNonempty, numbers_complement,
      Option.map_some, one_eq, number_sub]
    rfl
  · rw [rated_eq, probabilisticSum_number unit, map_complement_number, foldl_mul_number, one_eq,
      number_sub]
  · intro operator notTimes others same
    have sameNumbers := numbers_perm same
    have othersUnit : ∀ value ∈ numbers others, 0 ≤ value ∧ value ≤ 1 :=
      fun value member => unit value (sameNumbers.mem_iff.mp member)
    have othersNonempty : numbers others ≠ [] := fun isNil =>
      nonempty (List.nil_perm.mp (isNil ▸ sameNumbers))
    rw [combine_number operator unit nonempty, combine_number operator othersUnit othersNonempty,
      exactly_perm notTimes sameNumbers]

end Ratings

/-- A half and a quarter, and one rating that is absent. -/
def partlyRated : List (Option (Exact wholePower)) :=
  [some (number (1 / 2)), none, some (number (1 / 4))]

theorem combine_family_partlyRated :
    (∃ product least average greatest sum : ℚ,
      combine .product partlyRated = some (number product) ∧
      combine .and partlyRated = some (number least) ∧
      combine .average partlyRated = some (number average) ∧
      combine .or partlyRated = some (number greatest) ∧
      combine .sum partlyRated = some (number sum) ∧
      0 ≤ product ∧ product ≤ least ∧ least ≤ average ∧ average ≤ greatest ∧
      greatest ≤ sum ∧ sum ≤ 1) ∧
    combine .or partlyRated =
      (combine .and (partlyRated.map (Option.map (Arith.one - ·)))).map (Arith.one - ·) ∧
    combine .sum partlyRated = some (number (5 / 8)) ∧
    combine .average [none, some (number (1 / 4)), none, some (number (1 / 2))] =
      combine .average partlyRated := by
  have checked : ∀ rating ∈ partlyRated, ∀ value ∈ rating, Arith.inUnit value = true := by
    decide +kernel
  obtain ⟨ordered, orDual, sumDual, _, unnoticed⟩ := combine_family
    (fun rating member value isValue => inUnit_iff.mp (checked rating member value isValue))
    ⟨number (1 / 2), List.mem_cons_self⟩
  refine ⟨ordered, orDual, sumDual.trans (by decide +kernel), unnoticed .average (by decide) _ ?_⟩
  exact List.Perm.swap (number (1 / 2)) (number (1 / 4)) []

end Operator

end FuzzyRating
