import FuzzyRating.Assessment.Evaluate
import FuzzyRating.Proofs.Exact.Number
import Mathlib.Tactic.Linarith

/-!
Operators and hedges keep ratings between zero and one, computed exactly.
-/

namespace FuzzyRating

open Exact

variable {scalar : Type} [Field scalar] [LinearOrder scalar] [IsStrictOrderedRing scalar]
  {power : scalar → scalar → scalar}

/-! ## Operators -/

namespace Operator

omit [IsStrictOrderedRing scalar] in
theorem foldl_inUnit {step : Exact power → Exact power → Exact power}
    (kept : ∀ a b : Exact power, a.InUnit → b.InUnit → (step a b).InUnit)
    {first : Exact power} {rest : List (Exact power)}
    (inUnit : ∀ value ∈ first :: rest, value.InUnit) :
    (rest.foldl step first).InUnit := by
  induction rest generalizing first with
  | nil => exact inUnit first List.mem_cons_self
  | cons second rest inductionHypothesis =>
      obtain ⟨firstInUnit, secondInUnit, restInUnit⟩ := by
        simpa only [List.forall_mem_cons] using inUnit
      exact inductionHypothesis (List.forall_mem_cons.mpr
        ⟨kept first second firstInUnit secondInUnit, restInUnit⟩)

theorem product_inUnit {values : List (Exact power)} (inUnit : ∀ value ∈ values, value.InUnit) :
    (values.foldl (· * ·) Arith.one).InUnit :=
  foldl_inUnit (fun _ _ => InUnit.mul) (List.forall_mem_cons.mpr ⟨inUnit_one, inUnit⟩)

theorem probabilisticSum_inUnit {values : List (Exact power)}
    (inUnit : ∀ value ∈ values, value.InUnit) :
    (probabilisticSum values).InUnit := by
  have complements : ∀ value ∈ values.map (Arith.one - ·), value.InUnit := by
    intro value member
    obtain ⟨own, ownMember, rfl⟩ := List.mem_map.mp member
    exact (inUnit own ownMember).complement
  refine (product_inUnit complements).complement.greatest ?_
  cases values with
  | nil => exact inUnit_zero
  | cons value rest => exact foldl_inUnit (fun _ _ => InUnit.greatest) inUnit

/-- A sum of ratings is not greater than their number. -/
private theorem exists_foldl_add {values : List (Exact power)}
    (inUnit : ∀ value ∈ values, value.InUnit) {start bound : scalar} (nonneg : 0 ≤ start)
    (atMost : start ≤ bound) :
    ∃ total : scalar, values.foldl (· + ·) (number start) = number total ∧ 0 ≤ total ∧
      total ≤ bound + values.length := by
  induction values generalizing start bound with
  | nil => exact ⟨start, rfl, nonneg, by simpa using atMost⟩
  | cons value values inductionHypothesis =>
      obtain @⟨own, ownNonneg, ownAtMostOne⟩ := inUnit value List.mem_cons_self
      obtain ⟨total, totalEq, totalNonneg, totalAtMost⟩ := inductionHypothesis
        (fun other member => inUnit other (List.mem_cons_of_mem _ member))
        (add_nonneg nonneg ownNonneg) (add_le_add atMost ownAtMostOne)
      refine ⟨total, totalEq, totalNonneg, ?_⟩
      rw [List.length_cons, Nat.cast_succ]
      linarith

theorem average_inUnit {value : Exact power} {rest : List (Exact power)}
    (inUnit : ∀ other ∈ value :: rest, other.InUnit) :
    (rest.foldl (· + ·) value / Arith.ofNat (rest.length + 1)).InUnit := by
  obtain @⟨own, ownNonneg, ownAtMostOne⟩ := inUnit value List.mem_cons_self
  obtain ⟨total, totalEq, totalNonneg, totalAtMost⟩ := exists_foldl_add
    (fun other member => inUnit other (List.mem_cons_of_mem _ member)) ownNonneg ownAtMostOne
  have countPos : (0 : scalar) < (rest.length + 1 : Nat) := Nat.cast_pos.mpr (Nat.succ_pos _)
  rw [totalEq, ofNat_eq, number_div total countPos.ne']
  refine .number (div_nonneg totalNonneg countPos.le) ((div_le_one countPos).mpr ?_)
  rwa [Nat.cast_succ, add_comm]

theorem apply_inUnit (operator : Operator) {values : List (Exact power)}
    (inUnit : ∀ value ∈ values, value.InUnit) :
    (operator.apply values).InUnit := by
  cases operator with
  | and =>
      cases values with
      | nil => exact inUnit_one
      | cons value rest => exact foldl_inUnit (fun _ _ => InUnit.least) inUnit
  | or =>
      cases values with
      | nil => exact inUnit_zero
      | cons value rest => exact foldl_inUnit (fun _ _ => InUnit.greatest) inUnit
  | product => exact product_inUnit inUnit
  | sum => exact probabilisticSum_inUnit inUnit
  | times =>
      rcases values with _ | ⟨value, _ | ⟨multiplier, rest⟩⟩
      · exact inUnit_one
      · exact inUnit value List.mem_cons_self
      · exact (inUnit value List.mem_cons_self).mul (inUnit multiplier (by simp))
  | average =>
      cases values with
      | nil => exact inUnit_zero
      | cons value rest => exact average_inUnit inUnit

theorem combine_inUnit (operator : Operator) {ratings : List (Option (Exact power))}
    (inUnit : ∀ rating ∈ ratings, ∀ value ∈ rating, value.InUnit) :
    ∀ value ∈ operator.combine ratings, value.InUnit := by
  intro value isCombined
  have ratedInUnit : ∀ value ∈ rated ratings, value.InUnit := by
    intro value member
    obtain ⟨rating, ratingMember, kept⟩ := List.mem_filterMap.mp member
    exact inUnit rating ratingMember value (Option.filter_eq_some_iff.mp kept).1
  unfold combine at isCombined
  split at isCombined
  · cases isCombined
  · cases isCombined
    exact operator.apply_inUnit ratedInUnit

end Operator

/-! ## Hedges -/

namespace Hedge

theorem raise_inUnit (keepsUnit : KeepsUnit power) {exponent : scalar} (nonneg : 0 ≤ exponent)
    {value : Exact power} (inUnit : value.InUnit) :
    (raise (number exponent) value).InUnit := by
  have based := inUnit.greatest inUnit_zero
  unfold raise
  generalize Arith.greatest value Arith.zero = base at based
  obtain ⟨baseNonneg, baseAtMostOne⟩ := based
  obtain ⟨powerNonneg, powerAtMostOne⟩ := keepsUnit _ exponent baseNonneg baseAtMostOne nonneg
  rw [pow_number]
  exact .number powerNonneg powerAtMostOne

omit [IsStrictOrderedRing scalar] in
/-- The exponents that rules may give. -/
theorem exists_exponent {exponent : Exact power} (finite : Arith.isFinite exponent = true)
    (atLeastZero : Arith.le Arith.zero exponent = true) :
    ∃ value : scalar, exponent = number value ∧ 0 ≤ value := by
  obtain ⟨value, rfl⟩ := isFinite_iff.mp finite
  rw [zero_eq, le_number, decide_eq_true_eq] at atLeastZero
  exact ⟨value, rfl, atLeastZero⟩

/-- Three of the hedges take powers. -/
theorem exists_raise {hedge : Hedge} (raises : hedge ∈ [Hedge.power, .very, .somewhat])
    {parameter : Option (Exact power)}
    (accepted : ∀ exponent ∈ parameter,
      Arith.isFinite exponent = true ∧ Arith.le Arith.zero exponent = true) :
    ∃ exponent : scalar, 0 ≤ exponent ∧ ∀ rating : Option (Exact power),
      hedge.apply parameter rating = rating.map (raise (number exponent)) := by
  simp only [List.mem_cons, List.not_mem_nil, or_false] at raises
  rcases raises with rfl | rfl | rfl
  · cases parameter with
    | none => exact ⟨1, zero_le_one, fun _ => by rw [apply, Option.getD_none, one_eq]⟩
    | some exponent =>
        obtain ⟨finite, atLeastZero⟩ := accepted exponent rfl
        obtain ⟨number, rfl, nonneg⟩ := exists_exponent finite atLeastZero
        exact ⟨number, nonneg, fun _ => rfl⟩
  · exact ⟨(2 : Nat), Nat.cast_nonneg 2, fun _ => rfl⟩
  · have two : ((2 : Nat) : scalar) ≠ 0 := Nat.cast_ne_zero.mpr (by decide)
    refine ⟨1 / (2 : Nat), div_nonneg zero_le_one (Nat.cast_nonneg 2), fun _ => ?_⟩
    rw [apply, one_eq, ofNat_eq, number_div 1 two]

theorem apply_inUnit (keepsUnit : KeepsUnit power) (hedge : Hedge)
    {parameter : Option (Exact power)}
    (accepted : ∀ exponent ∈ parameter,
      Arith.isFinite exponent = true ∧ Arith.le Arith.zero exponent = true)
    {rating : Option (Exact power)} (inUnit : ∀ value ∈ rating, value.InUnit) :
    ∀ value ∈ hedge.apply parameter rating, value.InUnit := by
  have mapped {change : Exact power → Exact power}
      (kept : ∀ value : Exact power, value.InUnit → (change value).InUnit) :
      ∀ value ∈ rating.map change, value.InUnit := by
    intro value isChanged
    obtain ⟨own, isRating, rfl⟩ := Option.map_eq_some_iff.mp isChanged
    exact kept own (inUnit own isRating)
  have raised (raises : hedge ∈ [Hedge.power, .very, .somewhat]) :
      ∀ value ∈ hedge.apply parameter rating, value.InUnit := by
    obtain ⟨exponent, nonneg, applied⟩ := exists_raise raises accepted
    rw [applied]
    exact mapped fun _ => raise_inUnit keepsUnit nonneg
  cases hedge with
  | not => exact mapped fun _ => InUnit.complement
  | power | very | somewhat => exact raised (by decide)
  | limit =>
      refine mapped fun value valueInUnit => ?_
      rwa [valueInUnit.clampUnit]
  | nullOr =>
      rintro value ⟨⟩
      cases rating with
      | none => exact inUnit_zero
      | some own => exact inUnit own rfl
  | notNullAnd =>
      rintro value ⟨⟩
      cases rating with
      | none => exact inUnit_one
      | some own => exact inUnit own rfl
  | nullNotRated => exact inUnit

end Hedge

/-! ## What nodes come to -/

namespace NodeValue

/-- The rating lies between zero and one, if there is one. -/
def InUnit (value : NodeValue (Exact power)) : Prop :=
  ∀ rating ∈ value.rating, rating.InUnit

omit [IsStrictOrderedRing scalar] in
theorem ofRating_inUnit {rating : Option (Exact power)}
    (inUnit : ∀ value ∈ rating, value.InUnit) : (ofRating rating).InUnit := by
  cases rating with
  | none => rintro value ⟨⟩
  | some own => exact inUnit

theorem combine_inUnit (policy : MissingData) (operator : Operator)
    {values : List (NodeValue (Exact power))} (inUnit : ∀ value ∈ values, value.InUnit) :
    (combine policy operator values).InUnit := by
  unfold combine
  split
  · rintro value ⟨⟩
  · split
    · rintro value ⟨⟩
    · refine ofRating_inUnit (operator.combine_inUnit fun rating member => ?_)
      obtain ⟨value, valueMember, rfl⟩ := List.mem_map.mp member
      exact inUnit value valueMember

theorem hedged_inUnit (keepsUnit : KeepsUnit power) (hedge : Hedge)
    {parameter : Option (Exact power)}
    (accepted : ∀ exponent ∈ parameter,
      Arith.isFinite exponent = true ∧ Arith.le Arith.zero exponent = true)
    {value : NodeValue (Exact power)} (inUnit : value.InUnit) :
    (value.hedged hedge parameter).InUnit := by
  cases value with
  | vetoed => exact inUnit
  | notRated =>
      have replaced : (ofRating (hedge.apply parameter none)).InUnit :=
        ofRating_inUnit (hedge.apply_inUnit keepsUnit accepted (by rintro value ⟨⟩))
      change (if hedge = .nullNotRated then vetoed else ofRating _).InUnit
      split
      · rintro value ⟨⟩
      · exact replaced
  | rated value => exact ofRating_inUnit (hedge.apply_inUnit keepsUnit accepted inUnit)

end NodeValue

end FuzzyRating
