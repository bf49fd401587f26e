import FuzzyRating.Arith
import FuzzyRating.Keyword

/-!
How operators combine ratings and how hedges change them. A rating that is absent means "not rated".
-/

namespace FuzzyRating

variable {num : Type} [Arith num]

namespace Operator

/-- The complement of the product of the complements, but never less than the greatest value. -/
def probabilisticSum (values : List num) : num :=
  let complement := (values.map (Arith.one - ·)).foldl (· * ·) Arith.one
  let greatest := match values with
    | [] => Arith.zero
    | value :: rest => rest.foldl Arith.greatest value
  Arith.greatest (Arith.one - complement) greatest

/-- The value of an operator on a list. On the empty list it is the neutral element, and zero for
the average. -/
def apply : Operator → List num → num
  | and, [] => Arith.one
  | and, value :: rest => rest.foldl Arith.least value
  | or, [] => Arith.zero
  | or, value :: rest => rest.foldl Arith.greatest value
  | product, values => values.foldl (· * ·) Arith.one
  | sum, values => probabilisticSum values
  | times, [] => Arith.one
  | times, [value] => value
  | times, value :: multiplier :: _ => value * multiplier
  | average, [] => Arith.zero
  | average, value :: rest =>
      rest.foldl (· + ·) value / Arith.ofNat (rest.length + 1)

/-- The ratings that are present and are numbers. -/
def rated (values : List (Option num)) : List num :=
  values.filterMap fun value? => value?.filter fun value => !Arith.isNaN value

/-- Combines the ratings that are present. Without any there is nothing to combine. -/
def combine (operator : Operator) (values : List (Option num)) : Option num :=
  match rated values with
  | [] => none
  | values => some (operator.apply values)

end Operator

namespace Hedge

/-- A power of a rating, with a negative rating taken as zero. -/
def raise (exponent value : num) : num :=
  Arith.pow (Arith.greatest value Arith.zero) exponent

/-- The rating after a hedge. Only the hedges that replace an absent rating make one present. -/
def apply (parameter : Option num) : Hedge → Option num → Option num
  | not, value => value.map (Arith.one - ·)
  | power, value => value.map (raise (parameter.getD Arith.one))
  | very, value => value.map (raise (Arith.ofNat 2))
  | somewhat, value => value.map (raise (Arith.one / Arith.ofNat 2))
  | limit, value => value.map Arith.clampUnit
  | nullOr, value => some (value.getD Arith.zero)
  | notNullAnd, value => some (value.getD Arith.one)
  | nullNotRated, value => value

end Hedge

end FuzzyRating
