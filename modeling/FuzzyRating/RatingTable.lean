import FuzzyRating.Arith
import FuzzyRating.Decimal.Layout

/-!
Classes of ratings, and the tables that say from which rating on a class applies.
-/

namespace FuzzyRating

inductive RatingClass where
  | notRated
  | slight
  | moderate
  | severe
  | verySevere
  deriving DecidableEq, Repr

namespace RatingClass

def label : RatingClass → String
  | notRated => "not rated"
  | slight => "slight"
  | moderate => "moderate"
  | severe => "severe"
  | verySevere => "very severe"

def variants : List (String × RatingClass) :=
  [notRated, slight, moderate, severe, verySevere].map fun rank => (rank.label, rank)

end RatingClass

/-- A class that applies from `threshold` upward. -/
structure RatingThreshold (num : Type) where
  threshold : num
  rank : RatingClass
  deriving Repr, DecidableEq

/-- Why a list of thresholds is not a table. -/
inductive TableError (num : Type) where
  | empty
  | notFinite (threshold : num)
  | notRatedAssigned
  | notAscending (threshold previous : num)
  deriving Repr

def TableError.reason : TableError Float → String
  | empty => "table is empty"
  | notFinite threshold => "threshold " ++ Layout.message.write threshold ++ " is not finite"
  | notRatedAssigned => "'not rated' cannot be assigned to a threshold"
  | notAscending threshold previous =>
      "thresholds must ascend, found " ++ Layout.message.write threshold ++ " after " ++
        Layout.message.write previous

def TableError.message (error : TableError Float) : String :=
  "invalid rating table: " ++ error.reason

/-- Thresholds, in a table lowest first. -/
structure RatingTable (num : Type) where
  thresholds : List (RatingThreshold num)
  deriving Repr

namespace RatingTable

variable {num : Type} [Arith num]

/-- The first neighbours of which the second is not above the first, second one first. -/
def firstDescent? : List (RatingThreshold num) → Option (num × num)
  | a :: b :: rest =>
      if Arith.le b.threshold a.threshold then some (b.threshold, a.threshold)
      else firstDescent? (b :: rest)
  | _ => none

/-- A table of finite and ascending thresholds, none of which stands for "not rated". -/
def ofThresholds (thresholds : List (RatingThreshold num)) :
    Except (TableError num) (RatingTable num) := do
  if thresholds.isEmpty then
    throw .empty
  if let some entry := thresholds.find? fun entry => !Arith.isFinite entry.threshold then
    throw (.notFinite entry.threshold)
  if thresholds.any (·.rank == .notRated) then
    throw .notRatedAssigned
  if let some (threshold, previous) := firstDescent? thresholds then
    throw (.notAscending threshold previous)
  return ⟨thresholds⟩

/-- Four classes of equal size. -/
def standard : RatingTable num :=
  let quarter (n : Nat) : num := Arith.ofNat n / Arith.ofNat 4
  ⟨[⟨quarter 0, .slight⟩, ⟨quarter 1, .moderate⟩, ⟨quarter 2, .severe⟩,
    ⟨quarter 3, .verySevere⟩]⟩

/-- The class of the last threshold at or below a rating, or of the first one if there is none. -/
def classify (table : RatingTable num) (rating : Option num) : RatingClass :=
  match rating.filter fun value => !Arith.isNaN value with
  | none => .notRated
  | some value =>
      let below := table.thresholds.takeWhile fun entry => Arith.le entry.threshold value
      match below.getLast?.or table.thresholds.head? with
      | some entry => entry.rank
      | none => .notRated

end RatingTable

end FuzzyRating
