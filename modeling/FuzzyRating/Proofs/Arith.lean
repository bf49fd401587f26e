import FuzzyRating.Arith

/-!
The order of finite numbers.
-/

namespace FuzzyRating

/-- Numbers of which any two that are finite compare. -/
class FiniteOrder (num : Type) [Arith num] : Prop where
  le_total : ∀ a b : num, Arith.isFinite a = true → Arith.isFinite b = true →
    Arith.le a b = true ∨ Arith.le b a = true

open Float.Model in
/-- Finite doubles compare, and the other way round they compare the other way. -/
private theorem compare_of_isFinite {a b : UnpackedFloat} (aFinite : a.isFinite = true)
    (bFinite : b.isFinite = true) :
    ∃ order, a.compare b = some order ∧ b.compare a = some order.swap := by
  cases a with
  | notANumber => cases aFinite
  | infinity => cases aFinite
  | zero =>
      cases b with
      | notANumber => cases bFinite
      | infinity => cases bFinite
      | zero => exact ⟨.eq, rfl, rfl⟩
      | finite bSign =>
          cases bSign with
          | positive => exact ⟨.lt, rfl, rfl⟩
          | negative => exact ⟨.gt, rfl, rfl⟩
  | finite aSign aMantissa aExponent =>
      cases b with
      | notANumber => cases bFinite
      | infinity => cases bFinite
      | zero =>
          cases aSign with
          | positive => exact ⟨.gt, rfl, rfl⟩
          | negative => exact ⟨.lt, rfl, rfl⟩
      | finite bSign bMantissa bExponent =>
          have mirrored : (compare bExponent aExponent).then (compare bMantissa aMantissa) =
              ((compare aExponent bExponent).then (compare aMantissa bMantissa)).swap := by
            have exponents : compare bExponent aExponent = (compare aExponent bExponent).swap :=
              Std.OrientedCmp.eq_swap
            have mantissas : compare bMantissa aMantissa = (compare aMantissa bMantissa).swap :=
              Std.OrientedCmp.eq_swap
            rw [Ordering.swap_then, exponents, mantissas]
          cases aSign with
          | positive =>
              cases bSign with
              | positive => exact ⟨_, rfl, congrArg some mirrored⟩
              | negative => exact ⟨.gt, rfl, rfl⟩
          | negative =>
              cases bSign with
              | positive => exact ⟨.lt, rfl, rfl⟩
              | negative => exact ⟨_, rfl, congrArg (some ∘ Ordering.swap) mirrored⟩

instance : FiniteOrder Float where
  le_total a b aFinite bFinite := by
    obtain ⟨order, forwards, backwards⟩ := compare_of_isFinite aFinite bFinite
    have leIff : ∀ x y : Float, Arith.le x y = true ↔
        (x.toModel.unpack.compare y.toModel.unpack).any Ordering.isLE = true := by
      intro x y
      change decide (x ≤ y) = true ↔ _
      rw [decide_eq_true_iff]
      change decide (x.toModel ≤ y.toModel) = true ↔ _
      rw [decide_eq_true_iff]
      rfl
    rw [leIff, leIff, forwards, backwards]
    cases order with
    | lt => exact Or.inl rfl
    | eq => exact Or.inl rfl
    | gt => exact Or.inr rfl

end FuzzyRating
