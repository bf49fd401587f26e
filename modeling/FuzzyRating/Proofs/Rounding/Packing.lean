import FuzzyRating.Proofs.Rounding.Operations
import Mathlib

/-!
Packing a rounded double keeps it if its exponent fits, and makes it an infinity otherwise. With
that the operations on doubles are the exact ones with a rounding behind them.
-/

namespace FuzzyRating.Rounding

open Float.Model Float.Model.UnpackedFloat

/-! ## What packing keeps -/

section

variable {sign : Sign} {mantissa : ℕ} {exponent : ℤ} {positive : 0 < mantissa}

/-- The double with given sign, exponent field and mantissa field. -/
def ofFields (sign : Sign) (exponentField mantissaField : ℕ) : UnpackedFloat :=
  if exponentField = 2047 then
    if mantissaField = 0 then .infinity sign else .notANumber
  else if exponentField = 0 then
    assembled sign mantissaField (-1074)
  else
    assembled sign (2 ^ 52 + mantissaField) (exponentField - 1075)

theorem toNat_hidden_append (mantissaField : BitVec 52) :
    (1#1 ++ mantissaField).toNat = 2 ^ 52 + mantissaField.toNat := by
  rw [BitVec.toNat_append, ← Nat.shiftLeft_add_eq_or_of_lt mantissaField.isLt]
  rfl

theorem unpack_eq (bits : BitVec Format.binary64.numBits) :
    UnpackedFloat.unpack Format.binary64 bits =
      ofFields (Sign.ofBitVec (unpackSign bits)) (unpackExponent bits).toNat
        (unpackMantissa bits).toNat := by
  unfold UnpackedFloat.unpack ofFields
  dsimp only
  generalize @unpackExponent Format.binary64 bits = exponentField
  have isZero : @unpackMantissa Format.binary64 bits = 0#52 ↔
      (@unpackMantissa Format.binary64 bits).toNat = 0 := BitVec.toNat_eq
  by_cases isAll : exponentField = -1#_
  · have field : exponentField.toNat = 2047 := by
      rw [isAll]
      rfl
    rw [if_pos isAll, if_pos field]
    exact if_congr isZero rfl rfl
  · have field : exponentField.toNat ≠ 2047 := fun all => isAll (BitVec.eq_of_toNat_eq all)
    rw [if_neg isAll, if_neg field]
    by_cases isLeast : exponentField = 0#_
    · have leastField : exponentField.toNat = 0 := by
        rw [isLeast]
        rfl
      rw [if_pos isLeast, if_pos leastField, leastField]
      by_cases nothing : @unpackMantissa Format.binary64 bits = 0#52
      · rw [dif_pos nothing, assembled, dif_pos (isZero.mp nothing)]
      · rw [dif_neg nothing, assembled_of_pos (Nat.pos_of_ne_zero (nothing ∘ isZero.mpr))]
        rfl
    · have leastField : exponentField.toNat ≠ 0 :=
        fun least => isLeast (BitVec.eq_of_toNat_eq least)
      rw [if_neg isLeast, if_neg leastField, assembled_of_pos (by omega)]
      congr 1
      exact toNat_hidden_append _

theorem unpack_packComponents (sign : Sign)
    (packedExponent : BitVec Format.binary64.exponentBits)
    (packedMantissa : BitVec Format.binary64.mantissaBitsWithoutImplicit) :
    UnpackedFloat.unpack Format.binary64
        (packComponents Format.binary64 sign packedExponent packedMantissa) =
      ofFields sign packedExponent.toNat packedMantissa.toNat := by
  rw [unpack_eq, unpackSign_packComponents, unpackExponent_packComponents,
    unpackMantissa_packComponents, Sign.ofBitVec_toBitVec]

theorem unpack_pack_infinity (sign : Sign) :
    UnpackedFloat.unpack Format.binary64 (UnpackedFloat.pack Format.binary64 (.infinity sign)) =
      .infinity sign :=
  unpack_packComponents sign (-1#_) 0

theorem pack_finite (sign : Sign) (mantissa : ℕ) (exponent : ℤ) (positive : 0 < mantissa) :
    UnpackedFloat.pack Format.binary64 (.finite sign mantissa exponent positive) =
      if 2048 ≤ (exponent + 1023 + 52).toNat + 1 then
        UnpackedFloat.pack Format.binary64 (.infinity sign)
      else if mantissa.log2 + 1 = 53 then
        packComponents Format.binary64 sign (BitVec.ofNat _ (exponent + 1023 + 52).toNat)
          (BitVec.ofNat _ mantissa)
      else
        packComponents Format.binary64 sign 0#_ (BitVec.ofNat _ mantissa) :=
  rfl

theorem unpack_pack_of_gt (beyond : 971 < exponent) :
    UnpackedFloat.unpack Format.binary64
        (UnpackedFloat.pack Format.binary64 (.finite sign mantissa exponent positive)) =
      .infinity sign := by
  rw [pack_finite, if_pos (by omega), unpack_pack_infinity]

theorem unpack_pack_of_le (canonical : Canonical (.finite sign mantissa exponent positive))
    (within : exponent ≤ 971) :
    UnpackedFloat.unpack Format.binary64
        (UnpackedFloat.pack Format.binary64 (.finite sign mantissa exponent positive)) =
      .finite sign mantissa exponent positive := by
  obtain _ | ⟨fits, least, full⟩ := canonical
  rw [pack_finite, if_neg (by omega)]
  by_cases normal : 2 ^ 52 ≤ mantissa
  · have log : mantissa.log2 + 1 = 53 := by
      have := (Nat.log2_eq_iff positive.ne').mpr ⟨normal, fits⟩
      omega
    have exponentKept : (exponent + 1023 + 52).toNat % 2 ^ Format.binary64.exponentBits =
        (exponent + 1023 + 52).toNat := by
      apply Nat.mod_eq_of_lt
      change _ < 2048
      omega
    have mantissaKept : 2 ^ 52 + mantissa % 2 ^ Format.binary64.mantissaBitsWithoutImplicit =
        mantissa := by
      change 2 ^ 52 + mantissa % 2 ^ 52 = mantissa
      omega
    rw [if_pos log, unpack_packComponents, BitVec.toNat_ofNat, BitVec.toNat_ofNat, exponentKept,
      ofFields, if_neg (by omega), if_neg (by omega), mantissaKept, assembled_of_pos positive]
    congr 1
    omega
  · have subnormal : exponent = -1074 := by
      by_contra above
      exact normal (full (by omega))
    have log : mantissa.log2 + 1 ≠ 53 := by
      have := (Nat.log2_lt positive.ne').mpr (Nat.lt_of_not_le normal)
      omega
    have mantissaKept : mantissa % 2 ^ Format.binary64.mantissaBitsWithoutImplicit = mantissa :=
      Nat.mod_eq_of_lt (Nat.lt_of_not_le normal)
    rw [if_neg log, unpack_packComponents, BitVec.toNat_ofNat, BitVec.toNat_ofNat, mantissaKept,
      Nat.zero_mod, ofFields, if_neg (by decide), if_pos rfl, assembled_of_pos positive, subnormal]

end

end FuzzyRating.Rounding
