import FuzzyRating.Proofs.Decimal.Layout
import FuzzyRating.Proofs.Decimal.Shortest

/-!
Finite doubles are told apart by their texts: a text gives the sign and the value of its decimal,
these give the magnitude, and sign and magnitude give all bits.
-/

namespace FuzzyRating

namespace Binary

/-! ## Bits from sign and magnitude -/

theorem ofBits_canonical {bits : UInt64} (finite : exponentBits bits ≠ 2047) :
    (ofBits bits).Canonical := by
  have mantissaBound : mantissaBits bits < 2 ^ 52 := Nat.mod_lt _ (by norm_num)
  have exponentBound : exponentBits bits < 2 ^ 11 := Nat.mod_lt _ (by norm_num)
  unfold ofBits
  cases field : exponentBits bits with
  | zero =>
      constructor <;> simp only <;> omega
  | succ below =>
      rw [field] at finite exponentBound
      constructor <;> simp only [Nat.pow_eq] <;> push_cast <;> omega

theorem toNat_eq_fields (bits : UInt64) :
    bits.toNat = (if signBit bits then 2 ^ 63 else 0) + exponentBits bits * 2 ^ 52 +
      mantissaBits bits := by
  have bound := bits.toNat_lt
  unfold signBit exponentBits mantissaBits
  simp only [Nat.pow_eq]
  split
  · next set =>
      simp only [decide_eq_true_eq] at set
      omega
  · next clear =>
      simp only [decide_eq_true_eq] at clear
      omega

/-- The hidden leading bit of the mantissa tells whether the exponent field is zero. -/
private theorem fields_eq_of_ofBits_eq {a b : UInt64} (same : ofBits a = ofBits b) :
    exponentBits a = exponentBits b ∧ mantissaBits a = mantissaBits b := by
  have aBound : mantissaBits a < 2 ^ 52 := Nat.mod_lt _ (by norm_num)
  have bBound : mantissaBits b < 2 ^ 52 := Nat.mod_lt _ (by norm_num)
  unfold ofBits at same
  cases aField : exponentBits a <;> cases bField : exponentBits b <;>
    rw [aField, bField] at same <;>
    simp only [mk.injEq, Nat.pow_eq] at same <;>
    omega

theorem eq_of_ofBits_eq {a b : UInt64} (sameSign : signBit a = signBit b)
    (same : ofBits a = ofBits b) :
    a = b := by
  obtain ⟨sameExponent, sameMantissa⟩ := fields_eq_of_ofBits_eq same
  apply UInt64.toNat_inj.mp
  rw [toNat_eq_fields a, toNat_eq_fields b, sameSign, sameExponent, sameMantissa]

end Binary

/-! ## Finite doubles -/

open Float.Model Float.Model.UnpackedFloat in
theorem exponentBits_ne_of_isFinite {x : Float} (finite : x.isFinite = true) :
    Binary.exponentBits x.toBits ≠ 2047 := by
  intro allSet
  have exponentSet :
      @unpackExponent Format.binary64 x.toModel.toBits.toBitVec = -1#_ := by
    apply BitVec.eq_of_toNat_eq
    change (x.toBits.toNat >>> 52) % 2 ^ 11 = 2047
    rwa [Nat.shiftRight_eq_div_pow]
  have notFinite : (UnpackedFloat.unpack Format.binary64
      x.toModel.toBits.toBitVec).isFinite = false := by
    unfold UnpackedFloat.unpack
    dsimp only
    rw [if_pos exponentSet]
    split <;> rfl
  exact Bool.false_ne_true (notFinite.symm.trans finite)

open Float.Model in
theorem isNaN_of_isFinite {x : Float} (finite : x.isFinite = true) :
    x.isNaN = false := by
  change x.toModel.unpack.isFinite = true at finite
  change x.toModel.unpack.isNaN = false
  cases unpacked : x.toModel.unpack with
  | notANumber =>
      rw [unpacked] at finite
      cases finite
  | infinity | zero | finite => rfl

theorem eq_of_toBits_eq {x y : Float} (same : x.toBits = y.toBits) :
    x = y := by
  obtain ⟨⟨xBits, xValid⟩⟩ := x
  obtain ⟨⟨yBits, yValid⟩⟩ := y
  change xBits = yBits at same
  subst same
  rfl

namespace Layout

/-- The text of a finite double is that of its shortest decimal. -/
theorem write_of_isFinite (layout : Layout) {x : Float} (finite : x.isFinite = true) :
    (layout.write x).toList =
      (if Binary.signBit x.toBits then ['-'] else []) ++
        layout.decimalText ((Binary.ofBits x.toBits).shortest layout.tieUp).1
          ((Binary.ofBits x.toBits).shortest layout.tieUp).2 := by
  unfold write
  simp only [isNaN_of_isFinite finite, exponentBits_ne_of_isFinite finite, Bool.false_eq_true,
    if_false, String.toList_ofList]

theorem isMark_of_mem_write {layout : Layout} {x : Float} (finite : x.isFinite = true) {c : Char}
    (member : c ∈ (layout.write x).toList) :
    isMark c = true := by
  rw [write_of_isFinite layout finite] at member
  rcases List.mem_append.mp member with sign | decimal
  · split at sign
    · rw [List.mem_singleton.mp sign]
      rfl
    · cases sign
  · exact isMark_of_mem_decimalText decimal

theorem write_ne_nil {layout : Layout} {x : Float} (finite : x.isFinite = true) :
    (layout.write x).toList ≠ [] := by
  obtain ⟨⟨first, rest, textEq, _⟩, _⟩ := layout.reads_decimalText
    ((Binary.ofBits x.toBits).shortest layout.tieUp).1
    ((Binary.ofBits x.toBits).shortest layout.tieUp).2
  rw [write_of_isFinite layout finite, textEq]
  simp

/-- Finite doubles with the same text are the same. -/
theorem eq_of_write_eq {layout : Layout} {x y : Float} (xFinite : x.isFinite = true)
    (yFinite : y.isFinite = true) (sameText : layout.write x = layout.write y) :
    x = y := by
  obtain ⟨decimal, xScan, xSign, xValue⟩ := layout.scan_signed (Binary.signBit x.toBits)
    ((Binary.ofBits x.toBits).shortest layout.tieUp).1
    ((Binary.ofBits x.toBits).shortest layout.tieUp).2
  obtain ⟨again, yScan, ySign, yValue⟩ := layout.scan_signed (Binary.signBit y.toBits)
    ((Binary.ofBits y.toBits).shortest layout.tieUp).1
    ((Binary.ofBits y.toBits).shortest layout.tieUp).2
  rw [← write_of_isFinite layout xFinite, sameText, write_of_isFinite layout yFinite,
    yScan] at xScan
  cases xScan
  apply eq_of_toBits_eq
  apply Binary.eq_of_ofBits_eq
  · rw [← xSign, ySign]
  · exact Binary.eq_of_shortest (Binary.ofBits_canonical (exponentBits_ne_of_isFinite xFinite))
      (Binary.ofBits_canonical (exponentBits_ne_of_isFinite yFinite)) (xValue.symm.trans yValue)

end Layout

end FuzzyRating
