import FuzzyRating.Decimal.Basic
import FuzzyRating.Decimal.Layout
import FuzzyRating.Proofs.Stretch
import Mathlib.Algebra.Order.Field.Power
import Mathlib.Algebra.Order.Field.Rat
import Mathlib.Tactic.FieldSimp
import Mathlib.Tactic.Ring

/-!
Written decimals read back: the numeral syntax gives the text of a decimal its value again.
-/

namespace FuzzyRating

namespace Decimal

/-- The value without the sign. -/
def absolute (decimal : Decimal) : ℚ :=
  decimal.coefficient * 10 ^ decimal.exponent

/-! ## Runs of digits -/

theorem digitsValue_eq_ofDigitChars (value : Nat) (digits : List Char) :
    digitsValue value digits = Nat.ofDigitChars 10 digits value :=
  Nat.ofDigitChars_eq_foldl.symm

theorem digitsValue_append (value : Nat) (early late : List Char) :
    digitsValue value (early ++ late) = digitsValue (digitsValue value early) late :=
  List.foldl_append

theorem le_digitsValue (value : Nat) (digits : List Char) : value ≤ digitsValue value digits := by
  induction digits generalizing value with
  | nil => exact Nat.le_refl value
  | cons c digits inductionHypothesis =>
      have longer : value ≤ 10 * value + digitValue c := by omega
      exact Nat.le_trans longer (inductionHypothesis _)

/-- Digits are read up to the first character that is none. -/
theorem spanDigits_append {digits rest : List Char}
    (allDigits : ∀ c ∈ digits, c.isDigit = true) (ends : Ends Char.isDigit rest) :
    spanDigits (digits ++ rest) = (digits, rest) := by
  unfold spanDigits
  rw [takeWhile_stretch allDigits ends, dropWhile_stretch allDigits ends]

theorem spanDigits_self {digits : List Char} (allDigits : ∀ c ∈ digits, c.isDigit = true) :
    spanDigits digits = (digits, []) := by
  have spanned : spanDigits (digits ++ []) = (digits, []) :=
    spanDigits_append allDigits Ends.nil
  rwa [List.append_nil] at spanned

/-- A numeral is read part by part. -/
theorem scan_of_parts {text body tail : List Char} {negative : Bool} {coefficient places : Nat}
    {exponent : Int} (sign : scanSign text = (negative, body))
    (digits : scanDigits body = some (coefficient, places, tail))
    (power : scanExponent tail = some (exponent, [])) :
    scan text = some (⟨negative, coefficient, exponent - places⟩, []) := by
  unfold scan
  simp only [sign, digits, power, Option.bind_eq_bind, Option.bind_some, Option.pure_def]

/-- Digits with a point among them. -/
theorem scanDigits_pointed {whole fraction tail : List Char} (nonempty : whole ≠ [])
    (wholeDigits : ∀ c ∈ whole, c.isDigit = true)
    (fractionDigits : ∀ c ∈ fraction, c.isDigit = true) (ends : Ends Char.isDigit tail) :
    scanDigits (whole ++ '.' :: (fraction ++ tail)) =
      some (digitsValue 0 (whole ++ fraction), fraction.length, tail) := by
  have wholeSpan : spanDigits (whole ++ '.' :: (fraction ++ tail)) =
      (whole, '.' :: (fraction ++ tail)) :=
    spanDigits_append wholeDigits (Ends.cons rfl)
  have notEmpty : whole.isEmpty = false := by
    simpa using nonempty
  unfold scanDigits
  simp only [wholeSpan, spanDigits_append fractionDigits ends, notEmpty, Bool.false_and,
    Bool.false_eq_true, if_false, digitsValue_append]

/-- Digits without a point. -/
theorem scanDigits_whole {whole tail : List Char} (nonempty : whole ≠ [])
    (wholeDigits : ∀ c ∈ whole, c.isDigit = true)
    (ends : ∀ c, tail.head? = some c → c.isDigit = false ∧ c ≠ '.') :
    scanDigits (whole ++ tail) = some (digitsValue 0 whole, 0, tail) := by
  have wholeSpan : spanDigits (whole ++ tail) = (whole, tail) :=
    spanDigits_append wholeDigits fun c isHead => (ends c isHead).1
  have notEmpty : whole.isEmpty = false := by
    simpa using nonempty
  unfold scanDigits
  rw [wholeSpan]
  cases tail with
  | nil => simp [notEmpty]
  | cons c tail =>
      have notPoint := (ends c rfl).2
      simp [notEmpty, notPoint]

/-- An exponent with its sign. -/
theorem scanExponent_signed {digits : List Char} (nonempty : digits ≠ [])
    (allDigits : ∀ c ∈ digits, c.isDigit = true) (negative : Bool) :
    scanExponent ('e' :: (if negative then '-' else '+') :: digits) =
      some (if negative then -(digitsValue 0 digits : Int) else digitsValue 0 digits, []) := by
  have notEmpty : digits.isEmpty = false := by
    simpa using nonempty
  cases negative <;>
    simp [scanExponent, scanSign, spanDigits_self allDigits, notEmpty]

/-- A numeral without a sign begins with a digit. -/
theorem scanSign_of_isDigit {c : Char} {text : List Char} (isDigit : c.isDigit = true) :
    scanSign (c :: text) = (false, c :: text) := by
  unfold scanSign
  split
  · next equal =>
      cases equal
      simp at isDigit
  · next equal =>
      cases equal
      simp at isDigit
  · rfl

end Decimal

namespace Layout

theorem isDigit_of_mem_digits {n : Nat} {c : Char} (member : c ∈ digits n) : c.isDigit = true :=
  Nat.isDigit_of_mem_toDigits (by decide) (by decide) member

theorem digits_ne_nil (n : Nat) : digits n ≠ [] :=
  Nat.toDigits_ne_nil

theorem digitsValue_digits (n : Nat) : Decimal.digitsValue 0 (digits n) = n := by
  rw [Decimal.digitsValue_eq_ofDigitChars]
  exact Nat.ofDigitChars_ten_toDigits

/-! ## The text of a decimal -/

/-- Digits filled up with zeros in front. -/
def filled (coefficient places : Nat) : List Char :=
  List.replicate (places + 1 - (digits coefficient).length) '0' ++ digits coefficient

theorem isDigit_of_mem_filled {coefficient places : Nat} {c : Char}
    (member : c ∈ filled coefficient places) :
    c.isDigit = true := by
  rcases List.mem_append.mp member with zero | digit
  · rw [List.eq_of_mem_replicate zero]
    rfl
  · exact isDigit_of_mem_digits digit

theorem length_filled (coefficient places : Nat) :
    places < (filled coefficient places).length := by
  unfold filled
  rw [List.length_append, List.length_replicate]
  omega

theorem digitsValue_filled (coefficient places : Nat) :
    Decimal.digitsValue 0 (filled coefficient places) = coefficient := by
  have zeros (count : Nat) : Decimal.digitsValue 0 (List.replicate count '0') = 0 := by
    rw [Decimal.digitsValue_eq_ofDigitChars, Nat.ofDigitChars_replicate_zero, Nat.mul_zero]
  rw [filled, Decimal.digitsValue_append, zeros, digitsValue_digits]

/-- What reading the digits and the exponent of a text comes to. -/
def Reads (text : List Char) (value : ℚ) : Prop :=
  (∃ c rest, text = c :: rest ∧ c.isDigit = true) ∧
    ∃ coefficient places tail exponent,
      Decimal.scanDigits text = some (coefficient, places, tail) ∧
      Decimal.scanExponent tail = some (exponent, []) ∧
      (coefficient : ℚ) * 10 ^ (exponent - places : ℤ) = value

theorem reads_pointed (coefficient places : Nat) :
    Reads (pointed coefficient places) (coefficient * 10 ^ (-places : ℤ)) := by
  have longEnough := length_filled coefficient places
  have pointedEq : pointed coefficient places =
      (filled coefficient places).take ((filled coefficient places).length - places) ++
        '.' :: ((filled coefficient places).drop
          ((filled coefficient places).length - places) ++ []) := by
    rw [List.append_nil]
    rfl
  have wholeNonempty :
      (filled coefficient places).take ((filled coefficient places).length - places) ≠ [] := by
    intro isEmpty
    have noLength := congrArg List.length isEmpty
    rw [List.length_take, List.length_nil] at noLength
    omega
  have wholeDigits : ∀ c ∈ (filled coefficient places).take
      ((filled coefficient places).length - places), c.isDigit = true :=
    fun c member => isDigit_of_mem_filled (List.mem_of_mem_take member)
  constructor
  · obtain ⟨c, rest, wholeEq⟩ := List.exists_cons_of_ne_nil wholeNonempty
    rw [pointedEq]
    refine ⟨c, _, by rw [wholeEq, List.cons_append], wholeDigits c ?_⟩
    rw [wholeEq]
    exact List.mem_cons_self
  · refine ⟨coefficient, places, [], 0, ?_, rfl, by simp⟩
    rw [pointedEq, Decimal.scanDigits_pointed wholeNonempty wholeDigits
      (fun c member => isDigit_of_mem_filled (List.mem_of_mem_drop member)) Ends.nil,
      List.take_append_drop, digitsValue_filled, List.length_drop]
    have lengthEq : (filled coefficient places).length -
        ((filled coefficient places).length - places) = places := by
      omega
    rw [lengthEq]

theorem reads_positionalText (layout : Layout) (coefficient : Nat) (exponent : Int) :
    Reads (layout.positionalText coefficient exponent) (coefficient * 10 ^ exponent) := by
  unfold positionalText
  by_cases below : exponent < 0
  · rw [if_pos below]
    have placesEq : (-(exponent.natAbs : ℤ)) = exponent := by
      omega
    have reads := reads_pointed coefficient exponent.natAbs
    rwa [placesEq] at reads
  · rw [if_neg below]
    obtain ⟨zeros, rfl⟩ := Int.eq_ofNat_of_zero_le (Int.not_lt.mp below)
    have wholeDigits : ∀ c ∈ digits coefficient ++ List.replicate zeros '0',
        c.isDigit = true := by
      intro c member
      rcases List.mem_append.mp member with digit | zero
      · exact isDigit_of_mem_digits digit
      · rw [List.eq_of_mem_replicate zero]
        rfl
    have wholeNonempty : digits coefficient ++ List.replicate zeros '0' ≠ [] := by
      simp [digits_ne_nil]
    have wholeValue : Decimal.digitsValue 0 (digits coefficient ++ List.replicate zeros '0') =
        coefficient * 10 ^ zeros := by
      rw [Decimal.digitsValue_append, digitsValue_digits, Decimal.digitsValue_eq_ofDigitChars,
        Nat.ofDigitChars_replicate_zero, Nat.mul_comm]
    constructor
    · obtain ⟨c, rest, wholeEq⟩ := List.exists_cons_of_ne_nil wholeNonempty
      refine ⟨c, rest ++ (if layout.pointZero then ['.', '0'] else []), ?_, wholeDigits c ?_⟩
      · rw [Int.toNat_natCast, wholeEq, List.cons_append]
      · rw [wholeEq]
        exact List.mem_cons_self
    · by_cases point : layout.pointZero = true
      · refine ⟨coefficient * 10 ^ zeros * 10, 1, [], 0, ?_, rfl, ?_⟩
        · rw [if_pos point, Int.toNat_natCast]
          have scanned : Decimal.scanDigits
              ((digits coefficient ++ List.replicate zeros '0') ++ '.' :: (['0'] ++ [])) = _ :=
            Decimal.scanDigits_pointed wholeNonempty wholeDigits (by simp) Ends.nil
          rw [Decimal.digitsValue_append, wholeValue] at scanned
          simpa [Decimal.digitsValue, Decimal.digitValue, Nat.mul_comm] using scanned
        · push_cast
          rw [zpow_natCast]
          norm_num [mul_assoc]
      · refine ⟨coefficient * 10 ^ zeros, 0, [], 0, ?_, rfl, ?_⟩
        · rw [if_neg point, Int.toNat_natCast]
          have scanned : Decimal.scanDigits
              ((digits coefficient ++ List.replicate zeros '0') ++ []) = _ :=
            Decimal.scanDigits_whole wholeNonempty wholeDigits (by simp)
          rwa [wholeValue] at scanned
        · push_cast
          rw [zpow_natCast]
          norm_num

theorem reads_exponentText (coefficient : Nat) (exponent : Int) :
    Reads (exponentText coefficient exponent) (coefficient * 10 ^ exponent) := by
  obtain ⟨first, rest, digitsEq⟩ := List.exists_cons_of_ne_nil (digits_ne_nil coefficient)
  have firstDigit : first.isDigit = true := by
    apply isDigit_of_mem_digits
    rw [digitsEq]
    exact List.mem_cons_self
  have restDigits : ∀ c ∈ rest, c.isDigit = true := by
    intro c member
    apply isDigit_of_mem_digits
    rw [digitsEq]
    exact List.mem_cons_of_mem first member
  have value : Decimal.digitsValue 0 (first :: rest) = coefficient := by
    rw [← digitsEq, digitsValue_digits]
  obtain ⟨power, powerEq⟩ : ∃ power, power = exponent + rest.length := ⟨_, rfl⟩
  have powerDigits : Decimal.scanExponent
      ('e' :: (if power < 0 then '-' else '+') :: digits power.natAbs) = some (power, []) := by
    have scanned := Decimal.scanExponent_signed (digits_ne_nil power.natAbs)
      (fun _ => isDigit_of_mem_digits) (decide (power < 0))
    rw [digitsValue_digits] at scanned
    have signedEq : (if decide (power < 0) = true then -(power.natAbs : Int)
        else power.natAbs) = power := by
      simp only [decide_eq_true_eq]
      split <;> omega
    rw [signedEq] at scanned
    simpa using scanned
  have textEq : exponentText coefficient exponent =
      first :: ((if rest.isEmpty then [] else '.' :: rest) ++
        'e' :: (if power < 0 then '-' else '+') :: digits power.natAbs) := by
    have powerAgain : exponent + (first :: rest).length - 1 = power := by
      rw [powerEq, List.length_cons]
      push_cast
      ring
    unfold exponentText
    simp only [digitsEq, powerAgain]
    cases rest <;> rfl
  rw [textEq]
  refine ⟨⟨first, _, rfl, firstDigit⟩, coefficient, rest.length, _, power, ?_, powerDigits, ?_⟩
  · cases rest with
    | nil =>
        have scanned : Decimal.scanDigits
            ([first] ++ 'e' :: (if power < 0 then '-' else '+') :: digits power.natAbs) = _ :=
          Decimal.scanDigits_whole (by simp) (by simpa using firstDigit) (by simp)
        rw [value] at scanned
        simpa using scanned
    | cons next others =>
        have scanned : Decimal.scanDigits ([first] ++ '.' :: ((next :: others) ++
            'e' :: (if power < 0 then '-' else '+') :: digits power.natAbs)) = _ :=
          Decimal.scanDigits_pointed (by simp) (by simpa using firstDigit) restDigits
            (Ends.cons rfl)
        simp only [List.singleton_append, value] at scanned
        simpa using scanned
  · rw [powerEq, add_sub_cancel_right]

/-- The text of a decimal reads back as its value. -/
theorem reads_decimalText (layout : Layout) (coefficient : Nat) (exponent : Int) :
    Reads (layout.decimalText coefficient exponent) (coefficient * 10 ^ exponent) := by
  unfold decimalText
  split
  · exact reads_positionalText layout coefficient exponent
  · exact reads_exponentText coefficient exponent

/-- So does the text with a sign in front. -/
theorem scan_signed (layout : Layout) (negative : Bool) (coefficient : Nat) (exponent : Int) :
    ∃ decimal, Decimal.scan ((if negative then ['-'] else []) ++
        layout.decimalText coefficient exponent) = some (decimal, []) ∧
      decimal.negative = negative ∧ decimal.absolute = coefficient * 10 ^ exponent := by
  obtain ⟨⟨first, rest, textEq, isDigit⟩, read, places, tail, power, digitsEq, powerEq, valueEq⟩ :=
    reads_decimalText layout coefficient exponent
  have sign : Decimal.scanSign ((if negative then ['-'] else []) ++
      layout.decimalText coefficient exponent) =
        (negative, layout.decimalText coefficient exponent) := by
    cases negative with
    | true => rfl
    | false =>
        rw [textEq]
        exact Decimal.scanSign_of_isDigit isDigit
  exact ⟨⟨negative, read, power - places⟩, Decimal.scan_of_parts sign digitsEq powerEq, rfl,
    valueEq⟩

/-! ## The characters of a decimal -/

/-- The characters that numerals are made of. -/
def isMark (c : Char) : Bool :=
  c.isDigit || c == '.' || c == 'e' || c == '+' || c == '-'

private theorem isMark_of_isDigit {c : Char} (isDigit : c.isDigit = true) : isMark c = true := by
  unfold isMark
  rw [isDigit]
  rfl

private theorem isMark_of_mem_digits {n : Nat} {c : Char} (member : c ∈ digits n) :
    isMark c = true :=
  isMark_of_isDigit (isDigit_of_mem_digits member)

private theorem isMark_of_mem_positionalText {layout : Layout} {coefficient : Nat}
    {exponent : Int} {c : Char} (member : c ∈ layout.positionalText coefficient exponent) :
    isMark c = true := by
  unfold positionalText at member
  split at member
  · rcases List.mem_append.mp member with whole | pointOrFraction
    · exact isMark_of_isDigit (isDigit_of_mem_filled (List.mem_of_mem_take whole))
    · rcases List.mem_cons.mp pointOrFraction with rfl | fraction
      · rfl
      · exact isMark_of_isDigit (isDigit_of_mem_filled (List.mem_of_mem_drop fraction))
  · rcases List.mem_append.mp member with whole | pointZero
    · rcases List.mem_append.mp whole with digit | zero
      · exact isMark_of_mem_digits digit
      · rw [List.eq_of_mem_replicate zero]
        rfl
    · split at pointZero
      · simp only [List.mem_cons, List.not_mem_nil, or_false] at pointZero
        rcases pointZero with rfl | rfl <;> rfl
      · cases pointZero

private theorem isMark_of_mem_exponentText {coefficient : Nat} {exponent : Int} {c : Char}
    (member : c ∈ exponentText coefficient exponent) :
    isMark c = true := by
  have ofDigits : ∀ d ∈ digits coefficient, isMark d = true := fun _ => isMark_of_mem_digits
  unfold exponentText at member
  simp only [List.mem_append, List.mem_cons] at member
  rcases member with mantissa | rfl | sign | power
  · split at mantissa
    · next first digitsEq =>
        rw [digitsEq] at ofDigits
        exact ofDigits c mantissa
    · next first rest _ digitsEq =>
        rw [digitsEq] at ofDigits
        simp only [List.mem_cons] at mantissa
        rcases mantissa with rfl | rfl | later
        · exact ofDigits c List.mem_cons_self
        · rfl
        · exact ofDigits c (List.mem_cons_of_mem first later)
    · cases mantissa
  · rfl
  · split at sign <;> subst sign <;> rfl
  · exact isMark_of_mem_digits power

theorem isMark_of_mem_decimalText {layout : Layout} {coefficient : Nat} {exponent : Int}
    {c : Char} (member : c ∈ layout.decimalText coefficient exponent) :
    isMark c = true := by
  unfold decimalText at member
  split at member
  · exact isMark_of_mem_positionalText member
  · exact isMark_of_mem_exponentText member

end Layout

end FuzzyRating
