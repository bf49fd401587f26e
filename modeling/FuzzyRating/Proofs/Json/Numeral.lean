import FuzzyRating.Json.Scan
import FuzzyRating.Proofs.Decimal.Numeral
import FuzzyRating.Proofs.Except

/-!
Numbers in JSON texts: what is read of one does not depend on what stands behind it, as long as that
does not go on with the number.
-/

namespace FuzzyRating.Json

open Decimal (continuesNumeral)

/-- Reading the text of a number gives the number. -/
def ReadsBack (value : Float) : Prop :=
  (readNumeral (Layout.json.write value).toList).toOption.map
    (fun (numeral, rest) => (numeral.toFloat, rest)) = some (value, [])

instance (value : Float) : Decidable (ReadsBack value) :=
  inferInstanceAs (Decidable (_ = _))

section

variable {text behind tail : List Char} {negative : Bool} {coefficient left : Nat} {exponent : Int}
  {numeral : Numeral}

theorem readExponentDigits_append (value : Nat) (text : List Char)
    (ends : Ends continuesNumeral tail) :
    readExponentDigits value (text ++ tail) =
      ((readExponentDigits value text).1, (readExponentDigits value text).2 ++ tail) := by
  induction text generalizing value with
  | nil =>
      cases tail with
      | nil => rfl
      | cons c tail =>
          have notDigit : c.isDigit = false := Decimal.ends_isDigit ends c rfl
          simp [readExponentDigits, notDigit]
  | cons c text inductionHypothesis =>
      rw [List.cons_append, readExponentDigits, readExponentDigits]
      by_cases isDigit : c.isDigit = true
      · rw [if_pos isDigit, if_pos isDigit]
        dsimp only
        split
        · exact inductionHypothesis _
        · rfl
      · rw [if_neg isDigit, if_neg isDigit]
        rfl

theorem floatingNumeral_append
    (read : floatingNumeral negative coefficient exponent text = .ok (numeral, behind)) :
    floatingNumeral negative coefficient exponent (text ++ tail) =
      .ok (numeral, behind ++ tail) := by
  unfold floatingNumeral at read ⊢
  split at read
  · cases read
    rfl
  · cases read

theorem readExponent_append
    (read : readExponent negative coefficient exponent text = .ok (numeral, behind))
    (ends : Ends continuesNumeral tail) :
    readExponent negative coefficient exponent (text ++ tail) = .ok (numeral, behind ++ tail) := by
  have nonempty : text ≠ [] := by
    rintro rfl
    cases read
  unfold readExponent at read ⊢
  rw [Decimal.scanSign_append nonempty]
  dsimp only at read ⊢
  cases behindSign : (Decimal.scanSign text).2 with
  | nil =>
      rw [behindSign] at read
      cases read
  | cons c rest =>
      rw [behindSign] at read
      rw [List.cons_append]
      dsimp only at read ⊢
      by_cases isDigit : c.isDigit = true
      · rw [if_pos isDigit] at read ⊢
        rw [readExponentDigits_append _ rest ends]
        cases digits : readExponentDigits (Decimal.digitValue c) rest with
        | mk value afterDigits =>
            rw [digits] at read
            cases value with
            | some value => exact floatingNumeral_append read
            | none =>
                dsimp only at read ⊢
                split at read
                · cases read
                · next inRange =>
                    cases read
                    rw [if_neg inRange, dropWhile_append_of_ends _ (Decimal.ends_isDigit ends)]
      · rw [if_neg isDigit] at read
        cases read

theorem append_ne_cons {c : Char} (notHere : ∀ rest, text ≠ c :: rest)
    (notBehind : ∀ rest, tail ≠ c :: rest) (rest : List Char) : text ++ tail ≠ c :: rest := by
  intro same
  cases text with
  | nil => exact notBehind rest same
  | cons first text =>
      cases same
      exact notHere text rfl

theorem ne_cons_of_ends {c : Char} (ends : Ends continuesNumeral tail)
    (continues : continuesNumeral c = true) (rest : List Char) : tail ≠ c :: rest := by
  rintro rfl
  rw [ends c rfl] at continues
  cases continues

theorem readAfterDigits_plain (notSmall : ∀ rest, text ≠ 'e' :: rest)
    (notLarge : ∀ rest, text ≠ 'E' :: rest) :
    readAfterDigits negative coefficient exponent text =
      floatingNumeral negative coefficient exponent text := by
  unfold readAfterDigits
  split
  · next rest => exact (notSmall rest rfl).elim
  · next rest => exact (notLarge rest rfl).elim
  · rfl

theorem readAfterDigits_append
    (read : readAfterDigits negative coefficient exponent text = .ok (numeral, behind))
    (ends : Ends continuesNumeral tail) :
    readAfterDigits negative coefficient exponent (text ++ tail) =
      .ok (numeral, behind ++ tail) := by
  by_cases small : ∃ rest, text = 'e' :: rest
  · obtain ⟨rest, rfl⟩ := small
    exact readExponent_append read ends
  by_cases large : ∃ rest, text = 'E' :: rest
  · obtain ⟨rest, rfl⟩ := large
    exact readExponent_append read ends
  have notSmall : ∀ rest, text ≠ 'e' :: rest := fun rest same => small ⟨rest, same⟩
  have notLarge : ∀ rest, text ≠ 'E' :: rest := fun rest same => large ⟨rest, same⟩
  rw [readAfterDigits_plain notSmall notLarge] at read
  rw [readAfterDigits_plain (append_ne_cons notSmall (ne_cons_of_ends ends rfl))
    (append_ne_cons notLarge (ne_cons_of_ends ends rfl))]
  exact floatingNumeral_append read

theorem wholeNumeral_append
    (read : wholeNumeral negative coefficient left text = .ok (numeral, behind)) :
    wholeNumeral negative coefficient left (text ++ tail) = .ok (numeral, behind ++ tail) := by
  unfold wholeNumeral at read ⊢
  by_cases someLeft : left ≠ 0
  · rw [if_pos someLeft] at read ⊢
    exact floatingNumeral_append read
  · rw [if_neg someLeft] at read ⊢
    by_cases unsigned : ¬negative
    · rw [if_pos unsigned] at read ⊢
      cases read
      rfl
    · rw [if_neg unsigned] at read ⊢
      by_cases unfit : coefficient = 0 ∨ Nat.pow 2 63 < coefficient
      · rw [if_pos unfit] at read ⊢
        cases read
        rfl
      · rw [if_neg unfit] at read ⊢
        cases read
        rfl

theorem readAfterWhole_plain (notPoint : ∀ rest, text ≠ '.' :: rest)
    (notSmall : ∀ rest, text ≠ 'e' :: rest) (notLarge : ∀ rest, text ≠ 'E' :: rest) :
    readAfterWhole negative coefficient left text =
      wholeNumeral negative coefficient left text := by
  unfold readAfterWhole
  split
  · next rest => exact (notPoint rest rfl).elim
  · next rest => exact (notSmall rest rfl).elim
  · next rest => exact (notLarge rest rfl).elim
  · rfl

theorem readAfterWhole_point {fraction rest : List Char}
    (span : Decimal.spanDigits text = (fraction, rest)) (nonempty : fraction ≠ []) :
    readAfterWhole negative coefficient left ('.' :: text) =
      readAfterDigits negative (takeDigits coefficient fraction).1
        (left - (fraction.length - (takeDigits coefficient fraction).2 : Nat)) rest := by
  rw [readAfterWhole, span]
  split
  · next same =>
      cases same
      exact absurd rfl nonempty
  · next same =>
      cases same
      exact absurd rfl nonempty
  · next same =>
      cases same
      rfl

theorem readAfterWhole_append
    (read : readAfterWhole negative coefficient left text = .ok (numeral, behind))
    (ends : Ends continuesNumeral tail) :
    readAfterWhole negative coefficient left (text ++ tail) = .ok (numeral, behind ++ tail) := by
  by_cases point : ∃ rest, text = '.' :: rest
  · obtain ⟨rest, rfl⟩ := point
    have spanAppend := Decimal.spanDigits_append_of_ends rest ends
    cases span : Decimal.spanDigits rest with
    | mk fraction afterFraction =>
        rw [span] at spanAppend
        by_cases none : fraction = []
        · subst none
          rw [readAfterWhole, span] at read
          cases afterFraction <;> cases read
        · rw [readAfterWhole_point span none] at read
          rw [List.cons_append, readAfterWhole_point spanAppend none]
          exact readAfterDigits_append read ends
  by_cases small : ∃ rest, text = 'e' :: rest
  · obtain ⟨rest, rfl⟩ := small
    exact readExponent_append read ends
  by_cases large : ∃ rest, text = 'E' :: rest
  · obtain ⟨rest, rfl⟩ := large
    exact readExponent_append read ends
  have notPoint : ∀ rest, text ≠ '.' :: rest := fun rest same => point ⟨rest, same⟩
  have notSmall : ∀ rest, text ≠ 'e' :: rest := fun rest same => small ⟨rest, same⟩
  have notLarge : ∀ rest, text ≠ 'E' :: rest := fun rest same => large ⟨rest, same⟩
  rw [readAfterWhole_plain notPoint notSmall notLarge] at read
  rw [readAfterWhole_plain (append_ne_cons notPoint (ne_cons_of_ends ends rfl))
    (append_ne_cons notSmall (ne_cons_of_ends ends rfl))
    (append_ne_cons notLarge (ne_cons_of_ends ends rfl))]
  exact wholeNumeral_append read

theorem readMagnitude_zero (notDigit : Ends Char.isDigit text) :
    readMagnitude negative ('0' :: text) = readAfterWhole negative 0 0 text := by
  unfold readMagnitude
  cases text with
  | nil => rfl
  | cons c rest => simp [notDigit c rfl]

theorem readMagnitude_digits {c : Char} (notZero : c ≠ '0') (isDigit : c.isDigit = true) :
    readMagnitude negative (c :: text) =
      readAfterWhole negative (takeDigits 0 (Decimal.spanDigits (c :: text)).1).1
        (takeDigits 0 (Decimal.spanDigits (c :: text)).1).2
        (Decimal.spanDigits (c :: text)).2 := by
  unfold readMagnitude
  split
  · next empty => cases empty
  · next same =>
      cases same
      exact absurd rfl notZero
  · next same =>
      cases same
      rw [if_pos isDigit]

theorem readMagnitude_append (read : readMagnitude negative text = .ok (numeral, behind))
    (ends : Ends continuesNumeral tail) :
    readMagnitude negative (text ++ tail) = .ok (numeral, behind ++ tail) := by
  cases text with
  | nil => cases read
  | cons c text =>
      rw [List.cons_append]
      by_cases zero : c = '0'
      · subst zero
        have noDigit : Ends Char.isDigit text := by
          intro c isHead
          cases text with
          | nil => cases isHead
          | cons first text =>
              cases isHead
              cases isDigit : c.isDigit with
              | false => rfl
              | true =>
                  unfold readMagnitude at read
                  simp [isDigit] at read
        have stillNoDigit : Ends Char.isDigit (text ++ tail) := by
          intro c isHead
          cases text with
          | nil => exact Decimal.ends_isDigit ends c isHead
          | cons first text => exact noDigit c isHead
        rw [readMagnitude_zero noDigit] at read
        rw [readMagnitude_zero stillNoDigit]
        exact readAfterWhole_append read ends
      · by_cases isDigit : c.isDigit = true
        · rw [readMagnitude_digits zero isDigit] at read
          rw [readMagnitude_digits zero isDigit, ← List.cons_append,
            Decimal.spanDigits_append_of_ends _ ends]
          exact readAfterWhole_append read ends
        · unfold readMagnitude at read
          simp [isDigit] at read

theorem readNumeral_unsigned {c : Char} (notMinus : c ≠ '-') :
    readNumeral (c :: text) = readMagnitude false (c :: text) := by
  unfold readNumeral
  split
  · next same =>
      cases same
      exact absurd rfl notMinus
  · rfl

theorem readNumeral_append (read : readNumeral text = .ok (numeral, behind))
    (ends : Ends continuesNumeral tail) :
    readNumeral (text ++ tail) = .ok (numeral, behind ++ tail) := by
  cases text with
  | nil => cases read
  | cons c text =>
      rw [List.cons_append]
      by_cases minus : c = '-'
      · subst minus
        exact readMagnitude_append read ends
      · rw [readNumeral_unsigned minus] at read ⊢
        exact readMagnitude_append read ends

theorem startsNumber_of_readNumeral (read : readNumeral text = .ok (numeral, behind)) :
    ∃ c rest, text = c :: rest ∧ startsNumber c = true := by
  cases text with
  | nil => cases read
  | cons c text =>
      refine ⟨c, text, rfl, ?_⟩
      by_cases minus : c = '-'
      · subst minus
        rfl
      · rw [readNumeral_unsigned minus] at read
        by_cases zero : c = '0'
        · subst zero
          rfl
        · cases isDigit : c.isDigit with
          | true => simp [startsNumber, isDigit]
          | false =>
              unfold readMagnitude at read
              simp [isDigit] at read

/-! ## Natural numbers -/

theorem exists_cons_of_digits {n : Nat} (nonzero : n ≠ 0) :
    ∃ c rest, Layout.digits n = c :: rest ∧ c ≠ '0' := by
  induction n using Nat.strongRecOn with
  | ind n inductionHypothesis =>
      unfold Layout.digits
      by_cases small : n < 10
      · have nonzeroDigit : ∀ n < 10, n ≠ 0 → Nat.digitChar n ≠ '0' := by decide
        rw [Nat.toDigits_of_lt_base small]
        exact ⟨_, _, rfl, nonzeroDigit n small nonzero⟩
      · obtain ⟨c, rest, digitsEq, notZero⟩ :=
          inductionHypothesis (n / 10) (by omega) (by omega)
        unfold Layout.digits at digitsEq
        rw [Nat.toDigits_of_base_le (by decide) (by omega), digitsEq]
        exact ⟨c, _, rfl, notZero⟩

/-- Digits of a number that fits into 64 bits are all taken. -/
theorem takeDigits_of_fits {digits : List Char}
    (fits : Decimal.digitsValue coefficient digits < Nat.pow 2 64) :
    takeDigits coefficient digits = (Decimal.digitsValue coefficient digits, 0) := by
  induction digits generalizing coefficient with
  | nil => rfl
  | cons c digits inductionHypothesis =>
      have firstFits := (Decimal.le_digitsValue _ digits).trans_lt fits
      rw [takeDigits, if_pos firstFits]
      exact inductionHypothesis fits

theorem readNumeral_digits {value : Nat} (fits : value < Nat.pow 2 64)
    (ends : Ends continuesNumeral tail) :
    readNumeral (Layout.digits value ++ tail) = .ok (.natural value, tail) := by
  have whole : readAfterWhole false value 0 tail = .ok (.natural value, tail) := by
    rw [readAfterWhole_plain (ne_cons_of_ends ends rfl) (ne_cons_of_ends ends rfl)
      (ne_cons_of_ends ends rfl)]
    rfl
  by_cases zero : value = 0
  · subst zero
    exact (readMagnitude_zero (Decimal.ends_isDigit ends)).trans whole
  · obtain ⟨c, rest, digitsEq, notZero⟩ := exists_cons_of_digits zero
    have allDigits : ∀ c ∈ Layout.digits value, c.isDigit = true := fun c member =>
      Layout.isDigit_of_mem_digits member
    have isDigit : c.isDigit = true := allDigits c (by simp [digitsEq])
    have notMinus : c ≠ '-' := by
      rintro rfl
      cases isDigit
    have span := Decimal.spanDigits_append allDigits (Decimal.ends_isDigit ends)
    rw [digitsEq, List.cons_append] at span ⊢
    have allTaken : takeDigits 0 (Layout.digits value) = (value, 0) := by
      rw [takeDigits_of_fits (by rwa [Layout.digitsValue_digits]), Layout.digitsValue_digits]
    rw [readNumeral_unsigned notMinus, readMagnitude_digits notZero isDigit, span, ← digitsEq,
      allTaken]
    exact whole

end

end FuzzyRating.Json
