import FuzzyRating.Proofs.Decimal.Layout

/-!
Numerals at the head of a text: what is read of one does not depend on what stands behind it, as
long as that does not go on with the numeral.
-/

namespace FuzzyRating.Decimal

/-- Whether a character may go on with a numeral. -/
def continuesNumeral (c : Char) : Bool :=
  c.isDigit || c == '.' || c == 'e' || c == 'E'

section

variable {text rest left tail : List Char}

theorem ends_isDigit (ends : Ends continuesNumeral rest) : Ends Char.isDigit rest := by
  intro c isHead
  have outside := ends c isHead
  unfold continuesNumeral at outside
  simp only [Bool.or_eq_false_iff] at outside
  exact outside.1.1.1

theorem spanDigits_append_of_ends (text : List Char) (ends : Ends continuesNumeral rest) :
    spanDigits (text ++ rest) = ((spanDigits text).1, (spanDigits text).2 ++ rest) := by
  unfold spanDigits
  rw [takeWhile_append_of_ends text (ends_isDigit ends), dropWhile_append_of_ends text (ends_isDigit ends)]

theorem scanSign_append (nonempty : text ≠ []) (rest : List Char) :
    scanSign (text ++ rest) = ((scanSign text).1, (scanSign text).2 ++ rest) := by
  obtain ⟨c, text, rfl⟩ := List.exists_cons_of_ne_nil nonempty
  rw [List.cons_append]
  unfold scanSign
  split <;> simp_all

theorem scanDigits_of_not_point {whole after : List Char}
    (span : spanDigits text = (whole, after)) (notPoint : ∀ tail, after ≠ '.' :: tail) :
    scanDigits text =
      if whole.isEmpty then none else some (digitsValue 0 whole, 0, after) := by
  unfold scanDigits
  rw [span]
  dsimp only
  split
  · next tail => exact absurd rfl (notPoint tail)
  · rfl

theorem scanDigits_append {coefficient places : Nat}
    (scanned : scanDigits text = some (coefficient, places, left))
    (ends : Ends continuesNumeral rest) :
    scanDigits (text ++ rest) = some (coefficient, places, left ++ rest) := by
  have spanAppend := spanDigits_append_of_ends text ends
  cases span : spanDigits text with
  | mk whole after =>
      rw [span] at spanAppend
      by_cases point : ∃ tail, after = '.' :: tail
      · obtain ⟨tail, rfl⟩ := point
        unfold scanDigits at scanned ⊢
        rw [span] at scanned
        rw [spanAppend]
        simp only [List.cons_append, spanDigits_append_of_ends tail ends] at scanned ⊢
        split at scanned
        · cases scanned
        · next someDigits =>
            cases scanned
            rw [if_neg someDigits]
      · have notPoint : ∀ tail, after ≠ '.' :: tail := fun tail isPoint => point ⟨tail, isPoint⟩
        have stillNotPoint : ∀ tail, after ++ rest ≠ '.' :: tail := by
          intro tail isPoint
          cases after with
          | nil => cases ends '.' (by simpa using congrArg List.head? isPoint)
          | cons c after =>
              cases isPoint
              exact notPoint after rfl
        rw [scanDigits_of_not_point span notPoint] at scanned
        rw [scanDigits_of_not_point spanAppend stillNotPoint]
        split at scanned
        · cases scanned
        · next someDigits =>
            cases scanned
            rw [if_neg someDigits]

theorem scanExponent_append {exponent : Int} (scanned : scanExponent text = some (exponent, left))
    (ends : Ends continuesNumeral rest) :
    scanExponent (text ++ rest) = some (exponent, left ++ rest) := by
  cases text with
  | nil =>
      cases scanned
      cases rest with
      | nil => rfl
      | cons c rest =>
          have outside := ends c rfl
          unfold continuesNumeral at outside
          simp only [Bool.or_eq_false_iff, beq_eq_false_iff_ne] at outside
          rw [List.nil_append, scanExponent, if_neg (by simp [outside])]
  | cons c text =>
      rw [List.cons_append]
      unfold scanExponent at scanned ⊢
      dsimp only at scanned ⊢
      by_cases isMarker : c = 'e' ∨ c = 'E'
      · rw [if_pos isMarker] at scanned ⊢
        have nonempty : text ≠ [] := by
          rintro rfl
          cases scanned
        rw [scanSign_append nonempty]
        dsimp only at scanned ⊢
        rw [spanDigits_append_of_ends _ ends]
        dsimp only at scanned ⊢
        split at scanned
        · cases scanned
        · next someDigits =>
            cases scanned
            rw [if_neg someDigits]
      · rw [if_neg isMarker] at scanned ⊢
        cases scanned
        rfl

theorem scan_append {decimal : Decimal} (scanned : scan text = some (decimal, left))
    (ends : Ends continuesNumeral rest) :
    scan (text ++ rest) = some (decimal, left ++ rest) := by
  have nonempty : text ≠ [] := by
    rintro rfl
    cases scanned
  unfold scan at scanned ⊢
  simp only [Option.bind_eq_bind, Option.bind_eq_some_iff, Option.pure_def] at scanned
  obtain ⟨⟨coefficient, places, tail⟩, digits, ⟨exponent, after⟩, power, decimalEq⟩ := scanned
  cases decimalEq
  simp only [scanSign_append nonempty, scanDigits_append digits ends,
    scanExponent_append power ends, Option.bind_eq_bind, Option.bind_some, Option.pure_def]

/-! ## What a numeral takes -/

theorem length_spanDigits (text : List Char) :
    (spanDigits text).1.length + (spanDigits text).2.length = text.length := by
  rw [← List.length_append, spanDigits, List.takeWhile_append_dropWhile]

theorem length_scanSign_le (text : List Char) : (scanSign text).2.length ≤ text.length := by
  unfold scanSign
  split <;> simp

theorem length_lt_of_scanDigits {coefficient places : Nat}
    (scanned : scanDigits text = some (coefficient, places, left)) :
    left.length < text.length := by
  have whole := length_spanDigits text
  unfold scanDigits at scanned
  dsimp only at scanned
  split at scanned
  · next tail point =>
      have fraction := length_spanDigits tail
      rw [point, List.length_cons] at whole
      split at scanned
      · cases scanned
      · cases scanned
        omega
  · split at scanned
    · cases scanned
    · next someDigits =>
        cases scanned
        rw [List.isEmpty_iff] at someDigits
        have := List.length_pos_iff.mpr someDigits
        omega

theorem length_le_of_scanExponent {exponent : Int}
    (scanned : scanExponent text = some (exponent, left)) :
    left.length ≤ text.length := by
  unfold scanExponent at scanned
  split at scanned
  · cases scanned
    exact Nat.le_refl _
  · next c tail =>
      split at scanned
      · have behindSign := length_scanSign_le tail
        have behindDigits := length_spanDigits (scanSign tail).2
        dsimp only at scanned
        split at scanned
        · cases scanned
        · cases scanned
          rw [List.length_cons]
          omega
      · cases scanned
        exact Nat.le_refl _

theorem length_lt_of_scan {decimal : Decimal} (scanned : scan text = some (decimal, left)) :
    left.length < text.length := by
  unfold scan at scanned
  simp only [Option.bind_eq_bind, Option.bind_eq_some_iff, Option.pure_def] at scanned
  obtain ⟨⟨coefficient, places, tail⟩, digits, ⟨exponent, after⟩, power, decimalEq⟩ := scanned
  cases decimalEq
  calc
    after.length ≤ tail.length := length_le_of_scanExponent power
    _ < (scanSign text).2.length := length_lt_of_scanDigits digits
    _ ≤ text.length := length_scanSign_le text

/-! ## Cutting a text behind a numeral -/

theorem spanDigits_cut {digits : List Char} (span : spanDigits text = (digits, rest)) :
    text = digits ++ rest ∧ ∀ kept, kept <+: rest → spanDigits (digits ++ kept) = (digits, kept) := by
  obtain ⟨rfl, rfl⟩ := Prod.mk.inj span
  refine ⟨List.takeWhile_append_dropWhile.symm, fun kept front => ?_⟩
  have ends : Ends Char.isDigit (text.dropWhile Char.isDigit) := by
    intro c isHead
    simpa [isHead] using List.head?_dropWhile_not Char.isDigit text
  have stretch : ∀ c ∈ text.takeWhile Char.isDigit, c.isDigit = true :=
    List.all_eq_true.mp List.all_takeWhile
  have keptEnds := ends.of_prefix front
  unfold spanDigits
  rw [takeWhile_stretch stretch keptEnds, dropWhile_stretch stretch keptEnds]

theorem scanSign_cut {negative : Bool} (signed : scanSign text = (negative, rest)) :
    ∃ sign, text = sign ++ rest ∧
      ∀ kept, kept <+: rest → scanSign (sign ++ kept) = (negative, kept) := by
  unfold scanSign at signed
  split at signed
  · cases signed
    exact ⟨['-'], rfl, fun _ _ => rfl⟩
  · cases signed
    exact ⟨['+'], rfl, fun _ _ => rfl⟩
  · next notMinus notPlus =>
      cases signed
      refine ⟨[], rfl, fun kept front => ?_⟩
      obtain ⟨tail, rfl⟩ := front
      rw [List.nil_append]
      unfold scanSign
      split
      · next behind => exact absurd rfl (notMinus (behind ++ tail))
      · next behind => exact absurd rfl (notPlus (behind ++ tail))
      · rfl

theorem scanDigits_cut {coefficient places : Nat}
    (scanned : scanDigits text = some (coefficient, places, rest)) :
    ∃ digits, text = digits ++ rest ∧
      ∀ kept, kept <+: rest → scanDigits (digits ++ kept) = some (coefficient, places, kept) := by
  cases span : spanDigits text with
  | mk whole after =>
      obtain ⟨rfl, spanCut⟩ := spanDigits_cut span
      by_cases point : ∃ tail, after = '.' :: tail
      · obtain ⟨tail, rfl⟩ := point
        cases fractionSpan : spanDigits tail with
        | mk fraction left =>
            obtain ⟨rfl, fractionCut⟩ := spanDigits_cut fractionSpan
            unfold scanDigits at scanned
            simp only [span, fractionSpan] at scanned
            split at scanned
            · cases scanned
            · next someDigits =>
                cases scanned
                refine ⟨whole ++ '.' :: fraction, by simp, fun kept front => ?_⟩
                have shorter : '.' :: (fraction ++ kept) <+: '.' :: (fraction ++ rest) := by
                  simpa using front
                unfold scanDigits
                rw [List.append_assoc, List.cons_append]
                simp only [spanCut _ shorter, fractionCut kept front]
                rw [if_neg someDigits]
      · have notPoint : ∀ tail, after ≠ '.' :: tail := fun tail isPoint => point ⟨tail, isPoint⟩
        rw [scanDigits_of_not_point span notPoint] at scanned
        split at scanned
        · cases scanned
        · next someDigits =>
            cases scanned
            refine ⟨whole, rfl, fun kept front => ?_⟩
            have stillNotPoint : ∀ tail, kept ≠ '.' :: tail := by
              rintro tail rfl
              obtain ⟨behind, rfl⟩ := front
              exact notPoint (tail ++ behind) rfl
            rw [scanDigits_of_not_point (spanCut kept front) stillNotPoint, if_neg someDigits]

theorem scanExponent_cut {exponent : Int} (scanned : scanExponent text = some (exponent, rest)) :
    ∃ marked, text = marked ++ rest ∧
      ∀ kept, kept <+: rest → scanExponent (marked ++ kept) = some (exponent, kept) := by
  cases text with
  | nil =>
      cases scanned
      refine ⟨[], rfl, fun kept front => ?_⟩
      rw [List.prefix_nil.mp front]
      rfl
  | cons c text =>
      by_cases isMarker : c = 'e' ∨ c = 'E'
      · cases signed : scanSign text with
        | mk negative unsigned =>
            cases span : spanDigits unsigned with
            | mk digits left =>
                obtain ⟨sign, rfl, signCut⟩ := scanSign_cut signed
                obtain ⟨rfl, spanCut⟩ := spanDigits_cut span
                unfold scanExponent at scanned
                simp only [if_pos isMarker, signed, span] at scanned
                split at scanned
                · cases scanned
                · next someDigits =>
                    cases scanned
                    refine ⟨c :: (sign ++ digits), by simp, fun kept front => ?_⟩
                    have shorter : digits ++ kept <+: digits ++ rest := by simpa using front
                    unfold scanExponent
                    rw [List.cons_append, List.append_assoc]
                    simp only [if_pos isMarker, signCut _ shorter, spanCut kept front]
                    rw [if_neg someDigits]
      · rw [scanExponent, if_neg isMarker] at scanned
        cases scanned
        refine ⟨[], rfl, fun kept front => ?_⟩
        cases kept with
        | nil => rfl
        | cons d kept =>
            obtain rfl : d = c := (List.cons_prefix_cons.mp front).1
            rw [List.nil_append, scanExponent, if_neg isMarker]

/-- A text may be cut anywhere behind a numeral. -/
theorem scan_cut {decimal : Decimal} (scanned : scan text = some (decimal, rest)) :
    ∃ numeral, text = numeral ++ rest ∧
      ∀ kept, kept <+: rest → scan (numeral ++ kept) = some (decimal, kept) := by
  cases signed : scanSign text with
  | mk negative unsigned =>
      unfold scan at scanned
      simp only [signed, Option.bind_eq_bind, Option.bind_eq_some_iff, Option.pure_def] at scanned
      obtain ⟨⟨coefficient, places, tail⟩, digitsEq, ⟨exponent, after⟩, power, decimalEq⟩ := scanned
      cases decimalEq
      obtain ⟨sign, rfl, signCut⟩ := scanSign_cut signed
      obtain ⟨digits, rfl, digitsCut⟩ := scanDigits_cut digitsEq
      obtain ⟨marked, rfl, markedCut⟩ := scanExponent_cut power
      refine ⟨sign ++ (digits ++ marked), by simp, fun kept front => ?_⟩
      have shorterTail : marked ++ kept <+: marked ++ after := by simpa using front
      have shorter : digits ++ (marked ++ kept) <+: digits ++ (marked ++ after) := by
        simpa using front
      unfold scan
      rw [List.append_assoc, List.append_assoc]
      simp only [signCut _ shorter, digitsCut _ shorterTail, markedCut kept front,
        Option.bind_eq_bind, Option.bind_some, Option.pure_def]

end

end FuzzyRating.Decimal
