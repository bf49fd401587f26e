import FuzzyRating.Json.Record
import FuzzyRating.Proofs.Decimal.Whole
import FuzzyRating.Proofs.Except
import FuzzyRating.Proofs.Json.Scaling

/-!
What is known of a value that was read, from the reader alone: numbers are finite, natural numbers
fit into 64 bits, and lists and objects stand no deeper than was allowed.
-/

namespace FuzzyRating.Json

/-- Whatever is read at the depth has the property. -/
def Yields {alpha : Type} (read : Reader alpha) (depth : Nat) (good : alpha → Prop) : Prop :=
  ∀ text value rest, read depth text = .ok (value, rest) → good value

/-! ## Numbers -/

/-- Of at most 64 bits, or a finite double. -/
def Numeral.Fits : Numeral → Prop
  | natural value => value < Nat.pow 2 64
  | negative magnitude => magnitude < Nat.pow 2 64
  | floating value => value.isFinite = true

section

variable {text rest : List Char} {numeral : Numeral} {negative : Bool}
  {coefficient left : Nat} {exponent : Int}

theorem Numeral.Fits.isFinite (fits : numeral.Fits) : numeral.toFloat.isFinite = true := by
  cases numeral with
  | natural value => exact Whole.isFinite_ofNat fits
  | negative magnitude => exact Whole.isFinite_neg (Whole.isFinite_ofNat fits)
  | floating value => exact fits

theorem isFinite_signed {value : Float} (finite : value.isFinite = true) (negative : Bool) :
    (signed negative value).isFinite = true := by
  cases negative with
  | false => exact finite
  | true => exact Whole.isFinite_neg finite

theorem takeDigits_fits (fits : coefficient < Nat.pow 2 64) (digits : List Char) :
    (takeDigits coefficient digits).1 < Nat.pow 2 64 := by
  induction digits generalizing coefficient with
  | nil => exact fits
  | cons c digits inductionHypothesis =>
      rw [takeDigits]
      by_cases nextFits : 10 * coefficient + Decimal.digitValue c < Nat.pow 2 64
      · rw [if_pos nextFits]
        exact inductionHypothesis nextFits
      · rw [if_neg nextFits]
        exact fits

section

variable (coefficientFits : coefficient < Nat.pow 2 64)

include coefficientFits

theorem fits_of_floatingNumeral
    (read : floatingNumeral negative coefficient exponent text = .ok (numeral, rest)) :
    numeral.Fits := by
  unfold floatingNumeral at read
  split at read
  · next value scaled =>
      cases read
      have finite := isFinite_scale (Whole.isFinite_ofNat coefficientFits) scaled
      exact isFinite_signed finite negative
  · cases read

theorem fits_of_readExponent
    (read : readExponent negative coefficient exponent text = .ok (numeral, rest)) :
    numeral.Fits := by
  unfold readExponent at read
  dsimp only at read
  split at read
  · cases read
  · split at read
    · split at read
      · exact fits_of_floatingNumeral coefficientFits read
      · split at read
        · cases read
        · cases read
          exact isFinite_signed (by decide +kernel) negative
    · cases read

theorem fits_of_readAfterDigits
    (read : readAfterDigits negative coefficient exponent text = .ok (numeral, rest)) :
    numeral.Fits := by
  unfold readAfterDigits at read
  split at read
  · exact fits_of_readExponent coefficientFits read
  · exact fits_of_readExponent coefficientFits read
  · exact fits_of_floatingNumeral coefficientFits read

theorem fits_of_wholeNumeral
    (read : wholeNumeral negative coefficient left text = .ok (numeral, rest)) :
    numeral.Fits := by
  unfold wholeNumeral at read
  split at read
  · exact fits_of_floatingNumeral coefficientFits read
  · split at read
    · cases read
      exact coefficientFits
    · split at read
      · cases read
        exact Whole.isFinite_neg (Whole.isFinite_ofNat coefficientFits)
      · cases read
        exact coefficientFits

theorem fits_of_readAfterWhole
    (read : readAfterWhole negative coefficient left text = .ok (numeral, rest)) :
    numeral.Fits := by
  unfold readAfterWhole at read
  split at read
  · split at read
    · cases read
    · cases read
    · exact fits_of_readAfterDigits (takeDigits_fits coefficientFits _) read
  · exact fits_of_readExponent coefficientFits read
  · exact fits_of_readExponent coefficientFits read
  · exact fits_of_wholeNumeral coefficientFits read

end

theorem fits_of_readMagnitude (read : readMagnitude negative text = .ok (numeral, rest)) :
    numeral.Fits := by
  unfold readMagnitude at read
  split at read
  · cases read
  · split at read
    · split at read
      · cases read
      · exact fits_of_readAfterWhole (by decide) read
    · exact fits_of_readAfterWhole (by decide) read
  · split at read
    · exact fits_of_readAfterWhole (takeDigits_fits (by decide) _) read
    · cases read

theorem fits_of_readNumeral (read : readNumeral text = .ok (numeral, rest)) : numeral.Fits := by
  unfold readNumeral at read
  split at read
  · exact fits_of_readMagnitude read
  · exact fits_of_readMagnitude read

end

/-! ## Readers -/

section

variable {alpha beta : Type} {read : Reader alpha} {depth : Nat} {good : alpha → Prop}

theorem Yields.any (read : Reader alpha) (depth : Nat) : Yields read depth fun _ => True :=
  fun _ _ _ _ => trivial

theorem mismatch_ne_ok {expected : String} {text : List Char} {result : alpha × List Char} :
    mismatch expected text ≠ .ok result := by
  intro matched
  obtain ⟨_, _, impossible⟩ := bind_eq_ok_iff.mp matched
  cases impossible

theorem floatReader_yields (depth : Nat) :
    Yields floatReader depth fun x => x.isFinite = true := by
  intro text value rest result
  unfold floatReader at result
  split at result
  · split at result
    · obtain ⟨⟨numeral, behind⟩, read, valueEq⟩ := bind_eq_ok_iff.mp result
      cases valueEq
      exact (fits_of_readNumeral read).isFinite
    · exact absurd result mismatch_ne_ok
  · exact absurd result mismatch_ne_ok

theorem naturalReader_yields (expected : String) (depth : Nat) :
    Yields (naturalReader expected) depth fun n => n < Nat.pow 2 64 := by
  intro text value rest result
  unfold naturalReader at result
  split at result
  · split at result
    · obtain ⟨⟨numeral, behind⟩, read, valueEq⟩ := bind_eq_ok_iff.mp result
      cases numeral with
      | natural number =>
          cases valueEq
          exact fits_of_readNumeral read
      | negative _ => cases valueEq
      | floating _ => cases valueEq
    · exact absurd result mismatch_ne_ok
  · exact absurd result mismatch_ne_ok

theorem Yields.option (yields : Yields read depth good) :
    Yields (optionReader read) depth fun value => ∀ inner, value = some inner → good inner := by
  intro text value rest result
  unfold optionReader at result
  split at result
  · obtain ⟨behind, _, valueEq⟩ := bind_eq_ok_iff.mp result
    cases valueEq
    rintro inner ⟨⟩
  · obtain ⟨⟨inner, behind⟩, readEq, valueEq⟩ := bind_eq_ok_iff.mp result
    cases valueEq
    rintro _ ⟨⟩
    exact yields _ inner rest readEq

theorem Yields.checked {check : alpha → Except String beta} (yields : Yields read depth good) :
    Yields (checkedReader read check) depth fun value =>
      ∃ raw, good raw ∧ check raw = .ok value := by
  intro text value rest result
  obtain ⟨⟨raw, behind⟩, readEq, checked⟩ := bind_eq_ok_iff.mp result
  dsimp only at checked
  split at checked
  · next valueEq =>
      cases checked
      exact ⟨raw, yields text raw rest readEq, valueEq⟩
  · cases checked

/-! ## Lists -/

theorem of_entering {text : List Char} {depth : Nat} {inner : Nat → Read (alpha × List Char)}
    {result : alpha × List Char} (entered : entering text depth inner = .ok result) :
    1 < depth ∧ inner (depth - 1) = .ok result := by
  unfold entering at entered
  split at entered
  · cases entered
  · next room => exact ⟨Nat.lt_of_not_le room, entered⟩

theorem of_closing {close : List Char → Closing} {inner : Read (alpha × List Char)}
    {value : alpha} {rest : List Char} (closed : closing close inner = .ok (value, rest)) :
    ∃ behind, inner = .ok (value, behind) := by
  unfold closing at closed
  split at closed
  · next value behind =>
      split at closed
      · cases closed
        exact ⟨behind, rfl⟩
      · cases closed
  · cases closed

theorem itemsWithin_yields (yields : Yields read depth good) (limit : Nat) :
    ∀ (first : Bool) (text : List Char) (items : List alpha) (rest : List Char),
      itemsWithin read depth limit first text = .ok (items, rest) →
        ∀ item ∈ items, good item := by
  induction limit with
  | zero =>
      intro first text items rest impossible
      cases impossible
  | succ limit inductionHypothesis =>
      intro first text items rest result
      rw [itemsWithin] at result
      obtain ⟨⟨next, behind⟩, _, result⟩ := bind_eq_ok_iff.mp result
      cases next with
      | none =>
          cases result
          simp
      | some itemText =>
          obtain ⟨⟨item, left⟩, itemEq, result⟩ := bind_eq_ok_iff.mp result
          obtain ⟨⟨later, right⟩, laterEq, result⟩ := bind_eq_ok_iff.mp result
          cases result
          rw [List.forall_mem_cons]
          exact ⟨yields itemText item left itemEq,
            inductionHypothesis false left later rest laterEq⟩

theorem Yields.list (yields : Yields read (depth - 1) good) :
    Yields (listReader read) depth fun items => 1 < depth ∧ ∀ item ∈ items, good item := by
  intro text items rest result
  unfold listReader at result
  split at result
  · obtain ⟨room, inside⟩ := of_entering result
    obtain ⟨behind, itemsEq⟩ := of_closing inside
    exact ⟨room, itemsWithin_yields yields _ _ _ _ _ itemsEq⟩
  · exact absurd result mismatch_ne_ok

end

/-! ## Records -/

section

variable {draft alpha : Type} {depth : Nat} {kept : draft → Prop}

/-- Reading the member keeps a property of the draft. -/
def Field.Keeps (field : Field draft) (depth : Nat) (kept : draft → Prop) : Prop :=
  ∀ current text next rest, kept current → field.read current depth text = .ok (next, rest) →
    kept next

theorem Field.of_keeps {name : String} {isOptional : Bool} {reader : Reader alpha}
    {get : draft → Option alpha} {set : alpha → draft → draft} {good : alpha → Prop}
    (yields : Yields reader depth good)
    (keeps : ∀ value current, good value → kept current → kept (set value current)) :
    (Field.of name isOptional reader get set).Keeps depth kept := by
  intro current text next rest holds result
  obtain ⟨⟨value, behind⟩, readEq, nextEq⟩ := bind_eq_ok_iff.mp result
  cases nextEq
  exact keeps value current (yields text value rest readEq) holds

theorem membersWithin_keeps {state : Type} {kept : state → Prop}
    {add : String → state → List Char → Read (state × List Char)}
    (keeps : ∀ name current text next rest, kept current → add name current text = .ok (next, rest) →
      kept next) (limit : Nat) :
    ∀ (first : Bool) (current : state) (text : List Char) (last : state) (rest : List Char),
      kept current → membersWithin add limit first current text = .ok (last, rest) → kept last := by
  induction limit with
  | zero =>
      intro first current text last rest _ impossible
      cases impossible
  | succ limit inductionHypothesis =>
      intro first current text last rest holds result
      rw [membersWithin] at result
      obtain ⟨⟨key, behind⟩, _, result⟩ := bind_eq_ok_iff.mp result
      cases key with
      | none =>
          cases result
          exact holds
      | some name =>
          obtain ⟨⟨next, left⟩, addEq, result⟩ := bind_eq_ok_iff.mp result
          exact inductionHypothesis false next left last rest
            (keeps name current behind next left holds addEq) result

namespace Record

variable {record : Record draft alpha}

theorem readMember_keeps (keeps : ∀ field ∈ record.fields, field.Keeps depth kept)
    {key : String} {current next : draft} {text rest : List Char} (holds : kept current)
    (result : record.readMember depth key current text = .ok (next, rest)) : kept next := by
  unfold readMember at result
  split at result
  · next field found =>
      split at result
      · cases result
      · obtain ⟨behind, _, readEq⟩ := bind_eq_ok_iff.mp result
        exact keeps field (List.mem_of_find?_eq_some found) current behind next rest holds readEq
  · obtain ⟨behind, _, result⟩ := bind_eq_ok_iff.mp result
    obtain ⟨left, _, result⟩ := bind_eq_ok_iff.mp result
    cases result
    exact holds

theorem readItems_keeps {fields : List (Field draft)}
    (keeps : ∀ field ∈ fields, field.Keeps depth kept) :
    ∀ (index : Nat) (current : draft) (text : List Char) (last : draft) (rest : List Char),
      kept current → record.readItems depth index fields current text = .ok (last, rest) →
        kept last := by
  induction fields with
  | nil =>
      intro index current text last rest holds result
      cases result
      exact holds
  | cons field fields inductionHypothesis =>
      intro index current text last rest holds result
      rw [List.forall_mem_cons] at keeps
      rw [readItems] at result
      obtain ⟨⟨item, behind⟩, _, result⟩ := bind_eq_ok_iff.mp result
      cases item with
      | some itemText =>
          obtain ⟨⟨next, left⟩, readEq, result⟩ := bind_eq_ok_iff.mp result
          exact inductionHypothesis keeps.2 (index + 1) next left last rest
            (keeps.1 current itemText next left holds readEq) result
      | none =>
          dsimp only at result
          split at result
          · exact inductionHypothesis keeps.2 index current behind last rest holds result
          · cases result

theorem of_complete {inner : Read (draft × List Char)} {value : alpha} {rest : List Char}
    (completed : record.complete inner = .ok (value, rest)) :
    ∃ last behind, inner = .ok (last, behind) ∧ record.finish last = .ok value := by
  obtain ⟨⟨last, behind⟩, innerEq, result⟩ := bind_eq_ok_iff.mp completed
  dsimp only at result
  split at result
  · next finishEq =>
      cases result
      exact ⟨last, rest, innerEq, finishEq⟩
  · cases result

/-- Whatever holds of the empty draft and is kept by each member holds of the finished one. -/
theorem yields (start : kept record.empty)
    (keeps : ∀ field ∈ record.fields, field.Keeps (depth - 1) kept) :
    Yields record.reader depth fun value =>
      1 < depth ∧ ∃ last, kept last ∧ record.finish last = .ok value := by
  intro text value rest result
  unfold reader at result
  split at result
  · obtain ⟨room, inside⟩ := of_entering result
    obtain ⟨_, inside⟩ := of_closing inside
    obtain ⟨last, behind, membersEq, finishEq⟩ := of_complete inside
    refine ⟨room, last, ?_, finishEq⟩
    exact membersWithin_keeps (fun _ _ _ _ _ holds added => readMember_keeps keeps holds added)
      _ _ _ _ _ _ start membersEq
  · obtain ⟨room, inside⟩ := of_entering result
    obtain ⟨_, inside⟩ := of_closing inside
    obtain ⟨last, behind, itemsEq, finishEq⟩ := of_complete inside
    exact ⟨room, last, readItems_keeps keeps _ _ _ _ _ start itemsEq, finishEq⟩
  · exact absurd result mismatch_ne_ok

end Record

end

end FuzzyRating.Json
