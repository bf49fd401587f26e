import FuzzyRating.Json.Scan
import FuzzyRating.Json.Value

/-!
JSON strings read back: the reader of strings gives the text that was written, and stops behind the
closing quote. So a written string can be told from whatever follows it.
-/

namespace FuzzyRating.Json

/-! ## One character -/

private theorem hexValue?_digitChar {n : Nat} (small : n < 16) :
    hexValue? (Nat.digitChar n) = some n := by
  revert small
  revert n
  decide

/-- The code of a control character reads back. -/
private theorem readCodePoint_hexPair {c : Char} (control : c.toNat < 0x20) (text : List Char) :
    readCodePoint ('0' :: '0' :: (hexPair c.toNat ++ text)) = .ok (c, text) := by
  have zero : hexValue? '0' = some 0 := rfl
  have high : hexValue? (Nat.digitChar (c.toNat / 16)) = some (c.toNat / 16) :=
    hexValue?_digitChar (by omega)
  have low : hexValue? (Nat.digitChar (c.toNat % 16)) = some (c.toNat % 16) :=
    hexValue?_digitChar (by omega)
  have code : readHex ('0' :: '0' :: (hexPair c.toNat ++ text)) = .ok (c.toNat, text) := by
    have digits : (['0', '0', Nat.digitChar (c.toNat / 16), Nat.digitChar (c.toNat % 16)]).mapM
        hexValue? = some [0, 0, c.toNat / 16, c.toNat % 16] := by
      simp [zero, high, low]
    have value : ((0 * 16 + 0) * 16 + c.toNat / 16) * 16 + c.toNat % 16 = c.toNat := by
      omega
    unfold readHex
    simp only [hexPair, List.cons_append, List.nil_append, List.take_succ_cons, List.take_zero,
      digits, List.drop_succ_cons, List.drop_zero, value]
  have notLow : ¬(0xDC00 ≤ c.toNat ∧ c.toNat ≤ 0xDFFF) := by
    omega
  have notHigh : ¬(0xD800 ≤ c.toNat ∧ c.toNat ≤ 0xDBFF) := by
    omega
  unfold readCodePoint
  rw [code]
  change (if _ then _ else if _ then _ else _) = _
  rw [if_neg notLow, if_neg notHigh, Char.ofNat_toNat]

/-- Each character is written either as it is or with a backslash in front. -/
private theorem escapedChar_cases (c : Char) :
    (escapedChar c = [c] ∧ c ≠ '"' ∧ c ≠ '\\' ∧ ¬c.toNat < 0x20) ∨
      ∃ form, escapedChar c = '\\' :: form ∧
        (∀ text, readEscape (form ++ text) = .ok (c, text)) ∧
        ∀ d ∈ form, 0x20 ≤ d.toNat := by
  unfold escapedChar
  by_cases quote : c = '"'
  · subst quote
    exact Or.inr ⟨['"'], rfl, fun _ => rfl, List.forall_mem_singleton.mpr (by decide)⟩
  by_cases backslash : c = '\\'
  · subst backslash
    exact Or.inr ⟨['\\'], rfl, fun _ => rfl, List.forall_mem_singleton.mpr (by decide)⟩
  by_cases newline : c = '\n'
  · subst newline
    exact Or.inr ⟨['n'], rfl, fun _ => rfl, List.forall_mem_singleton.mpr (by decide)⟩
  by_cases carriage : c = '\r'
  · subst carriage
    exact Or.inr ⟨['r'], rfl, fun _ => rfl, List.forall_mem_singleton.mpr (by decide)⟩
  by_cases tab : c = '\t'
  · subst tab
    exact Or.inr ⟨['t'], rfl, fun _ => rfl, List.forall_mem_singleton.mpr (by decide)⟩
  by_cases back : c = '\x08'
  · subst back
    exact Or.inr ⟨['b'], rfl, fun _ => rfl, List.forall_mem_singleton.mpr (by decide)⟩
  by_cases feed : c = '\x0c'
  · subst feed
    exact Or.inr ⟨['f'], rfl, fun _ => rfl, List.forall_mem_singleton.mpr (by decide)⟩
  rw [if_neg quote, if_neg backslash, if_neg newline, if_neg carriage, if_neg tab, if_neg back,
    if_neg feed]
  by_cases control : c.toNat < 0x20
  · rw [if_pos control]
    refine Or.inr ⟨'u' :: '0' :: '0' :: hexPair c.toNat, rfl, readCodePoint_hexPair control, ?_⟩
    have printable : ∀ n < 16, 0x20 ≤ (Nat.digitChar n).toNat := by
      decide
    intro d member
    simp only [hexPair, List.mem_cons, List.not_mem_nil, or_false] at member
    rcases member with rfl | rfl | rfl | rfl | rfl
    · decide
    · decide
    · decide
    · exact printable _ (by omega)
    · exact printable _ (by omega)
  · rw [if_neg control]
    exact Or.inl ⟨rfl, quote, backslash, control⟩

/-- A written character reads back. -/
private theorem readCharsWithin_escapedChar (limit : Nat) (c : Char) (text : List Char) :
    readCharsWithin (limit + 1) (escapedChar c ++ text) =
      (readCharsWithin limit text).map fun (cs, rest) => (c :: cs, rest) := by
  rcases escapedChar_cases c with
    ⟨plain, notQuote, notBackslash, notControl⟩ | ⟨form, escaped, reads, _⟩
  · rw [plain, List.singleton_append, readCharsWithin]
    · rw [if_neg notControl]
      cases readCharsWithin limit text <;> rfl
    · exact notQuote
    · exact notBackslash
  · rw [escaped, List.cons_append, readCharsWithin, reads]
    change (readCharsWithin limit text).bind _ = _
    cases readCharsWithin limit text <;> rfl

/-- Written strings have no control characters. -/
theorem printable_of_mem_escapedChar {c d : Char} (member : d ∈ escapedChar c) :
    0x20 ≤ d.toNat := by
  rcases escapedChar_cases c with ⟨plain, _, _, notControl⟩ | ⟨form, escaped, _, printable⟩
  · rw [plain, List.mem_singleton] at member
    subst member
    omega
  · rw [escaped, List.mem_cons] at member
    rcases member with rfl | inForm
    · decide
    · exact printable d inForm

/-! ## Whole strings -/

private theorem readCharsWithin_escaped {limit : Nat} {chars : List Char} (rest : List Char)
    (enough : chars.length < limit) :
    readCharsWithin limit (chars.flatMap escapedChar ++ '"' :: rest) = .ok (chars, rest) := by
  induction chars generalizing limit with
  | nil =>
      obtain ⟨below, rfl⟩ := Nat.exists_eq_add_one_of_ne_zero (Nat.ne_of_gt enough)
      rfl
  | cons c chars inductionHypothesis =>
      obtain ⟨below, rfl⟩ :=
        Nat.exists_eq_add_one_of_ne_zero (Nat.ne_of_gt (Nat.zero_lt_of_lt enough))
      have less : chars.length < below := by
        rw [List.length_cons] at enough
        omega
      rw [List.flatMap_cons, List.append_assoc, readCharsWithin_escapedChar,
        inductionHypothesis less]
      rfl

private theorem length_le_escaped (chars : List Char) :
    chars.length ≤ (chars.flatMap escapedChar).length := by
  induction chars with
  | nil => exact Nat.le_refl 0
  | cons c chars inductionHypothesis =>
      have nonempty : 0 < (escapedChar c).length := by
        rcases escapedChar_cases c with ⟨plain, _⟩ | ⟨form, escaped, _⟩
        · rw [plain]
          exact Nat.one_pos
        · rw [escaped]
          exact Nat.succ_pos _
      rw [List.flatMap_cons, List.length_append, List.length_cons]
      omega

/-- A written string reads back, and what follows it is left. -/
theorem readString_stringText (text : String) (rest : List Char) :
    ∃ behind, stringText text ++ rest = '"' :: behind ∧ readString behind = .ok (text, rest) := by
  refine ⟨text.toList.flatMap escapedChar ++ '"' :: rest, by simp [stringText], ?_⟩
  have lengthBound := length_le_escaped text.toList
  have enough : text.toList.length <
      (text.toList.flatMap escapedChar ++ '"' :: rest).length + 1 := by
    rw [List.length_append]
    omega
  unfold readString
  rw [readCharsWithin_escaped rest enough]
  change Except.ok (String.ofList text.toList, rest) = _
  rw [String.ofList_toList]

/-- Strings with what follows them are the same only if both parts are. -/
theorem stringText_append_inj {a b : String} {aRest bRest : List Char}
    (same : stringText a ++ aRest = stringText b ++ bRest) :
    a = b ∧ aRest = bRest := by
  obtain ⟨behind, aText, aRead⟩ := readString_stringText a aRest
  obtain ⟨again, bText, bRead⟩ := readString_stringText b bRest
  rw [aText, bText] at same
  cases same
  rw [aRead] at bRead
  cases bRead
  exact ⟨rfl, rfl⟩

theorem printable_of_mem_stringText {text : String} {d : Char} (member : d ∈ stringText text) :
    0x20 ≤ d.toNat := by
  unfold stringText at member
  simp only [List.mem_cons, List.mem_append, List.mem_flatMap, List.not_mem_nil,
    or_false] at member
  rcases member with rfl | ⟨c, _, inForm⟩ | rfl
  · decide
  · exact printable_of_mem_escapedChar inForm
  · decide

end FuzzyRating.Json
