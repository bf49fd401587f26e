import FuzzyRating.Crisp.Parser
import FuzzyRating.Proofs.Decimal.Numeral
import FuzzyRating.Text.Range

/-!
The tokens of crisp expressions. A token is as long as the text allows: `<=` is one sign, and a
keyword ends where its letters do. Blanks may stand in front of any token, so a text has at most one
reading as tokens.
-/

namespace FuzzyRating.Crisp

open FuzzyRating.Text

inductive Token where
  | symbol (sign : List Char)
  /-- A keyword, here in small letters. -/
  | word (keyword : String)
  | number
  | quoted
  deriving DecidableEq, Repr

/-- The signs of which expressions are made. -/
def symbols : List (List Char) :=
  [['('], [')'], [','], ['|', '|'], ['&', '&'], ['!'], ['>', '='], ['<', '='], ['=', '='],
    ['!', '='], ['<', '>'], ['='], ['>'], ['<']]

def keywords : List String :=
  ["or", "and", "not", "in", "value", "x"]

/-- The text starts with the token, and `rest` follows. -/
def Token.Heads : Token → List Char → List Char → Prop
  | symbol sign, text, rest =>
      sign ∈ symbols ∧ text = sign ++ rest ∧
        ∀ other ∈ symbols, other <+: text → other.length ≤ sign.length
  | word keyword, text, rest =>
      keyword ∈ keywords ∧ ∃ letters, letters.map Char.toLower = keyword.toList ∧
        text = letters ++ rest ∧ Ends isWordChar rest
  | number, text, rest =>
      ∃ decimal, Decimal.scan text = some (decimal, rest) ∧ decimal.toFloat.isFinite = true
  | quoted, text, rest =>
      ∃ quote ∈ ['"', '\''], ∃ inside, quote ∉ inside ∧ text = quote :: (inside ++ quote :: rest)

/-- The text is made of the tokens, with or without blanks in front of each, and `rest` follows. -/
def Spells : List Token → List Char → List Char → Prop
  | [], text, rest => text = rest
  | token :: tokens, text, rest =>
      ∃ behind, token.Heads (skipBlanks text) behind ∧ Spells tokens behind rest

/-! ## How tokens begin -/

section

variable {c : Char}

theorem isAlpha_iff_toNat :
    c.isAlpha = true ↔ (65 ≤ c.toNat ∧ c.toNat ≤ 90) ∨ (97 ≤ c.toNat ∧ c.toNat ≤ 122) := by
  change (decide (c.val ≥ 65 ∧ c.val ≤ 90) ||
    decide (c.val ≥ 97) && decide (c.val ≤ 122)) = true ↔ _
  simp only [Bool.or_eq_true, Bool.and_eq_true, decide_eq_true_eq, UInt32.le_iff_toNat_le,
    ge_iff_le]
  exact Iff.rfl

theorem isWordChar_of_isAlpha (isAlpha : c.isAlpha = true) : isWordChar c = true := by
  have within := isAlpha_iff_toNat.mp isAlpha
  have ascii : c.toNat < 128 := by omega
  unfold isWordChar isLetterOrDigit
  rw [if_pos ascii]
  simp [Char.isAlphanum, isAlpha]

theorem isAlpha_of_toLower (isAlpha : c.toLower.isAlpha = true) : c.isAlpha = true := by
  by_cases isUpper : c.isUpper = true
  · change (c.isUpper || c.isLower) = true
    rw [isUpper, Bool.true_or]
  · have same : c.toLower = c := by
      unfold Char.toLower
      apply dif_neg
      intro inRange
      exact isUpper (decide_eq_true inRange)
    rwa [same] at isAlpha

theorem isAlpha_of_mem_letters {keyword : String} {letters : List Char}
    (isKeyword : keyword ∈ keywords) (spelled : letters.map Char.toLower = keyword.toList)
    (member : c ∈ letters) : c.isAlpha = true := by
  have allAlpha : (keywords.all fun keyword => keyword.toList.all Char.isAlpha) = true := by
    decide
  apply isAlpha_of_toLower
  apply List.all_eq_true.mp (List.all_eq_true.mp allAlpha keyword isKeyword)
  rw [← spelled]
  exact List.mem_map_of_mem member

end

/-- The code points with which tokens of the same kind begin. -/
def Token.initials : Token → List (Nat × Nat)
  | symbol _ => [(33, 33), (38, 38), (40, 41), (44, 44), (60, 62), (124, 124)]
  | word _ => [(65, 90), (97, 122)]
  | number => [(43, 43), (45, 46), (48, 57)]
  | quoted => [(34, 34), (39, 39)]

section

variable {token other : Token} {text rest otherRest : List Char}

theorem inRanges_of_scanDigits {c : Char} {scanned : Nat × Nat × List Char}
    (scanEq : Decimal.scanDigits (c :: text) = some scanned) :
    inRanges Token.number.initials c.toNat = true := by
  by_cases isDigit : c.isDigit = true
  · have within := Char.isDigit_iff_toNat.mp isDigit
    simp [Token.initials, inRanges] at within ⊢
    omega
  · have noDigits : Decimal.spanDigits (c :: text) = ([], c :: text) := by
      simp [Decimal.spanDigits, isDigit]
    unfold Decimal.scanDigits at scanEq
    simp only [noDigits] at scanEq
    split at scanEq
    · next isPoint =>
        cases isPoint
        decide
    · cases scanEq

theorem inRanges_of_scan {c : Char} {scanned : Decimal × List Char}
    (scanEq : Decimal.scan (c :: text) = some scanned) :
    inRanges Token.number.initials c.toNat = true := by
  unfold Decimal.scan at scanEq
  obtain ⟨digits, digitsEq, _⟩ := Option.bind_eq_some_iff.mp scanEq
  change Decimal.scanDigits (Decimal.scanSign (c :: text)).2 = some digits at digitsEq
  unfold Decimal.scanSign at digitsEq
  split at digitsEq
  · next isMinus =>
      cases isMinus
      decide
  · next isPlus =>
      cases isPlus
      decide
  · exact inRanges_of_scanDigits digitsEq

theorem Token.Heads.exists_cons (heads : token.Heads text rest) :
    ∃ c tail, text = c :: tail ∧ inRanges token.initials c.toNat = true := by
  cases token with
  | symbol sign =>
      obtain ⟨isSymbol, rfl, _⟩ := heads
      have allBegin : ∀ sign ∈ symbols, ∃ c tail, sign = c :: tail ∧
          inRanges (Token.symbol sign).initials c.toNat = true := by
        simp [symbols, Token.initials, inRanges]
      obtain ⟨c, tail, rfl, begins⟩ := allBegin sign isSymbol
      exact ⟨c, tail ++ rest, rfl, begins⟩
  | word keyword =>
      obtain ⟨isKeyword, letters, spelled, rfl, _⟩ := heads
      cases letters with
      | nil =>
          have noneEmpty : ∀ keyword ∈ keywords, keyword.toList ≠ [] := by decide
          exact absurd spelled.symm (noneEmpty keyword isKeyword)
      | cons c letters =>
          have isAlpha := isAlpha_of_mem_letters isKeyword spelled List.mem_cons_self
          refine ⟨c, letters ++ rest, rfl, ?_⟩
          simpa [Token.initials, inRanges] using isAlpha_iff_toNat.mp isAlpha
  | number =>
      obtain ⟨decimal, scanned, _⟩ := heads
      cases text with
      | nil => cases scanned
      | cons c tail => exact ⟨c, tail, rfl, inRanges_of_scan scanned⟩
  | quoted =>
      obtain ⟨quote, isQuote, inside, _, rfl⟩ := heads
      have bothBegin : (['"', '\''].all fun quote =>
          inRanges Token.quoted.initials quote.toNat) = true := by
        decide
      exact ⟨quote, _, rfl, List.all_eq_true.mp bothBegin quote isQuote⟩

theorem Token.Heads.skipBlanks_eq (heads : token.Heads text rest) : skipBlanks text = text := by
  obtain ⟨c, tail, rfl, begins⟩ := heads.exists_cons
  have solid : isBlank c = false := by
    cases token <;>
      simp only [Token.initials, inRanges, List.any_cons, List.any_nil, Bool.or_eq_true,
        Bool.and_eq_true, decide_eq_true_eq, Bool.false_eq_true, or_false] at begins <;>
      simp only [isBlank, Bool.or_eq_false_iff, Bool.and_eq_false_iff, decide_eq_false_iff_not,
        beq_eq_false_iff_ne] <;>
      omega
  unfold skipBlanks
  rw [List.dropWhile_cons_of_neg (by simp [solid])]

/-- Tokens of different kinds begin with different characters. -/
theorem initials_eq_of_heads (heads : token.Heads text rest)
    (otherHeads : other.Heads text otherRest) :
    token.initials = other.initials := by
  obtain ⟨c, tail, rfl, begins⟩ := heads.exists_cons
  obtain ⟨_, _, same, otherBegins⟩ := otherHeads.exists_cons
  cases same
  cases token <;> cases other <;>
    first
    | rfl
    | simp only [Token.initials, inRanges, List.any_cons, List.any_nil, Bool.or_eq_true,
        Bool.and_eq_true, decide_eq_true_eq, Bool.false_eq_true, or_false] at begins otherBegins
      omega

/-! ## One reading -/

theorem symbol_heads_unique {sign otherSign : List Char}
    (heads : (Token.symbol sign).Heads text rest)
    (otherHeads : (Token.symbol otherSign).Heads text otherRest) :
    sign = otherSign ∧ rest = otherRest := by
  obtain ⟨isSymbol, textEq, longest⟩ := heads
  obtain ⟨otherIsSymbol, otherTextEq, otherLongest⟩ := otherHeads
  have signPrefix : sign <+: text := ⟨rest, textEq.symm⟩
  have otherPrefix : otherSign <+: text := ⟨otherRest, otherTextEq.symm⟩
  have shorter := otherLongest sign isSymbol signPrefix
  have longer := longest otherSign otherIsSymbol otherPrefix
  have same : sign = otherSign :=
    (List.prefix_of_prefix_length_le signPrefix otherPrefix shorter).eq_of_length_le longer
  subst same
  rw [textEq] at otherTextEq
  exact ⟨rfl, List.append_cancel_left otherTextEq⟩

theorem word_heads_unique {keyword otherKeyword : String}
    (heads : (Token.word keyword).Heads text rest)
    (otherHeads : (Token.word otherKeyword).Heads text otherRest) :
    keyword = otherKeyword ∧ rest = otherRest := by
  obtain ⟨isKeyword, letters, spelled, rfl, ends⟩ := heads
  obtain ⟨otherIsKeyword, otherLetters, otherSpelled, same, otherEnds⟩ := otherHeads
  have stretch : ∀ c ∈ letters, isWordChar c = true := fun c member =>
    isWordChar_of_isAlpha (isAlpha_of_mem_letters isKeyword spelled member)
  have otherStretch : ∀ c ∈ otherLetters, isWordChar c = true := fun c member =>
    isWordChar_of_isAlpha (isAlpha_of_mem_letters otherIsKeyword otherSpelled member)
  obtain ⟨rfl, restEq⟩ := stretch_inj stretch otherStretch ends otherEnds same
  exact ⟨String.toList_inj.mp (spelled.symm.trans otherSpelled), restEq⟩

theorem bne_of_not_mem {quote : Char} {inside : List Char} (absent : quote ∉ inside) :
    ∀ c ∈ inside, (c != quote) = true := by
  intro c member
  rw [bne_iff_ne]
  rintro rfl
  exact absent member

theorem ends_quote (quote : Char) (rest : List Char) : Ends (· != quote) (quote :: rest) :=
  Ends.cons (by simp)

theorem quoted_heads_unique (heads : Token.quoted.Heads text rest)
    (otherHeads : Token.quoted.Heads text otherRest) :
    rest = otherRest := by
  obtain ⟨quote, _, inside, absent, rfl⟩ := heads
  obtain ⟨otherQuote, _, otherInside, otherAbsent, same⟩ := otherHeads
  obtain ⟨rfl, behind⟩ := List.cons.inj same
  have sameRest := (stretch_inj (bne_of_not_mem absent) (bne_of_not_mem otherAbsent)
    (ends_quote quote _) (ends_quote quote _) behind).2
  exact (List.cons.inj sameRest).2

/-- A text starts with at most one token. -/
theorem Token.Heads.unique (heads : token.Heads text rest)
    (otherHeads : other.Heads text otherRest) :
    token = other ∧ rest = otherRest := by
  have sameKind := initials_eq_of_heads heads otherHeads
  cases token <;> cases other <;> try cases sameKind
  case symbol.symbol sign otherSign =>
    obtain ⟨rfl, restEq⟩ := symbol_heads_unique heads otherHeads
    exact ⟨rfl, restEq⟩
  case word.word keyword otherKeyword =>
    obtain ⟨rfl, restEq⟩ := word_heads_unique heads otherHeads
    exact ⟨rfl, restEq⟩
  case number.number =>
    obtain ⟨decimal, scanned, _⟩ := heads
    obtain ⟨otherDecimal, otherScanned, _⟩ := otherHeads
    rw [scanned] at otherScanned
    cases otherScanned
    exact ⟨rfl, rfl⟩
  case quoted.quoted => exact ⟨rfl, quoted_heads_unique heads otherHeads⟩

theorem Token.Heads.length_lt (heads : token.Heads text rest) : rest.length < text.length := by
  cases token with
  | symbol sign =>
      obtain ⟨isSymbol, rfl, _⟩ := heads
      have noneEmpty : ∀ sign ∈ symbols, 0 < sign.length := by decide
      have := noneEmpty sign isSymbol
      rw [List.length_append]
      omega
  | word keyword =>
      obtain ⟨isKeyword, letters, spelled, rfl, _⟩ := heads
      have noneEmpty : ∀ keyword ∈ keywords, 0 < keyword.toList.length := by decide
      have := noneEmpty keyword isKeyword
      rw [← spelled, List.length_map] at this
      rw [List.length_append]
      omega
  | number =>
      obtain ⟨decimal, scanned, _⟩ := heads
      exact Decimal.length_lt_of_scan scanned
  | quoted =>
      obtain ⟨quote, _, inside, _, rfl⟩ := heads
      simp
      omega

end

/-! ## Texts made of tokens -/

section

variable {token : Token} {tokens others : List Token} {text behind rest otherRest : List Char}

theorem skipBlanks_skipBlanks (text : List Char) :
    skipBlanks (skipBlanks text) = skipBlanks text := by
  unfold skipBlanks
  induction text with
  | nil => rfl
  | cons c text inductionHypothesis =>
      by_cases blank : isBlank c = true
      · rwa [List.dropWhile_cons_of_pos blank]
      · rw [List.dropWhile_cons_of_neg blank, List.dropWhile_cons_of_neg blank]

theorem length_skipBlanks_le (text : List Char) : (skipBlanks text).length ≤ text.length :=
  (List.dropWhile_suffix isBlank).length_le

theorem spells_singleton (heads : token.Heads (skipBlanks text) rest) :
    Spells [token] text rest :=
  ⟨rest, heads, rfl⟩

theorem spells_append :
    Spells (tokens ++ others) text rest ↔
      ∃ behind, Spells tokens text behind ∧ Spells others behind rest := by
  induction tokens generalizing text with
  | nil => simp [Spells]
  | cons token tokens inductionHypothesis =>
      simp only [List.cons_append, Spells, inductionHypothesis]
      constructor
      · rintro ⟨left, heads, behind, early, late⟩
        exact ⟨behind, ⟨left, heads, early⟩, late⟩
      · rintro ⟨behind, ⟨left, heads, early⟩, late⟩
        exact ⟨left, heads, behind, early, late⟩

theorem spells_skipBlanks (nonempty : tokens ≠ []) :
    Spells tokens (skipBlanks text) rest ↔ Spells tokens text rest := by
  obtain ⟨token, tokens, rfl⟩ := List.exists_cons_of_ne_nil nonempty
  simp only [Spells, skipBlanks_skipBlanks]

theorem Spells.length_le (spells : Spells tokens text rest) :
    rest.length + tokens.length ≤ text.length := by
  induction tokens generalizing text with
  | nil =>
      cases spells
      exact Nat.le_refl _
  | cons token tokens inductionHypothesis =>
      obtain ⟨behind, heads, later⟩ := spells
      have := inductionHypothesis later
      have := heads.length_lt
      have := length_skipBlanks_le text
      rw [List.length_cons]
      omega

theorem not_heads_nil : ¬ token.Heads [] rest := by
  intro heads
  have := heads.length_lt
  simp at this

/-- A text is made of tokens in at most one way. -/
theorem Spells.unique (spells : Spells tokens text rest) (ends : skipBlanks rest = [])
    (otherSpells : Spells others text otherRest) (otherEnds : skipBlanks otherRest = []) :
    tokens = others := by
  induction tokens generalizing text others with
  | nil =>
      cases spells
      cases others with
      | nil => rfl
      | cons other others =>
          obtain ⟨behind, heads, _⟩ := otherSpells
          rw [ends] at heads
          exact absurd heads not_heads_nil
  | cons token tokens inductionHypothesis =>
      obtain ⟨behind, heads, later⟩ := spells
      cases others with
      | nil =>
          cases otherSpells
          rw [otherEnds] at heads
          exact absurd heads not_heads_nil
      | cons other others =>
          obtain ⟨otherBehind, otherHeads, otherLater⟩ := otherSpells
          obtain ⟨rfl, rfl⟩ := heads.unique otherHeads
          rw [inductionHypothesis later otherLater]

end

end FuzzyRating.Crisp
