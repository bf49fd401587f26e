import FuzzyRating.Proofs.Crisp.Canonical
import FuzzyRating.Proofs.Crisp.Token

/-!
What the readers of signs, keywords and literals take: exactly one token of the kind they look for.
-/

namespace FuzzyRating.Crisp

open FuzzyRating.Text

/-- What follows what is read. -/
def after {alpha : Type} (read : Reader alpha) (text : List Char) : Option (List Char) :=
  (read text).map Prod.snd

/-- Exactly the tokens of the list are taken off the front of a text. -/
def Recognizes (skip : List Char → Option (List Char)) (choices : List Token) : Prop :=
  ∀ text rest, skip text = some rest ↔ ∃ token ∈ choices, token.Heads text rest

def relationTokens : List Token :=
  relationSigns.map fun sign => .symbol sign.1

def literalTokens : List Token :=
  [.quoted, .number]

def subjectTokens : List Token :=
  [.word "value", .word "x"]

def orTokens : List Token :=
  [.symbol ['|', '|'], .word "or"]

def andTokens : List Token :=
  [.symbol ['&', '&'], .word "and"]

def notTokens : List Token :=
  [.symbol ['!'], .word "not"]

section

variable {skip other : List Char → Option (List Char)} {choices others : List Token}
  {token : Token} {text rest : List Char}

theorem Recognizes.eq_some (recognizes : Recognizes skip choices) (isChoice : token ∈ choices)
    (heads : token.Heads text rest) : skip text = some rest :=
  (recognizes text rest).mpr ⟨token, isChoice, heads⟩

theorem Recognizes.eq_none (recognizes : Recognizes skip choices) (absent : token ∉ choices)
    (heads : token.Heads text rest) : skip text = none := by
  cases skipEq : skip text with
  | none => rfl
  | some behind =>
      obtain ⟨choice, isChoice, choiceHeads⟩ := (recognizes text behind).mp skipEq
      obtain ⟨rfl, _⟩ := heads.unique choiceHeads
      exact absurd isChoice absent

theorem Recognizes.or (first : Recognizes skip choices) (second : Recognizes other others) :
    Recognizes (fun text => (skip text).or (other text)) (choices ++ others) := by
  intro text rest
  constructor
  · intro taken
    rcases Option.or_eq_some_iff.mp taken with isFirst | ⟨_, isSecond⟩
    · obtain ⟨token, isChoice, heads⟩ := (first text rest).mp isFirst
      exact ⟨token, List.mem_append_left others isChoice, heads⟩
    · obtain ⟨token, isChoice, heads⟩ := (second text rest).mp isSecond
      exact ⟨token, List.mem_append_right choices isChoice, heads⟩
  · rintro ⟨token, isChoice, heads⟩
    by_cases inFirst : token ∈ choices
    · simp only [first.eq_some inFirst heads, Option.some_or]
    · have inSecond := (List.mem_append.mp isChoice).resolve_left inFirst
      simp only [first.eq_none inFirst heads, second.eq_some inSecond heads, Option.none_or]

end

/-! ## Signs and keywords -/

section

variable {sign text rest : List Char}

theorem afterSymbol_eq_some : afterSymbol sign text = some rest ↔ text = sign ++ rest := by
  induction sign generalizing text with
  | nil => simp [afterSymbol]
  | cons s sign inductionHypothesis =>
      cases text with
      | nil => simp [afterSymbol]
      | cons c text =>
          by_cases same : s = c
          · subst same
            simp [afterSymbol, inductionHypothesis]
          · simp [afterSymbol, same, Ne.symm same]

theorem afterLetters_eq_some {keyword : List Char} :
    afterLetters keyword text = some rest ↔
      ∃ letters, letters.map Char.toLower = keyword ∧ text = letters ++ rest := by
  induction keyword generalizing text with
  | nil => simp [afterLetters]
  | cons l keyword inductionHypothesis =>
      cases text with
      | nil => simp [afterLetters]
      | cons c text =>
          by_cases same : l = c.toLower
          · simp only [afterLetters, if_pos same, inductionHypothesis]
            constructor
            · rintro ⟨letters, rfl, rfl⟩
              exact ⟨c :: letters, by simp [same], rfl⟩
            · rintro ⟨letters, spelled, textEq⟩
              cases letters with
              | nil => cases spelled
              | cons first letters =>
                  cases textEq
                  exact ⟨letters, (List.cons.inj spelled).2, rfl⟩
          · simp only [afterLetters, if_neg same, reduceCtorEq, false_iff]
            rintro ⟨letters, spelled, textEq⟩
            cases letters with
            | nil => cases spelled
            | cons first letters =>
                cases textEq
                exact same (List.cons.inj spelled).1.symm

/-- Signs are told apart by trying long ones before short ones, if all that go on with one of them
are among them. -/
theorem recognizes_signs (signs : List (List Char)) (areSymbols : ∀ sign ∈ signs, sign ∈ symbols)
    (whole : ∀ sign ∈ signs, ∀ other ∈ symbols, sign <+: other → other ∈ signs)
    (longFirst : signs.Pairwise fun early late => late.length ≤ early.length) :
    Recognizes (fun text => signs.findSome? (afterSymbol · text)) (signs.map .symbol) := by
  have sound : ∀ text rest, signs.findSome? (afterSymbol · text) = some rest →
      ∃ sign ∈ signs, (Token.symbol sign).Heads text rest := by
    intro text rest found
    obtain ⟨early, sign, late, rfl, taken, missed⟩ := List.findSome?_eq_some_iff.mp found
    have textEq := afterSymbol_eq_some.mp taken
    have isSign : sign ∈ early ++ sign :: late := by simp
    refine ⟨sign, isSign, areSymbols sign isSign, textEq, fun other isSymbol otherPrefix => ?_⟩
    by_contra longer
    have signPrefix : sign <+: other :=
      List.prefix_of_prefix_length_le ⟨rest, textEq.symm⟩ otherPrefix (by omega)
    rcases List.mem_append.mp (whole sign isSign other isSymbol signPrefix) with isEarly | isLate
    · obtain ⟨tail, rfl⟩ := otherPrefix
      have alsoTaken := afterSymbol_eq_some.mpr (rfl : other ++ tail = other ++ tail)
      rw [missed other isEarly] at alsoTaken
      cases alsoTaken
    · have ordered := (List.pairwise_append.mp longFirst).2.1
      rcases List.mem_cons.mp isLate with rfl | isLater
      · exact longer (Nat.le_refl _)
      · exact longer ((List.pairwise_cons.mp ordered).1 other isLater)
  intro text rest
  constructor
  · intro found
    obtain ⟨sign, isSign, heads⟩ := sound text rest found
    exact ⟨.symbol sign, List.mem_map_of_mem isSign, heads⟩
  · rintro ⟨token, isToken, heads⟩
    obtain ⟨sign, isSign, rfl⟩ := List.mem_map.mp isToken
    have taken := afterSymbol_eq_some.mpr heads.2.1
    cases found : signs.findSome? (afterSymbol · text) with
    | none =>
        have missed := List.findSome?_eq_none_iff.mp found sign isSign
        rw [taken] at missed
        cases missed
    | some behind =>
        obtain ⟨other, _, otherHeads⟩ := sound text behind found
        exact found.trans (congrArg some (heads.unique otherHeads).2.symm)

theorem recognizes_symbol (isSymbol : sign ∈ symbols)
    (whole : ∀ other ∈ symbols, sign <+: other → other = sign) :
    Recognizes (afterSymbol sign) [.symbol sign] := by
  have alone := recognizes_signs [sign] (by simpa using isSymbol)
    (by simpa using whole) (List.pairwise_singleton _ sign)
  have onlyOne : ∀ text, [sign].findSome? (afterSymbol · text) = afterSymbol sign text := by
    intro text
    cases taken : afterSymbol sign text <;> simp [taken]
  intro text rest
  simpa only [onlyOne, List.map_singleton] using alone text rest

theorem recognizes_word (keyword : String) (isKeyword : keyword ∈ keywords) :
    Recognizes (afterWord keyword) [.word keyword] := by
  intro text rest
  simp only [List.mem_singleton, exists_eq_left]
  unfold afterWord
  constructor
  · intro taken
    split at taken
    · next c behind lettersEq =>
        obtain ⟨letters, spelled, textEq⟩ := afterLetters_eq_some.mp lettersEq
        split at taken
        · cases taken
        · next outside =>
            cases taken
            exact ⟨isKeyword, letters, spelled, textEq, Ends.cons (by simpa using outside)⟩
    · next other =>
        obtain ⟨letters, spelled, textEq⟩ := afterLetters_eq_some.mp taken
        refine ⟨isKeyword, letters, spelled, textEq, ?_⟩
        cases rest with
        | nil => exact Ends.nil
        | cons c rest => exact absurd taken (other c rest)
  · rintro ⟨_, letters, spelled, textEq, ends⟩
    rw [afterLetters_eq_some.mpr ⟨letters, spelled, textEq⟩]
    cases rest with
    | nil => rfl
    | cons c rest => simp [ends c rfl]

theorem recognizes_or : Recognizes afterOr orTokens :=
  (recognizes_symbol (by decide) (by decide)).or (recognizes_word _ (by decide))

theorem recognizes_and : Recognizes afterAnd andTokens :=
  (recognizes_symbol (by decide) (by decide)).or (recognizes_word _ (by decide))

theorem recognizes_subject :
    Recognizes (fun text => (afterWord "value" text).or (afterWord "x" text)) subjectTokens :=
  (recognizes_word _ (by decide)).or (recognizes_word _ (by decide))

theorem heads_bang : (Token.symbol ['!']).Heads text rest ↔
    text = '!' :: rest ∧ ∀ tail, rest ≠ '=' :: tail := by
  constructor
  · rintro ⟨_, rfl, longest⟩
    refine ⟨rfl, ?_⟩
    rintro tail rfl
    have := longest ['!', '='] (by decide) ⟨tail, rfl⟩
    simp at this
  · rintro ⟨rfl, notEquals⟩
    refine ⟨by decide, rfl, fun other isSymbol otherPrefix => ?_⟩
    by_contra longer
    have onlyUnequal : ∀ other ∈ symbols, ['!'] <+: other → ¬ other.length ≤ 1 →
        other = ['!', '='] := by decide
    have bangPrefix : ['!'] <+: other :=
      List.prefix_of_prefix_length_le ⟨rest, rfl⟩ otherPrefix
        (Nat.le_of_lt (Nat.lt_of_not_le longer))
    obtain rfl := onlyUnequal other isSymbol bangPrefix longer
    obtain ⟨tail, textEq⟩ := otherPrefix
    exact notEquals tail (List.cons.inj textEq).2.symm

theorem recognizes_not : Recognizes afterNot notTokens := by
  intro text rest
  have isWord := recognizes_word "not" (by decide) text rest
  simp only [List.mem_singleton, exists_eq_left] at isWord
  simp only [notTokens, List.mem_cons, List.not_mem_nil, or_false, exists_eq_or_imp, exists_eq_left,
    heads_bang, ← isWord]
  unfold afterNot
  split
  · next tail =>
      simp only [reduceCtorEq, false_iff, not_or, not_and]
      refine ⟨fun same noEquals => ?_, ?_⟩
      · exact noEquals tail (List.cons.inj same).2.symm
      · simp [afterWord, afterLetters]
  · next tail notEquals =>
      have notWord : afterWord "not" ('!' :: tail) = none := by simp [afterWord, afterLetters]
      simp only [notWord, Option.some.injEq, List.cons.injEq, true_and, reduceCtorEq, or_false]
      constructor
      · rintro rfl
        exact ⟨rfl, notEquals⟩
      · exact fun same => same.1
  · next noBang =>
      have notBang : text ≠ '!' :: rest := noBang rest
      simp [notBang]

theorem recognizes_relation : Recognizes (after relation) relationTokens := by
  have tried := recognizes_signs (relationSigns.map Prod.fst) (by decide) (by decide)
    (by decide)
  have sameTokens : relationTokens = (relationSigns.map Prod.fst).map .symbol := rfl
  have sameRest : ∀ text, after relation text =
      (relationSigns.map Prod.fst).findSome? (afterSymbol · text) := by
    intro text
    unfold after relation
    rw [List.map_findSome?, List.findSome?_map]
    congr 1
    funext sign
    simp [Function.comp_def]
  intro text rest
  rw [sameRest, sameTokens]
  exact tried text rest

end

/-! ## Literals -/

theorem after_upTo {quote : Char} {text rest : List Char} :
    after (upTo quote) text = some rest ↔
      ∃ inside, quote ∉ inside ∧ text = inside ++ quote :: rest := by
  constructor
  · intro taken
    obtain ⟨⟨value, behind⟩, readEq, restEq⟩ := Option.map_eq_some_iff.mp taken
    cases restEq
    have absent := not_mem_of_upTo readEq
    unfold upTo at readEq
    split at readEq
    · next c tail dropped =>
        cases readEq
        rw [String.toList_ofList] at absent
        have stops := List.head?_dropWhile_not (· != quote) text
        rw [dropped] at stops
        have isQuote : c = quote := by simpa using stops
        subst isQuote
        refine ⟨text.takeWhile (· != c), absent, ?_⟩
        rw [← dropped, List.takeWhile_append_dropWhile]
    · cases readEq
  · rintro ⟨inside, absent, rfl⟩
    unfold after upTo
    rw [dropWhile_stretch (bne_of_not_mem absent) (ends_quote quote rest)]
    rfl

theorem recognizes_quoted : Recognizes (after quotedText) [.quoted] := by
  intro text rest
  simp only [List.mem_singleton, exists_eq_left]
  constructor
  · intro taken
    unfold after quotedText at taken
    split at taken
    · next behind =>
        obtain ⟨inside, absent, rfl⟩ := after_upTo.mp taken
        exact ⟨'"', by simp, inside, absent, rfl⟩
    · next behind =>
        obtain ⟨inside, absent, rfl⟩ := after_upTo.mp taken
        exact ⟨'\'', by simp, inside, absent, rfl⟩
    · cases taken
  · rintro ⟨quote, isQuote, inside, absent, rfl⟩
    have taken := after_upTo.mpr ⟨inside, absent, (rfl : inside ++ quote :: rest = _)⟩
    simp only [List.mem_cons, List.not_mem_nil, or_false] at isQuote
    rcases isQuote with rfl | rfl
    · exact taken
    · exact taken

theorem recognizes_number : Recognizes (after (number : Reader Float)) [.number] := by
  intro text rest
  simp only [List.mem_singleton, exists_eq_left]
  unfold after number
  cases scanned : Decimal.scan text with
  | none => simp [Token.Heads, scanned]
  | some result =>
      obtain ⟨decimal, behind⟩ := result
      by_cases finite : decimal.toFloat.isFinite = true
      · have finiteValue : Arith.isFinite (Arith.ofDecimal decimal : Float) = true := finite
        simp [Token.Heads, scanned, finite, finiteValue]
      · have notFinite : ¬ Arith.isFinite (Arith.ofDecimal decimal : Float) = true := finite
        simp [Token.Heads, scanned, finite, notFinite]

theorem recognizes_literal : Recognizes (after (literal : Reader (Literal Float))) literalTokens := by
  have either : after (literal : Reader (Literal Float)) = fun text =>
      (after quotedText text).or (after (number : Reader Float) text) := by
    funext text
    unfold after literal
    cases quotedText text with
    | none => simp [Function.comp_def]
    | some result => rfl
  rw [either]
  exact recognizes_quoted.or recognizes_number

end FuzzyRating.Crisp
