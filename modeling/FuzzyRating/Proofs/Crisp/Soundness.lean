import FuzzyRating.Proofs.Crisp.Grammar

/-!
What is read as an expression is made of tokens that the lenient grammar derives.
-/

namespace FuzzyRating.Crisp

open FuzzyRating.Text

/-- Whatever is taken off a text is made of tokens in the language. -/
def Covers (language : List Token → Prop) (skip : List Char → Option (List Char)) : Prop :=
  ∀ text rest, skip text = some rest → ∃ tokens, language tokens ∧ Spells tokens text rest

/-- One token of the list. -/
def OneOf (choices : List Token) (tokens : List Token) : Prop :=
  ∃ token ∈ choices, tokens = [token]

/-! ## Combined readers -/

section

variable {alpha : Type} {read other : Reader alpha} {sign skip : List Char → Option (List Char)}
  {language part joined : List Token → Prop} {choices tokens : List Token}
  {text behind rest : List Char}

theorem after_or : after (fun text => (read text).or (other text)) text =
    (after read text).or (after other text) := by
  unfold after
  dsimp only
  cases read text <;> rfl

theorem after_following :
    after (following sign read) text = (sign (skipBlanks text)).bind (after read) := by
  unfold after following
  cases sign (skipBlanks text) <;> rfl

theorem after_parenthesized :
    after (parenthesized read) text = (afterSymbol ['('] text).bind fun inside =>
      (after read (skipBlanks inside)).bind fun left => afterSymbol [')'] (skipBlanks left) := by
  unfold after parenthesized
  simp [Option.map_eq_bind, Option.bind_assoc]

theorem rest_of_many_nil (read : Reader alpha) (text : List Char)
    (none : (many read text).1 = []) : (many read text).2 = text := by
  unfold many at none ⊢
  cases text with
  | nil => rfl
  | cons c text =>
      rw [List.length_cons, manyWithin] at none ⊢
      cases readEq : read (c :: text) with
      | none => rfl
      | some result => simp [readEq] at none

theorem after_chain {num : Type} {read : Reader (Expr num)} {build : List (Expr num) → Expr num} :
    after (chain sign build read) text =
      (after read text).map fun rest => (many (following sign read) rest).2 := by
  unfold after chain
  cases read text with
  | none => rfl
  | some result =>
      obtain ⟨first, left⟩ := result
      cases manyEq : many (following sign read) left with
      | mk others rest =>
          cases others with
          | nil =>
              have noOthers := rest_of_many_nil (following sign read) left
              simp only [manyEq, forall_const] at noOthers
              simp [manyEq, noOthers]
          | cons second others => simp [manyEq]

theorem Recognizes.covers (recognizes : Recognizes skip choices) : Covers (OneOf choices) skip := by
  intro text rest taken
  obtain ⟨token, isChoice, heads⟩ := (recognizes text rest).mp taken
  refine ⟨[token], ⟨token, isChoice, rfl⟩, spells_singleton ?_⟩
  rwa [heads.skipBlanks_eq]

theorem Recognizes.spells {token : Token} (recognizes : Recognizes skip [token])
    (taken : skip text = some rest) : Spells [token] text rest := by
  obtain ⟨_, ⟨_, isToken, rfl⟩, spells⟩ := recognizes.covers text rest taken
  rwa [List.mem_singleton.mp isToken] at spells

theorem Covers.skipBlanks (covers : Covers language skip)
    (nonempty : ∀ tokens, language tokens → tokens ≠ []) :
    Covers language fun text => skip (skipBlanks text) := by
  intro text rest taken
  obtain ⟨tokens, inLanguage, spells⟩ := covers _ rest taken
  exact ⟨tokens, inLanguage, (spells_skipBlanks (nonempty tokens inLanguage)).mp spells⟩

/-- Parts read one after the other, with a sign in front of each, join those in front of them. -/
theorem covers_many (covers : Covers part (after read)) (recognizes : Recognizes sign choices)
    (one : ∀ tokens, part tokens → joined tokens)
    (more : ∀ tokens token others, part tokens → token ∈ choices → joined others →
      joined (tokens ++ token :: others)) :
    ∀ (tokens : List Token) (text behind : List Char), part tokens → Spells tokens text behind →
      ∃ all, joined all ∧ Spells all text (many (following sign read) behind).2 := by
  suffices within : ∀ limit tokens text behind, part tokens → Spells tokens text behind →
      ∃ all, joined all ∧ Spells all text (manyWithin (following sign read) limit behind).2 from
    fun tokens text behind => within behind.length tokens text behind
  intro limit
  induction limit with
  | zero =>
      intro tokens text behind isPart spells
      exact ⟨tokens, one tokens isPart, spells⟩
  | succ limit inductionHypothesis =>
      intro tokens text behind isPart spells
      cases readEq : following sign read behind with
      | none =>
          refine ⟨tokens, one tokens isPart, ?_⟩
          simpa [manyWithin, readEq] using spells
      | some result =>
          obtain ⟨value, rest⟩ := result
          have taken : after (following sign read) behind = some rest := by simp [after, readEq]
          rw [after_following] at taken
          obtain ⟨left, signEq, partEq⟩ := Option.bind_eq_some_iff.mp taken
          obtain ⟨token, isChoice, heads⟩ := (recognizes _ left).mp signEq
          obtain ⟨next, nextIsPart, nextSpells⟩ := covers left rest partEq
          obtain ⟨others, isJoined, othersSpell⟩ :=
            inductionHypothesis next left rest nextIsPart nextSpells
          refine ⟨tokens ++ token :: others, more tokens token others isPart isChoice isJoined, ?_⟩
          rw [spells_append]
          refine ⟨behind, spells, left, heads, ?_⟩
          simpa [manyWithin, readEq] using othersSpell

theorem covers_chain {num : Type} {read : Reader (Expr num)}
    (build : List (Expr num) → Expr num) (covers : Covers part (after read))
    (recognizes : Recognizes sign choices) (one : ∀ tokens, part tokens → joined tokens)
    (more : ∀ tokens token others, part tokens → token ∈ choices → joined others →
      joined (tokens ++ token :: others)) :
    Covers joined (after (chain sign build read)) := by
  intro text rest taken
  rw [after_chain] at taken
  obtain ⟨behind, readEq, restEq⟩ := Option.map_eq_some_iff.mp taken
  obtain ⟨tokens, isPart, spells⟩ := covers text behind readEq
  rw [← restEq]
  exact covers_many covers recognizes one more tokens text behind isPart spells

theorem recognizes_open : Recognizes (afterSymbol ['(']) [.symbol ['(']] :=
  recognizes_symbol (by decide) (by decide)

theorem recognizes_close : Recognizes (afterSymbol [')']) [.symbol [')']] :=
  recognizes_symbol (by decide) (by decide)

theorem recognizes_comma : Recognizes (afterSymbol [',']) [.symbol [',']] :=
  recognizes_symbol (by decide) (by decide)

theorem covers_parenthesized (covers : Covers part (after read))
    (nonempty : ∀ tokens, part tokens → tokens ≠ []) :
    Covers (fun all => ∃ tokens, part tokens ∧
      all = .symbol ['('] :: (tokens ++ [.symbol [')']])) (after (parenthesized read)) := by
  intro text rest taken
  rw [after_parenthesized] at taken
  obtain ⟨inside, opened, within⟩ := Option.bind_eq_some_iff.mp taken
  obtain ⟨left, readEq, closed⟩ := Option.bind_eq_some_iff.mp within
  have openSpells : Spells [.symbol ['(']] text inside := recognizes_open.spells opened
  have closeSpells : Spells [.symbol [')']] left rest :=
    (spells_skipBlanks (List.cons_ne_nil _ _)).mp (recognizes_close.spells closed)
  obtain ⟨tokens, isPart, spells⟩ := (covers.skipBlanks nonempty) inside left readEq
  refine ⟨_, ⟨tokens, isPart, rfl⟩, ?_⟩
  rw [← List.singleton_append, spells_append]
  exact ⟨inside, openSpells, spells_append.mpr ⟨left, spells, closeSpells⟩⟩

end

/-! ## Comparisons -/

/-- What follows a token that may be absent, and the blanks behind it. -/
def skipOptional (skip : List Char → Option (List Char)) (text : List Char) : List Char :=
  match skip text with
  | some rest => skipBlanks rest
  | none => text

section

variable {skip : List Char → Option (List Char)} {choices : List Token} {text rest : List Char}

theorem spells_skipOptional (recognizes : Recognizes skip choices) (text : List Char) :
    ∃ front, Optional choices front ∧ ∀ tokens rest, tokens ≠ [] →
      Spells tokens (skipOptional skip text) rest → Spells (front ++ tokens) text rest := by
  unfold skipOptional
  split
  · next behind taken =>
      obtain ⟨_, ⟨token, isChoice, rfl⟩, spells⟩ := recognizes.covers text behind taken
      refine ⟨[token], .present isChoice, fun tokens rest nonempty later => ?_⟩
      exact spells_append.mpr ⟨behind, spells, (spells_skipBlanks nonempty).mp later⟩
  · exact ⟨[], .absent, fun _ _ _ later => later⟩

theorem following_afterComma {alpha : Type} (read : Reader alpha) :
    following afterComma read = following (afterSymbol [',']) fun text => read (skipBlanks text) := by
  funext text
  unfold following afterComma
  cases afterSymbol [','] (skipBlanks text) <;> rfl

theorem after_literals :
    after (literals : Reader (List (Literal Float))) text =
      (after (literal : Reader (Literal Float)) text).map fun rest =>
        (many (following (afterSymbol [','])
          fun text => (literal (skipBlanks text) : Option (Literal Float × List Char))) rest).2 := by
  unfold after literals
  rw [following_afterComma]
  cases (literal text : Option (Literal Float × List Char)) <;> rfl

theorem covers_literals : Covers LiteralList (after (literals : Reader (List (Literal Float)))) := by
  intro text rest taken
  rw [after_literals] at taken
  obtain ⟨behind, literalEq, restEq⟩ := Option.map_eq_some_iff.mp taken
  have one : ∀ tokens, OneOf literalTokens tokens → LiteralList tokens := by
    rintro _ ⟨literal, isLiteral, rfl⟩
    exact .single isLiteral
  have more : ∀ tokens token others, OneOf literalTokens tokens → token ∈ [.symbol [',']] →
      LiteralList others → LiteralList (tokens ++ token :: others) := by
    rintro _ token others ⟨literal, isLiteral, rfl⟩ isComma areLiterals
    rw [List.mem_singleton.mp isComma]
    exact .cons isLiteral areLiterals
  have nonempty : ∀ tokens, OneOf literalTokens tokens → tokens ≠ [] := by
    rintro _ ⟨literal, _, rfl⟩
    exact List.cons_ne_nil _ _
  obtain ⟨tokens, isLiteral, spells⟩ := recognizes_literal.covers text behind literalEq
  rw [← restEq]
  exact covers_many (recognizes_literal.covers.skipBlanks nonempty) recognizes_comma one more
    tokens text behind isLiteral spells

theorem after_membership :
    after (membership : Reader (Expr Float)) text =
      (afterWord "in" (skipOptional (afterWord "not") text)).bind fun behind =>
        after (parenthesized (literals : Reader (List (Literal Float)))) (skipBlanks behind) := by
  unfold after membership skipOptional
  cases afterWord "not" text <;> simp [Option.map_eq_bind, Option.bind_assoc]

theorem after_relational :
    after (relational : Reader (Expr Float)) text =
      (after relation text).bind fun behind =>
        after (literal : Reader (Literal Float)) (skipBlanks behind) := by
  unfold after relational
  simp [Option.map_eq_bind, Option.bind_assoc]

theorem after_bareLiterals :
    after (bareLiterals : Reader (Expr Float)) text =
      after (literals : Reader (List (Literal Float))) text := by
  unfold after bareLiterals
  cases (literals text : Option (List (Literal Float) × List Char)) <;> rfl

theorem after_comparison :
    after (comparison : Reader (Expr Float)) text =
      (after (membership : Reader (Expr Float)) (skipSubject text)).or
        ((after (relational : Reader (Expr Float)) (skipSubject text)).or
          (after (literals : Reader (List (Literal Float))) (skipSubject text))) := by
  rw [← after_bareLiterals, ← after_or]
  exact after_or

theorem covers_membership {subject : List Token} (isSubject : Optional subjectTokens subject)
    (taken : after (membership : Reader (Expr Float)) text = some rest) :
    ∃ tokens, tokens ≠ [] ∧ Spells tokens text rest ∧
      Comparison .lenient (subject ++ tokens) := by
  rw [after_membership] at taken
  obtain ⟨behind, isIn, grouped⟩ := Option.bind_eq_some_iff.mp taken
  have notRecognized := recognizes_word "not" (by decide)
  have inRecognized := recognizes_word "in" (by decide)
  obtain ⟨negation, isNegation, negated⟩ := spells_skipOptional notRecognized text
  obtain ⟨_, ⟨literals, areLiterals, rfl⟩, spells⟩ :=
    (covers_parenthesized covers_literals fun _ => LiteralList.ne_nil).skipBlanks
      (by rintro _ ⟨_, _, rfl⟩; simp) behind rest grouped
  have inSpells := spells_append.mpr ⟨behind, inRecognized.spells isIn, spells⟩
  exact ⟨_, by simp, negated _ rest (List.cons_ne_nil _ _) inSpells,
    .membership isSubject isNegation areLiterals⟩

theorem covers_relational {subject : List Token} (isSubject : Optional subjectTokens subject)
    (taken : after (relational : Reader (Expr Float)) text = some rest) :
    ∃ tokens, tokens ≠ [] ∧ Spells tokens text rest ∧
      Comparison .lenient (subject ++ tokens) := by
  rw [after_relational] at taken
  obtain ⟨behind, relationEq, literalEq⟩ := Option.bind_eq_some_iff.mp taken
  obtain ⟨_, ⟨relation, isRelation, rfl⟩, relationSpells⟩ :=
    recognizes_relation.covers text behind relationEq
  obtain ⟨_, ⟨literal, isLiteral, rfl⟩, literalSpells⟩ :=
    recognizes_literal.covers.skipBlanks (by rintro _ ⟨_, _, rfl⟩; simp) behind rest literalEq
  exact ⟨_, by simp, spells_append.mpr ⟨behind, relationSpells, literalSpells⟩,
    .relational isSubject isRelation isLiteral⟩

theorem covers_comparison :
    Covers (Comparison .lenient) (after (comparison : Reader (Expr Float))) := by
  intro text rest taken
  obtain ⟨subject, isSubject, behindSubject⟩ := spells_skipOptional recognizes_subject text
  have skipped : skipOptional (fun text => (afterWord "value" text).or (afterWord "x" text)) text =
      skipSubject text := rfl
  rw [skipped] at behindSubject
  rw [after_comparison] at taken
  suffices compared : ∃ tokens, tokens ≠ [] ∧ Spells tokens (skipSubject text) rest ∧
      Comparison .lenient (subject ++ tokens) by
    obtain ⟨tokens, nonempty, spells, isComparison⟩ := compared
    exact ⟨_, isComparison, behindSubject tokens rest nonempty spells⟩
  rcases Option.or_eq_some_iff.mp taken with isMembership | ⟨_, notMembership⟩
  · exact covers_membership isSubject isMembership
  · rcases Option.or_eq_some_iff.mp notMembership with isRelational | ⟨_, isListed⟩
    · exact covers_relational isSubject isRelational
    · obtain ⟨tokens, areLiterals, spells⟩ := covers_literals _ rest isListed
      refine ⟨tokens, areLiterals.ne_nil, spells, ?_⟩
      cases isSubject with
      | absent => exact .bare areLiterals
      | present isSubject => exact .idle rfl isSubject areLiterals

/-! ## Expressions -/

theorem covers_conjunction {read : Reader (Expr Float)}
    (covers : Covers (Derives .lenient .operand) (after read)) :
    Covers (Derives .lenient .conjunction) (after (conjunction read)) :=
  covers_chain .and covers recognizes_and (fun _ => .oneOperand) fun _ _ _ => .and

theorem covers_disjunction {read : Reader (Expr Float)}
    (covers : Covers (Derives .lenient .operand) (after read)) :
    Covers (Derives .lenient .disjunction) (after (disjunction read)) :=
  covers_chain .or (covers_conjunction covers) recognizes_or (fun _ => .oneConjunction)
    fun _ _ _ => .or

theorem after_operand (depth : Nat) :
    after (operand (depth + 1) : Reader (Expr Float)) text =
      (after (parenthesized (disjunction (operand depth : Reader (Expr Float)))) (skipBlanks text)).or
        ((after (comparison : Reader (Expr Float)) (skipBlanks text)).or
          ((afterNot (skipBlanks text)).bind (after (operand depth : Reader (Expr Float))))) := by
  have negation : after (fun text => do
      let (inner, rest) ← operand depth (← afterNot text)
      return ((.not inner : Expr Float), rest)) (skipBlanks text) =
        (afterNot (skipBlanks text)).bind (after (operand depth : Reader (Expr Float))) := by
    unfold after
    simp [Option.map_eq_bind, Option.bind_assoc]
  rw [← negation, ← after_or, ← after_or]
  rfl

theorem covers_operand (depth : Nat) :
    Covers (Derives .lenient .operand) (after (operand depth : Reader (Expr Float))) := by
  induction depth with
  | zero =>
      intro text rest impossible
      cases impossible
  | succ depth inductionHypothesis =>
      suffices skipped : Covers (Derives .lenient .operand) fun text =>
          (after (parenthesized (disjunction (operand depth : Reader (Expr Float)))) text).or
            ((after (comparison : Reader (Expr Float)) text).or
              ((afterNot text).bind (after (operand depth : Reader (Expr Float))))) by
        intro text rest taken
        rw [after_operand] at taken
        exact skipped.skipBlanks (fun _ => Derives.ne_nil) text rest taken
      intro text rest taken
      rcases Option.or_eq_some_iff.mp taken with isGroup | ⟨_, notGroup⟩
      · obtain ⟨_, ⟨tokens, derives, rfl⟩, spells⟩ :=
          covers_parenthesized (covers_disjunction inductionHypothesis) (fun _ => Derives.ne_nil)
            text rest isGroup
        exact ⟨_, .group derives, spells⟩
      · rcases Option.or_eq_some_iff.mp notGroup with isComparison | ⟨_, isNegation⟩
        · obtain ⟨tokens, compared, spells⟩ := covers_comparison text rest isComparison
          exact ⟨tokens, .comparison compared, spells⟩
        · obtain ⟨behind, notEq, operandEq⟩ := Option.bind_eq_some_iff.mp isNegation
          obtain ⟨_, ⟨sign, isNot, rfl⟩, notSpells⟩ := recognizes_not.covers text behind notEq
          obtain ⟨tokens, derives, spells⟩ := inductionHypothesis behind rest operandEq
          exact ⟨_, .not isNot derives, spells_append.mpr ⟨behind, notSpells, spells⟩⟩

end

end FuzzyRating.Crisp
