import FuzzyRating.Proofs.Crisp.Literals
import FuzzyRating.Proofs.Crisp.Soundness

/-!
What the lenient grammar derives is read as an expression, if what follows does not go on with it.
-/

namespace FuzzyRating.Crisp

open FuzzyRating.Text

/-! ## What follows a phrase -/

/-- The tokens with which reading a phrase would go on. -/
def Phrase.joiners : Phrase → List Token
  | operand => [.symbol [',']]
  | conjunction => .symbol [','] :: andTokens
  | disjunction => .symbol [','] :: (andTokens ++ orTokens)

/-- What follows does not go on with a phrase. -/
def Follows (phrase : Phrase) (rest : List Char) : Prop :=
  ∀ token ∈ phrase.joiners, ∀ behind, ¬ token.Heads (skipBlanks rest) behind

section

variable {phrase : Phrase} {token : Token} {choices : List Token}
  {skip : List Char → Option (List Char)} {rest behind : List Char}

theorem follows_of_heads (heads : token.Heads (skipBlanks rest) behind)
    (absent : token ∉ phrase.joiners) : Follows phrase rest := by
  intro joiner isJoiner otherBehind joinerHeads
  obtain ⟨rfl, _⟩ := heads.unique joinerHeads
  exact absent isJoiner

theorem follows_of_blank (blank : skipBlanks rest = []) : Follows phrase rest := by
  intro joiner _ behind heads
  rw [blank] at heads
  exact not_heads_nil heads

theorem Follows.mono {other : Phrase} (follows : Follows phrase rest)
    (fewer : ∀ token ∈ other.joiners, token ∈ phrase.joiners) : Follows other rest :=
  fun token isJoiner => follows token (fewer token isJoiner)

theorem Follows.eq_none (follows : Follows phrase rest) (recognizes : Recognizes skip choices)
    (joins : ∀ token ∈ choices, token ∈ phrase.joiners) : skip (skipBlanks rest) = none := by
  cases taken : skip (skipBlanks rest) with
  | none => rfl
  | some behind =>
      obtain ⟨token, isChoice, heads⟩ := (recognizes _ behind).mp taken
      exact absurd heads (follows token (joins token isChoice) behind)

end

/-! ## Repetition -/

section

variable {alpha : Type} {read : Reader alpha} {sign : List Char → Option (List Char)}
  {text behind left rest : List Char}

/-- Every value takes at least one character. -/
def Shrinks (read : Reader alpha) : Prop :=
  ∀ text rest, after read text = some rest → rest.length < text.length

theorem manyWithin_eq (shrinks : Shrinks read) {limit other : Nat} (room : text.length ≤ limit)
    (otherRoom : text.length ≤ other) :
    manyWithin read limit text = manyWithin read other text := by
  have nothing : read [] = none := by
    cases readEq : read [] with
    | none => rfl
    | some result =>
        have := shrinks [] result.2 (by simp [after, readEq])
        simp at this
  induction limit generalizing other text with
  | zero =>
      obtain rfl := List.length_eq_zero_iff.mp (Nat.le_zero.mp room)
      cases other <;> simp [manyWithin, nothing]
  | succ limit inductionHypothesis =>
      cases other with
      | zero =>
          obtain rfl := List.length_eq_zero_iff.mp (Nat.le_zero.mp otherRoom)
          simp [manyWithin, nothing]
      | succ other =>
          rw [manyWithin, manyWithin]
          cases readEq : read text with
          | none => rfl
          | some result =>
              have shorter := shrinks text result.2 (by simp [after, readEq])
              have later : manyWithin read limit result.2 = manyWithin read other result.2 :=
                inductionHypothesis (by omega) (by omega)
              simp only [later]

theorem many_of_after (shrinks : Shrinks read) (taken : after read text = some behind) :
    (many read text).2 = (many read behind).2 := by
  have shorter := shrinks text behind taken
  obtain ⟨⟨value, left⟩, readEq, restEq⟩ := Option.map_eq_some_iff.mp taken
  cases restEq
  have oneMore : many read text = manyWithin read (text.length + 1) text :=
    manyWithin_eq shrinks (Nat.le_refl _) (Nat.le_succ _)
  have within : manyWithin read text.length left = many read left :=
    manyWithin_eq shrinks (Nat.le_of_lt shorter) (Nat.le_refl _)
  rw [oneMore, manyWithin, readEq]
  simp only [within]

theorem many_following_of_none (ends : sign (skipBlanks text) = none) :
    (many (following sign read) text).2 = text := by
  have none : following sign read text = none := by simp [following, ends]
  rw [many_of_none none]

theorem shrinks_following {choices : List Token} {part : List Token → Prop}
    (recognizes : Recognizes sign choices) (covers : Covers part (after read)) :
    Shrinks (following sign read) := by
  intro text rest taken
  rw [after_following] at taken
  obtain ⟨behind, signEq, readEq⟩ := Option.bind_eq_some_iff.mp taken
  obtain ⟨token, _, heads⟩ := (recognizes _ behind).mp signEq
  obtain ⟨tokens, _, spells⟩ := covers behind rest readEq
  have := heads.length_lt
  have := length_skipBlanks_le text
  have := spells.length_le
  omega

end

section

variable {num : Type} {read : Reader (Expr num)} {sign : List Char → Option (List Char)}
  {build : List (Expr num) → Expr num} {text left behind rest : List Char}

theorem after_chain_last (readEq : after read text = some rest)
    (ends : sign (skipBlanks rest) = none) : after (chain sign build read) text = some rest := by
  rw [after_chain, readEq, Option.map_some, many_following_of_none ends]

theorem after_chain_more (shrinks : Shrinks (following sign read))
    (readEq : after read text = some left) (signEq : sign (skipBlanks left) = some behind)
    (later : after (chain sign build read) behind = some rest) :
    after (chain sign build read) text = some rest := by
  rw [after_chain] at later ⊢
  obtain ⟨next, nextEq, restEq⟩ := Option.map_eq_some_iff.mp later
  have step : after (following sign read) left = some next := by
    rw [after_following, signEq]
    exact nextEq
  rw [readEq, Option.map_some, many_of_after shrinks step, restEq]

end

/-! ## Comparisons -/

section

variable {text behind left rest : List Char} {subject negation literals tokens : List Token}

theorem after_literals_of_spells (areLiterals : LiteralList literals)
    (spells : Spells literals text rest) (follows : Follows .operand rest) :
    after (Crisp.literals : Reader (List (Literal Float))) (skipBlanks text) = some rest := by
  have nonempty : ∀ tokens, OneOf literalTokens tokens → tokens ≠ [] := by
    rintro _ ⟨literal, _, rfl⟩
    exact List.cons_ne_nil _ _
  have shrinks : Shrinks (following (afterSymbol [',']) fun text =>
      (literal (skipBlanks text) : Option (Literal Float × List Char))) :=
    shrinks_following recognizes_comma (recognizes_literal.covers.skipBlanks nonempty)
  induction areLiterals generalizing text with
  | single isLiteral =>
      obtain ⟨_, heads, rfl⟩ := spells
      have ends := follows.eq_none recognizes_comma fun _ member => member
      rw [after_literals, recognizes_literal.eq_some isLiteral heads, Option.map_some,
        many_following_of_none ends]
  | cons isLiteral later inductionHypothesis =>
      obtain ⟨left, heads, behind, commaHeads, laterSpells⟩ := spells
      have rest := inductionHypothesis laterSpells
      rw [after_literals] at rest ⊢
      obtain ⟨next, nextEq, restEq⟩ := Option.map_eq_some_iff.mp rest
      have step : after (following (afterSymbol [',']) fun text =>
          (literal (skipBlanks text) : Option (Literal Float × List Char))) left = some next := by
        rw [after_following, recognizes_comma.eq_some (List.mem_singleton_self _) commaHeads]
        exact nextEq
      rw [recognizes_literal.eq_some isLiteral heads, Option.map_some, many_of_after shrinks step,
        restEq]

theorem skipOptional_of_spells {skip : List Char → Option (List Char)} {choices front : List Token}
    {next : Token} (recognizes : Recognizes skip choices) (isFront : Optional choices front)
    (spells : Spells front text left) (heads : next.Heads (skipBlanks left) behind)
    (absent : next ∉ choices) : skipOptional skip (skipBlanks text) = skipBlanks left := by
  unfold skipOptional
  cases isFront with
  | absent =>
      cases spells
      rw [recognizes.eq_none absent heads]
  | present isChoice =>
      obtain ⟨_, frontHeads, rfl⟩ := spells
      rw [recognizes.eq_some isChoice frontHeads]

theorem after_parenthesized_of_spells {alpha : Type} {read : Reader alpha}
    (spells : Spells (.symbol ['('] :: (tokens ++ [.symbol [')']])) text rest)
    (reads : ∀ inside left, Spells tokens inside left → Follows .disjunction left →
      after read (skipBlanks inside) = some left) :
    after (parenthesized read) (skipBlanks text) = some rest := by
  obtain ⟨inside, openHeads, inner⟩ := spells
  obtain ⟨left, tokensSpell, _, closeHeads, rfl⟩ := spells_append.mp inner
  have follows : Follows .disjunction left := follows_of_heads closeHeads (by decide)
  rw [after_parenthesized, recognizes_open.eq_some (List.mem_singleton_self _) openHeads,
    Option.bind_some, reads inside left tokensSpell follows, Option.bind_some,
    recognizes_close.eq_some (List.mem_singleton_self _) closeHeads]

theorem follows_operand_of_disjunction (follows : Follows .disjunction rest) :
    Follows .operand rest :=
  follows.mono (by decide)

theorem after_membership_of_spells (isNegation : Optional [.word "not"] negation)
    (areLiterals : LiteralList literals)
    (spells : Spells (negation ++
      .word "in" :: .symbol ['('] :: (literals ++ [.symbol [')']])) text rest) :
    after (membership : Reader (Expr Float)) (skipBlanks text) = some rest := by
  obtain ⟨left, negationSpells, behind, inHeads, grouped⟩ := spells_append.mp spells
  have skipped := skipOptional_of_spells (recognizes_word _ (by decide)) isNegation negationSpells
    inHeads (by decide)
  rw [after_membership, skipped, (recognizes_word "in" (by decide)).eq_some
    (List.mem_singleton_self _) inHeads, Option.bind_some]
  exact after_parenthesized_of_spells grouped fun inside left inner follows =>
    after_literals_of_spells areLiterals inner (follows_operand_of_disjunction follows)

/-- What a membership may begin with. -/
theorem after_membership_eq_none {token : Token} (heads : token.Heads text behind)
    (notNot : token ≠ .word "not") (notIn : token ≠ .word "in") :
    after (membership : Reader (Expr Float)) text = none := by
  have skipped : skipOptional (afterWord "not") text = text := by
    unfold skipOptional
    rw [(recognizes_word "not" (by decide)).eq_none (by simpa using notNot) heads]
  rw [after_membership, skipped,
    (recognizes_word "in" (by decide)).eq_none (by simpa using notIn) heads]
  rfl

theorem after_relational_eq_none {token : Token} (heads : token.Heads text behind)
    (notRelation : token ∉ relationTokens) :
    after (relational : Reader (Expr Float)) text = none := by
  rw [after_relational, recognizes_relation.eq_none notRelation heads]
  rfl

theorem skipSubject_of_spells {next : Token} (isSubject : Optional subjectTokens subject)
    (spells : Spells subject text left) (heads : next.Heads (skipBlanks left) behind)
    (absent : next ∉ subjectTokens) : skipSubject (skipBlanks text) = skipBlanks left :=
  skipOptional_of_spells recognizes_subject isSubject spells heads absent

theorem after_comparison_relational {relation literal : Token}
    (isSubject : Optional subjectTokens subject) (isRelation : relation ∈ relationTokens)
    (isLiteral : literal ∈ literalTokens)
    (spells : Spells (subject ++ [relation, literal]) text rest) :
    after (comparison : Reader (Expr Float)) (skipBlanks text) = some rest := by
  obtain ⟨left, subjectSpells, behind, heads, _, literalHeads, rfl⟩ := spells_append.mp spells
  have outside : ∀ relation ∈ relationTokens, relation ∉ subjectTokens ∧
      relation ≠ .word "not" ∧ relation ≠ .word "in" := by decide
  obtain ⟨notSubject, notNot, notIn⟩ := outside relation isRelation
  rw [after_comparison, skipSubject_of_spells isSubject subjectSpells heads notSubject,
    after_membership_eq_none heads notNot notIn, after_relational,
    recognizes_relation.eq_some isRelation heads, Option.bind_some,
    recognizes_literal.eq_some isLiteral literalHeads, Option.none_or, Option.some_or]

theorem after_comparison_membership (isSubject : Optional subjectTokens subject)
    (isNegation : Optional [.word "not"] negation) (areLiterals : LiteralList literals)
    (spells : Spells (subject ++ (negation ++
      .word "in" :: .symbol ['('] :: (literals ++ [.symbol [')']]))) text rest) :
    after (comparison : Reader (Expr Float)) (skipBlanks text) = some rest := by
  obtain ⟨left, subjectSpells, memberSpells⟩ := spells_append.mp spells
  have skipped : skipSubject (skipBlanks text) = skipBlanks left := by
    cases isNegation with
    | absent =>
        obtain ⟨behind, heads, _⟩ := memberSpells
        exact skipSubject_of_spells isSubject subjectSpells heads (by decide)
    | present isNot =>
        obtain ⟨behind, heads, _⟩ := memberSpells
        rw [List.mem_singleton.mp isNot] at heads
        exact skipSubject_of_spells isSubject subjectSpells heads (by decide)
  rw [after_comparison, skipped, after_membership_of_spells isNegation areLiterals memberSpells,
    Option.some_or]

theorem after_comparison_literals (isSubject : Optional subjectTokens subject)
    (areLiterals : LiteralList literals) (spells : Spells (subject ++ literals) text rest)
    (follows : Follows .operand rest) :
    after (comparison : Reader (Expr Float)) (skipBlanks text) = some rest := by
  obtain ⟨left, subjectSpells, literalsSpell⟩ := spells_append.mp spells
  have reads := after_literals_of_spells areLiterals literalsSpell follows
  have outside : ∀ literal ∈ literalTokens, literal ∉ subjectTokens ∧
      literal ≠ .word "not" ∧ literal ≠ .word "in" ∧ literal ∉ relationTokens := by decide
  obtain ⟨literal, others, rfl, isLiteral⟩ := areLiterals.exists_cons
  obtain ⟨notSubject, notNot, notIn, notRelation⟩ := outside literal isLiteral
  obtain ⟨behind, heads, _⟩ := literalsSpell
  rw [after_comparison, skipSubject_of_spells isSubject subjectSpells heads notSubject,
    after_membership_eq_none heads notNot notIn, after_relational_eq_none heads notRelation, reads,
    Option.none_or, Option.none_or]

theorem after_comparison_of_spells (isComparison : Comparison .lenient tokens)
    (spells : Spells tokens text rest) (follows : Follows .operand rest) :
    after (comparison : Reader (Expr Float)) (skipBlanks text) = some rest := by
  cases isComparison with
  | relational isSubject isRelation isLiteral =>
      exact after_comparison_relational isSubject isRelation isLiteral spells
  | membership isSubject isNegation areLiterals =>
      exact after_comparison_membership isSubject isNegation areLiterals spells
  | bare areLiterals => exact after_comparison_literals .absent areLiterals spells follows
  | idle _ isSubject areLiterals =>
      exact after_comparison_literals (.present isSubject) areLiterals spells follows

/-! ## Operands -/

theorem Comparison.exists_cons {manner : Manner} (isComparison : Comparison manner tokens) :
    ∃ token others, tokens = token :: others ∧ token ≠ .symbol ['('] := by
  have subjects : ∀ subject ∈ subjectTokens, subject ≠ .symbol ['('] := by decide
  have relations : ∀ relation ∈ relationTokens, relation ≠ .symbol ['('] := by decide
  have literals : ∀ literal ∈ literalTokens, literal ≠ .symbol ['('] := by decide
  cases isComparison with
  | relational isSubject isRelation _ =>
      cases isSubject with
      | absent => exact ⟨_, _, rfl, relations _ isRelation⟩
      | present isSubject => exact ⟨_, _, rfl, subjects _ isSubject⟩
  | membership isSubject isNegation _ =>
      cases isSubject with
      | present isSubject => exact ⟨_, _, rfl, subjects _ isSubject⟩
      | absent =>
          cases isNegation with
          | absent => exact ⟨_, _, rfl, by decide⟩
          | present isNot =>
              rw [List.mem_singleton.mp isNot]
              exact ⟨_, _, rfl, by decide⟩
  | bare areLiterals =>
      obtain ⟨literal, others, rfl, isLiteral⟩ := areLiterals.exists_cons
      exact ⟨literal, others, rfl, literals literal isLiteral⟩
  | idle _ isSubject _ => exact ⟨_, _, rfl, subjects _ isSubject⟩

/-- A comparison that a negation starts is a negated membership. -/
theorem Comparison.of_not {manner : Manner} {sign : Token} {others : List Token}
    (isComparison : Comparison manner (sign :: others)) (isNot : sign ∈ notTokens) :
    ∃ literals, LiteralList literals ∧
      others = .word "in" :: .symbol ['('] :: (literals ++ [.symbol [')']]) := by
  have outside : ∀ sign ∈ notTokens, sign ∉ subjectTokens ∧ sign ∉ relationTokens ∧
      sign ∉ literalTokens ∧ sign ≠ .word "in" := by decide
  obtain ⟨notSubject, notRelation, notLiteral, notIn⟩ := outside sign isNot
  generalize tokensEq : sign :: others = tokens at isComparison
  cases isComparison with
  | relational isSubject isRelation _ =>
      cases isSubject with
      | absent =>
          cases tokensEq
          exact absurd isRelation notRelation
      | present isSubject =>
          cases tokensEq
          exact absurd isSubject notSubject
  | membership isSubject isNegation areLiterals =>
      cases isSubject with
      | present isSubject =>
          cases tokensEq
          exact absurd isSubject notSubject
      | absent =>
          cases isNegation with
          | absent =>
              cases tokensEq
              exact absurd rfl notIn
          | present _ =>
              cases tokensEq
              exact ⟨_, areLiterals, rfl⟩
  | bare areLiterals =>
      obtain ⟨literal, _, rfl, isLiteral⟩ := areLiterals.exists_cons
      cases tokensEq
      exact absurd isLiteral notLiteral
  | idle _ isSubject _ =>
      cases tokensEq
      exact absurd isSubject notSubject

theorem after_group_eq_none {token : Token} {alpha : Type} {read : Reader alpha}
    (heads : token.Heads text behind) (notOpen : token ≠ .symbol ['(']) :
    after (parenthesized read) text = none := by
  rw [after_parenthesized, recognizes_open.eq_none (by simpa using notOpen) heads]
  rfl

theorem after_operand_of_comparison {token : Token} {depth : Nat} (positive : 0 < depth)
    (heads : token.Heads (skipBlanks text) behind) (notOpen : token ≠ .symbol ['('])
    (compared : after (comparison : Reader (Expr Float)) (skipBlanks text) = some rest) :
    after (operand depth : Reader (Expr Float)) text = some rest := by
  obtain ⟨depth, rfl⟩ := Nat.exists_eq_add_one.mpr positive
  rw [after_operand, after_group_eq_none heads notOpen, compared, Option.none_or, Option.some_or]

theorem after_operand_not {sign : Token} {depth : Nat} (positive : 0 < depth)
    (isNot : sign ∈ notTokens) (heads : sign.Heads (skipBlanks text) behind)
    (inner : after (operand depth : Reader (Expr Float)) behind = some rest) :
    after (operand (depth + 1) : Reader (Expr Float)) text = some rest := by
  have notOpen : ∀ sign ∈ notTokens, sign ≠ .symbol ['('] := by decide
  rw [after_operand, after_group_eq_none heads (notOpen sign isNot), Option.none_or]
  cases compared : after (comparison : Reader (Expr Float)) (skipBlanks text) with
  | none => rw [Option.none_or, recognizes_not.eq_some isNot heads, Option.bind_some, inner]
  | some other =>
      -- what is read is `not in (…)`, and the operand behind the negation is `in (…)`
      obtain ⟨tokens, isComparison, spells⟩ := covers_comparison _ other compared
      rw [spells_skipBlanks isComparison.ne_nil] at spells
      obtain ⟨first, others, rfl, _⟩ := isComparison.exists_cons
      obtain ⟨_, firstHeads, othersSpell⟩ := spells
      obtain ⟨rfl, rfl⟩ := heads.unique firstHeads
      obtain ⟨literals, areLiterals, rfl⟩ := isComparison.of_not isNot
      have isIn := after_comparison_membership .absent .absent areLiterals othersSpell
      obtain ⟨_, inHeads, _⟩ := othersSpell
      have sameInner := after_operand_of_comparison positive inHeads (by decide) isIn
      rw [inner] at sameInner
      rw [Option.some_or, sameInner]

end

/-! ## Phrases -/

def Phrase.reader (depth : Nat) : Phrase → Reader (Expr Float)
  | operand => Crisp.operand depth
  | conjunction => Crisp.conjunction (Crisp.operand depth)
  | disjunction => Crisp.disjunction (Crisp.operand depth)

section

variable {phrase : Phrase} {tokens : List Token} {depth : Nat} {text rest : List Char}

theorem shrinks_and (depth : Nat) :
    Shrinks (following afterAnd (operand depth : Reader (Expr Float))) :=
  shrinks_following recognizes_and (covers_operand depth)

theorem shrinks_or (depth : Nat) :
    Shrinks (following afterOr (conjunction (operand depth : Reader (Expr Float)))) :=
  shrinks_following recognizes_or (covers_conjunction (covers_operand depth))

/-- The induction is on the derivation; each level of nesting has a token of its own, so the number
of tokens bounds the depth. -/
theorem after_phrase_of_derives (derives : Derives .lenient phrase tokens)
    (room : tokens.length ≤ depth) (spells : Spells tokens text rest)
    (follows : Follows phrase rest) : after (phrase.reader depth) text = some rest := by
  induction derives generalizing depth text rest with
  | oneConjunction _ inductionHypothesis =>
      have ends := follows.eq_none recognizes_or (by decide)
      exact after_chain_last (inductionHypothesis room spells (follows.mono (by decide))) ends
  | @or tokens others sign _ isOr _ firstHypothesis laterHypothesis =>
      simp only [List.length_append, List.length_cons] at room
      obtain ⟨left, firstSpells, behind, heads, laterSpells⟩ := spells_append.mp spells
      have outside : ∀ sign ∈ orTokens, sign ∉ Phrase.conjunction.joiners := by decide
      have first := firstHypothesis (by omega : tokens.length ≤ depth) firstSpells
        (follows_of_heads heads (outside sign isOr))
      have later := laterHypothesis (by omega : others.length ≤ depth) laterSpells follows
      exact after_chain_more (shrinks_or depth) first (recognizes_or.eq_some isOr heads) later
  | oneOperand _ inductionHypothesis =>
      have ends := follows.eq_none recognizes_and (by decide)
      exact after_chain_last (inductionHypothesis room spells (follows.mono (by decide))) ends
  | @and tokens others sign _ isAnd _ firstHypothesis laterHypothesis =>
      simp only [List.length_append, List.length_cons] at room
      obtain ⟨left, firstSpells, behind, heads, laterSpells⟩ := spells_append.mp spells
      have outside : ∀ sign ∈ andTokens, sign ∉ Phrase.operand.joiners := by decide
      have first := firstHypothesis (by omega : tokens.length ≤ depth) firstSpells
        (follows_of_heads heads (outside sign isAnd))
      have later := laterHypothesis (by omega : others.length ≤ depth) laterSpells follows
      exact after_chain_more (shrinks_and depth) first (recognizes_and.eq_some isAnd heads) later
  | @not tokens sign isNot derives inductionHypothesis =>
      rw [List.length_cons] at room
      obtain ⟨depth, rfl⟩ := Nat.exists_eq_add_one.mpr (Nat.zero_lt_of_lt room)
      have positive : 0 < depth :=
        (List.length_pos_iff.mpr derives.ne_nil).trans_le (Nat.le_of_succ_le_succ room)
      obtain ⟨behind, heads, innerSpells⟩ := spells
      have inner := inductionHypothesis (Nat.le_of_succ_le_succ room) innerSpells follows
      exact after_operand_not positive isNot heads inner
  | @group tokens derives inductionHypothesis =>
      rw [List.length_cons, List.length_append] at room
      obtain ⟨depth, rfl⟩ := Nat.exists_eq_add_one.mpr (Nat.zero_lt_of_lt room)
      have grouped := after_parenthesized_of_spells spells fun inside left inner closes =>
        inductionHypothesis (by omega : tokens.length ≤ depth)
          ((spells_skipBlanks derives.ne_nil).mpr inner) closes
      unfold Phrase.reader at grouped ⊢
      rw [after_operand, grouped, Option.some_or]
  | comparison isComparison =>
      have compared := after_comparison_of_spells isComparison spells follows
      have positive := (List.length_pos_iff.mpr isComparison.ne_nil).trans_le room
      obtain ⟨token, others, rfl, notOpen⟩ := isComparison.exists_cons
      obtain ⟨behind, heads, _⟩ := spells
      exact after_operand_of_comparison positive heads notOpen compared

end

end FuzzyRating.Crisp
