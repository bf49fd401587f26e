import FuzzyRating.Proofs.Crisp.TokenReader
import Mathlib.Data.List.Chain

/-!
The grammar of crisp expressions over tokens, in two manners. In the strict one a subject stands
only in front of a relation sign, `in` or `not in`. The lenient one also lets it stand idle in front
of literals.
-/

namespace FuzzyRating.Crisp

inductive Manner where
  | strict
  | lenient
  deriving DecidableEq, Repr

/-- One of the tokens, or nothing. -/
inductive Optional (choices : List Token) : List Token → Prop
  | absent : Optional choices []
  | present {token : Token} (isChoice : token ∈ choices) : Optional choices [token]

/-- One or more literals with commas between them. -/
inductive LiteralList : List Token → Prop
  | single {literal : Token} (isLiteral : literal ∈ literalTokens) : LiteralList [literal]
  | cons {literal : Token} {others : List Token} (isLiteral : literal ∈ literalTokens)
      (later : LiteralList others) : LiteralList (literal :: .symbol [','] :: others)

inductive Comparison (manner : Manner) : List Token → Prop
  | relational {subject : List Token} {relation literal : Token}
      (isSubject : Optional subjectTokens subject) (isRelation : relation ∈ relationTokens)
      (isLiteral : literal ∈ literalTokens) : Comparison manner (subject ++ [relation, literal])
  | membership {subject negation literals : List Token}
      (isSubject : Optional subjectTokens subject)
      (isNegation : Optional [.word "not"] negation) (areLiterals : LiteralList literals) :
      Comparison manner (subject ++ (negation ++
        .word "in" :: .symbol ['('] :: (literals ++ [.symbol [')']])))
  | bare {literals : List Token} (areLiterals : LiteralList literals) : Comparison manner literals
  | idle {subject : Token} {literals : List Token} (isLenient : manner = .lenient)
      (isSubject : subject ∈ subjectTokens) (areLiterals : LiteralList literals) :
      Comparison manner (subject :: literals)

inductive Phrase where
  | disjunction
  | conjunction
  | operand
  deriving DecidableEq, Repr

/-- The tokens make up a phrase. -/
inductive Derives (manner : Manner) : Phrase → List Token → Prop
  | oneConjunction {tokens : List Token} (only : Derives manner .conjunction tokens) :
      Derives manner .disjunction tokens
  | or {tokens others : List Token} {sign : Token} (first : Derives manner .conjunction tokens)
      (isOr : sign ∈ orTokens) (later : Derives manner .disjunction others) :
      Derives manner .disjunction (tokens ++ sign :: others)
  | oneOperand {tokens : List Token} (only : Derives manner .operand tokens) :
      Derives manner .conjunction tokens
  | and {tokens others : List Token} {sign : Token} (first : Derives manner .operand tokens)
      (isAnd : sign ∈ andTokens) (later : Derives manner .conjunction others) :
      Derives manner .conjunction (tokens ++ sign :: others)
  | not {tokens : List Token} {sign : Token} (isNot : sign ∈ notTokens)
      (operand : Derives manner .operand tokens) : Derives manner .operand (sign :: tokens)
  | group {tokens : List Token} (inner : Derives manner .disjunction tokens) :
      Derives manner .operand (.symbol ['('] :: (tokens ++ [.symbol [')']]))
  | comparison {tokens : List Token} (isComparison : Comparison manner tokens) :
      Derives manner .operand tokens

/-! ## Idle subjects -/

/-- No subject stands directly in front of a literal. -/
def NoIdleSubject (tokens : List Token) : Prop :=
  tokens.IsChain fun first second => first ∈ subjectTokens → second ∉ literalTokens

section

variable {manner : Manner} {phrase : Phrase} {sign literal subject : Token}
  {tokens others literals negation : List Token}

instance (tokens : List Token) : Decidable (NoIdleSubject tokens) :=
  inferInstanceAs (Decidable (List.IsChain _ tokens))

theorem noIdleSubject_cons (notSubject : sign ∉ subjectTokens) :
    NoIdleSubject (sign :: tokens) ↔ NoIdleSubject tokens := by
  unfold NoIdleSubject
  rw [List.isChain_cons]
  simp [notSubject]

theorem noIdleSubject_append_cons (notSubject : sign ∉ subjectTokens)
    (notLiteral : sign ∉ literalTokens) :
    NoIdleSubject (tokens ++ sign :: others) ↔ NoIdleSubject tokens ∧ NoIdleSubject others := by
  have behind : NoIdleSubject (sign :: others) ↔ NoIdleSubject others :=
    noIdleSubject_cons notSubject
  unfold NoIdleSubject at behind ⊢
  rw [List.isChain_append, behind]
  simp [notLiteral]

theorem LiteralList.noIdleSubject (areLiterals : LiteralList literals) :
    NoIdleSubject literals := by
  induction areLiterals with
  | single _ => exact List.isChain_singleton _
  | @cons literal others isLiteral later inductionHypothesis =>
      have notSubject : ∀ literal ∈ literalTokens, literal ∉ subjectTokens := by decide
      rw [noIdleSubject_cons (notSubject literal isLiteral), noIdleSubject_cons (by decide)]
      exact inductionHypothesis

theorem LiteralList.exists_cons (areLiterals : LiteralList literals) :
    ∃ literal others, literals = literal :: others ∧ literal ∈ literalTokens := by
  cases areLiterals with
  | single isLiteral => exact ⟨_, _, rfl, isLiteral⟩
  | cons isLiteral _ => exact ⟨_, _, rfl, isLiteral⟩

theorem Optional.noIdleSubject {choices front : List Token} (isOptional : Optional choices front) :
    NoIdleSubject front := by
  cases isOptional with
  | absent => exact List.isChain_nil
  | present _ => exact List.isChain_singleton _

theorem Comparison.noIdleSubject (isComparison : Comparison .strict tokens) :
    NoIdleSubject tokens := by
  cases isComparison with
  | @relational subject relation literal isSubject isRelation isLiteral =>
      have outside : ∀ relation ∈ relationTokens,
          relation ∉ subjectTokens ∧ relation ∉ literalTokens := by decide
      obtain ⟨notSubject, notLiteral⟩ := outside relation isRelation
      rw [noIdleSubject_append_cons notSubject notLiteral]
      exact ⟨isSubject.noIdleSubject, List.isChain_singleton _⟩
  | @membership subject negation literals isSubject isNegation areLiterals =>
      have front : NoIdleSubject (subject ++ negation) := by
        cases isNegation with
        | absent => simpa using isSubject.noIdleSubject
        | present isNot =>
            rw [List.mem_singleton.mp isNot, noIdleSubject_append_cons (by decide) (by decide)]
            exact ⟨isSubject.noIdleSubject, List.isChain_nil⟩
      rw [← List.append_assoc, noIdleSubject_append_cons (by decide) (by decide),
        noIdleSubject_cons (by decide), noIdleSubject_append_cons (by decide) (by decide)]
      exact ⟨front, areLiterals.noIdleSubject, List.isChain_nil⟩
  | bare areLiterals => exact areLiterals.noIdleSubject
  | idle isLenient _ _ => cases isLenient

theorem or_outside : ∀ sign ∈ orTokens, sign ∉ subjectTokens ∧ sign ∉ literalTokens := by
  decide

theorem and_outside : ∀ sign ∈ andTokens, sign ∉ subjectTokens ∧ sign ∉ literalTokens := by
  decide

theorem not_outside : ∀ sign ∈ notTokens, sign ∉ subjectTokens ∧ sign ∉ literalTokens := by
  decide

theorem Derives.noIdleSubject (derives : Derives .strict phrase tokens) : NoIdleSubject tokens := by
  induction derives with
  | oneConjunction _ inductionHypothesis => exact inductionHypothesis
  | or _ isOr _ firstHypothesis laterHypothesis =>
      obtain ⟨notSubject, notLiteral⟩ := or_outside _ isOr
      exact (noIdleSubject_append_cons notSubject notLiteral).mpr ⟨firstHypothesis, laterHypothesis⟩
  | oneOperand _ inductionHypothesis => exact inductionHypothesis
  | and _ isAnd _ firstHypothesis laterHypothesis =>
      obtain ⟨notSubject, notLiteral⟩ := and_outside _ isAnd
      exact (noIdleSubject_append_cons notSubject notLiteral).mpr ⟨firstHypothesis, laterHypothesis⟩
  | not isNot _ inductionHypothesis =>
      exact (noIdleSubject_cons (not_outside _ isNot).1).mpr inductionHypothesis
  | group _ inductionHypothesis =>
      rw [noIdleSubject_cons (by decide), noIdleSubject_append_cons (by decide) (by decide)]
      exact ⟨inductionHypothesis, List.isChain_nil⟩
  | comparison isComparison => exact isComparison.noIdleSubject

/-- In the strict manner no subject stands idle. -/
def Manner.Allows (manner : Manner) (tokens : List Token) : Prop :=
  manner = .strict → NoIdleSubject tokens

theorem Manner.Allows.tail (allows : manner.Allows (sign :: tokens))
    (notSubject : sign ∉ subjectTokens) : manner.Allows tokens := by
  intro isStrict
  exact (noIdleSubject_cons notSubject).mp (allows isStrict)

theorem Manner.Allows.split (allows : manner.Allows (tokens ++ sign :: others))
    (outside : sign ∉ subjectTokens ∧ sign ∉ literalTokens) :
    manner.Allows tokens ∧ manner.Allows others := by
  constructor
  · intro isStrict
    exact ((noIdleSubject_append_cons outside.1 outside.2).mp (allows isStrict)).1
  · intro isStrict
    exact ((noIdleSubject_append_cons outside.1 outside.2).mp (allows isStrict)).2

theorem Comparison.changeManner {other : Manner} (isComparison : Comparison manner tokens)
    (allows : other.Allows tokens) : Comparison other tokens := by
  cases isComparison with
  | relational isSubject isRelation isLiteral => exact .relational isSubject isRelation isLiteral
  | membership isSubject isNegation areLiterals =>
      exact .membership isSubject isNegation areLiterals
  | bare areLiterals => exact .bare areLiterals
  | @idle subject literals _ isSubject areLiterals =>
      cases other with
      | lenient => exact .idle rfl isSubject areLiterals
      | strict =>
          have kept := allows rfl
          obtain ⟨literal, others, rfl, isLiteral⟩ := areLiterals.exists_cons
          exact absurd isLiteral ((List.isChain_cons_cons.mp kept).1 isSubject)

theorem Derives.changeManner {other : Manner} (derives : Derives manner phrase tokens)
    (allows : other.Allows tokens) : Derives other phrase tokens := by
  induction derives with
  | oneConjunction _ inductionHypothesis => exact .oneConjunction (inductionHypothesis allows)
  | or _ isOr _ firstHypothesis laterHypothesis =>
      obtain ⟨firstAllowed, laterAllowed⟩ := allows.split (or_outside _ isOr)
      exact .or (firstHypothesis firstAllowed) isOr (laterHypothesis laterAllowed)
  | oneOperand _ inductionHypothesis => exact .oneOperand (inductionHypothesis allows)
  | and _ isAnd _ firstHypothesis laterHypothesis =>
      obtain ⟨firstAllowed, laterAllowed⟩ := allows.split (and_outside _ isAnd)
      exact .and (firstHypothesis firstAllowed) isAnd (laterHypothesis laterAllowed)
  | not isNot _ inductionHypothesis =>
      exact .not isNot (inductionHypothesis (allows.tail (not_outside _ isNot).1))
  | group _ inductionHypothesis =>
      have inner := (allows.tail (by decide)).split (by decide)
      exact .group (inductionHypothesis inner.1)
  | comparison isComparison => exact .comparison (isComparison.changeManner allows)

/-- The manners differ in idle subjects and in nothing else. -/
theorem derives_strict_iff :
    Derives .strict phrase tokens ↔ Derives .lenient phrase tokens ∧ NoIdleSubject tokens := by
  constructor
  · intro derives
    exact ⟨derives.changeManner nofun, derives.noIdleSubject⟩
  · rintro ⟨derives, kept⟩
    exact derives.changeManner fun _ => kept

theorem LiteralList.ne_nil (areLiterals : LiteralList literals) : literals ≠ [] := by
  obtain ⟨literal, others, rfl, _⟩ := areLiterals.exists_cons
  exact List.cons_ne_nil _ _

theorem Comparison.ne_nil (isComparison : Comparison manner tokens) : tokens ≠ [] := by
  cases isComparison with
  | relational => simp
  | membership => simp
  | bare areLiterals => exact areLiterals.ne_nil
  | idle => simp

theorem Derives.ne_nil (derives : Derives manner phrase tokens) : tokens ≠ [] := by
  induction derives with
  | oneConjunction _ inductionHypothesis => exact inductionHypothesis
  | or => simp
  | oneOperand _ inductionHypothesis => exact inductionHypothesis
  | and => simp
  | not => simp
  | group => simp
  | comparison isComparison => exact isComparison.ne_nil

end

end FuzzyRating.Crisp
