import FuzzyRating.Proofs.Crisp.Completeness

/-!
The language that is read as expressions: exactly the texts whose tokens the lenient grammar derives.
It is the language of the strict grammar up to texts in which a subject stands directly in front of
a literal.
-/

namespace FuzzyRating.Crisp

open FuzzyRating.Text

/-- A whole text is made of the tokens, up to blanks. -/
def Spelled (tokens : List Token) (source : String) : Prop :=
  ∃ rest, Spells tokens source.toList rest ∧ skipBlanks rest = []

def Sentence (manner : Manner) (source : String) : Prop :=
  ∃ tokens, Spelled tokens source ∧ Derives manner .disjunction tokens

def Accepts (source : String) : Prop :=
  ∃ expr : Expr Float, parse source = .ok expr

def HasIdleSubject (source : String) : Prop :=
  ∃ tokens, Spelled tokens source ∧ ¬ NoIdleSubject tokens

section

variable {source : String} {tokens others : List Token}

theorem Spelled.unique (spelled : Spelled tokens source) (otherSpelled : Spelled others source) :
    tokens = others := by
  obtain ⟨rest, spells, blank⟩ := spelled
  obtain ⟨otherRest, otherSpells, otherBlank⟩ := otherSpelled
  exact spells.unique blank otherSpells otherBlank

theorem accepts_iff_after :
    Accepts source ↔ ∃ rest, after (expression : Reader (Expr Float)) source.toList = some rest ∧
      skipBlanks source.toList ≠ [] ∧ skipBlanks rest = [] := by
  unfold Accepts parse after
  dsimp only
  by_cases blank : skipBlanks source.toList = []
  · simp [blank]
  · rw [if_neg (by simpa using blank)]
    cases expressionEq : (expression source.toList : Option (Expr Float × List Char)) with
    | none => simp
    | some result =>
        obtain ⟨expr, rest⟩ := result
        cases restEq : skipBlanks rest with
        | nil => simp [blank, restEq]
        | cons c tail => simp [restEq]

theorem accepts_iff_lenient : Accepts source ↔ Sentence .lenient source := by
  rw [accepts_iff_after]
  constructor
  · rintro ⟨rest, taken, _, blank⟩
    obtain ⟨tokens, derives, spells⟩ := covers_disjunction (covers_operand _) _ rest taken
    exact ⟨tokens, ⟨rest, spells, blank⟩, derives⟩
  · rintro ⟨tokens, ⟨rest, spells, blank⟩, derives⟩
    have room : tokens.length ≤ source.toList.length + 1 := by
      have := spells.length_le
      omega
    refine ⟨rest, after_phrase_of_derives derives room spells (follows_of_blank blank), ?_, blank⟩
    obtain ⟨token, others, rfl⟩ := List.exists_cons_of_ne_nil derives.ne_nil
    obtain ⟨behind, heads, _⟩ := spells
    intro nothing
    rw [nothing] at heads
    exact not_heads_nil heads

theorem sentence_strict_iff :
    Sentence .strict source ↔ Sentence .lenient source ∧ ¬ HasIdleSubject source := by
  constructor
  · rintro ⟨tokens, spelled, strict⟩
    obtain ⟨derives, kept⟩ := derives_strict_iff.mp strict
    refine ⟨⟨tokens, spelled, derives⟩, ?_⟩
    rintro ⟨others, otherSpelled, idle⟩
    rw [otherSpelled.unique spelled] at idle
    exact idle kept
  · rintro ⟨⟨tokens, spelled, derives⟩, notIdle⟩
    have kept : NoIdleSubject tokens := by
      by_contra idle
      exact notIdle ⟨tokens, spelled, idle⟩
    exact ⟨tokens, spelled, derives_strict_iff.mpr ⟨derives, kept⟩⟩

end

/-- Reading accepts the sentences of the lenient grammar. It accepts just the sentences of the strict
one unless a subject stands idle. -/
theorem accepts_iff_sentence (source : String) :
    (Accepts source ↔ Sentence .lenient source) ∧
      ((Accepts source ↔ Sentence .strict source) ↔
        ¬ (Accepts source ∧ HasIdleSubject source)) := by
  refine ⟨accepts_iff_lenient, ?_⟩
  rw [sentence_strict_iff, ← accepts_iff_lenient]
  constructor
  · rintro same ⟨accepted, idle⟩
    exact (same.mp accepted).2 idle
  · intro notBoth
    constructor
    · intro accepted
      exact ⟨accepted, fun idle => notBoth ⟨accepted, idle⟩⟩
    · exact fun both => both.1

/-- With its relation sign forgotten, `x > 5` still means something. -/
theorem accepts_forgotten_sign : Accepts "x 5" ∧ ¬ Sentence .strict "x 5" := by
  have word : (Token.word "x").Heads ['x', ' ', '5'] [' ', '5'] :=
    ⟨by decide, ['x'], rfl, rfl, Ends.cons (by decide)⟩
  have number : Token.number.Heads ['5'] [] := by
    refine ⟨⟨false, 5, 0⟩, rfl, ?_⟩
    decide +kernel
  have spelled : Spelled [.word "x", .number] "x 5" :=
    ⟨[], ⟨[' ', '5'], word, [], number, rfl⟩, rfl⟩
  constructor
  · exact ⟨.membership false [.number 5], rfl⟩
  · intro sentence
    exact (sentence_strict_iff.mp sentence).2 ⟨_, spelled, by decide⟩

end FuzzyRating.Crisp
