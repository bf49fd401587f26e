import FuzzyRating.Crisp.Parser
import Mathlib.Data.List.TakeWhile

/-!
The shape of expressions that are read from a text: a connective joins at least two branches, a
membership has a literal, numbers are finite, and one kind of quote does not occur in a text.
-/

namespace FuzzyRating.Crisp

variable {num : Type} [Arith num]

/-! ## Canonical expressions -/

def Literal.Canonical : Literal num → Prop
  | .number value => Arith.isFinite value = true
  | .text value => '"' ∉ value.toList ∨ '\'' ∉ value.toList

instance : ∀ literal : Literal num, Decidable literal.Canonical
  | .number value => inferInstanceAs (Decidable (Arith.isFinite value = true))
  | .text value => inferInstanceAs (Decidable ('"' ∉ value.toList ∨ '\'' ∉ value.toList))

inductive Expr.Canonical : Expr num → Prop
  | or {branches : List (Expr num)} (several : 2 ≤ branches.length)
      (each : ∀ branch ∈ branches, Canonical branch) : Canonical (.or branches)
  | and {branches : List (Expr num)} (several : 2 ≤ branches.length)
      (each : ∀ branch ∈ branches, Canonical branch) : Canonical (.and branches)
  | not {operand : Expr num} (operandCanonical : Canonical operand) : Canonical (.not operand)
  | compare {relation : Relation} {literal : Literal num} (literalCanonical : literal.Canonical) :
      Canonical (.compare relation literal)
  | membership {negated : Bool} {literals : List (Literal num)} (nonempty : literals ≠ [])
      (each : ∀ literal ∈ literals, literal.Canonical) : Canonical (.membership negated literals)

/-! ## What readers yield -/

/-- Whatever is read has the property. -/
def Yields {alpha : Type} (property : alpha → Prop) (read : Reader alpha) : Prop :=
  ∀ text value rest, read text = some (value, rest) → property value

section

variable {alpha : Type} {property : alpha → Prop} {read : Reader alpha}

theorem Yields.or {other : Reader alpha} (first : Yields property read)
    (second : Yields property other) :
    Yields property fun text => (read text).or (other text) := by
  intro text value rest result
  rcases Option.or_eq_some_iff.mp result with isFirst | ⟨_, isSecond⟩
  · exact first text value rest isFirst
  · exact second text value rest isSecond

theorem Yields.following (yields : Yields property read)
    (sign : List Char → Option (List Char)) :
    Yields property (following sign read) := by
  intro text value rest result
  obtain ⟨behind, _, readEq⟩ := Option.bind_eq_some_iff.mp result
  exact yields behind value rest readEq

theorem Yields.parenthesized (yields : Yields property read) :
    Yields property (parenthesized read) := by
  intro text value rest result
  obtain ⟨behind, _, inside⟩ := Option.bind_eq_some_iff.mp result
  obtain ⟨⟨inner, left⟩, readEq, closed⟩ := Option.bind_eq_some_iff.mp inside
  obtain ⟨_, _, resultEq⟩ := Option.bind_eq_some_iff.mp closed
  cases resultEq
  exact yields _ value left readEq

theorem Yields.manyWithin (yields : Yields property read) (limit : Nat) :
    ∀ text, ∀ value ∈ (manyWithin read limit text).1, property value := by
  induction limit with
  | zero => simp [Crisp.manyWithin]
  | succ limit inductionHypothesis =>
      intro text value member
      rw [Crisp.manyWithin] at member
      cases readEq : read text with
      | none => simp [readEq] at member
      | some result =>
          obtain ⟨first, rest⟩ := result
          simp only [readEq, List.mem_cons] at member
          rcases member with rfl | isLater
          · exact yields text value rest readEq
          · exact inductionHypothesis rest value isLater

theorem Yields.many (yields : Yields property read) (text : List Char) :
    ∀ value ∈ (many read text).1, property value :=
  yields.manyWithin text.length text

end

omit [Arith num] in
theorem Yields.chain {property : Expr num → Prop} {read : Reader (Expr num)}
    {build : List (Expr num) → Expr num} (yields : Yields property read)
    (sign : List Char → Option (List Char))
    (built : ∀ branches : List (Expr num), 2 ≤ branches.length →
      (∀ branch ∈ branches, property branch) → property (build branches)) :
    Yields property (chain sign build read) := by
  intro text value rest result
  obtain ⟨⟨first, left⟩, readEq, joined⟩ := Option.bind_eq_some_iff.mp result
  have firstHolds := yields text first left readEq
  have othersHold := (yields.following sign).many left
  dsimp only at joined
  split at joined
  · cases joined
    exact firstHolds
  · next others behind several manyEq =>
      cases joined
      rw [manyEq] at othersHold
      refine built _ ?_ ?_
      · have nonempty : others ≠ [] := by
          rintro rfl
          exact several rfl
        have := List.length_pos_iff.mpr nonempty
        rw [List.length_cons]
        omega
      · simpa using ⟨firstHolds, othersHold⟩

/-! ## Literals and expressions -/

theorem not_mem_of_upTo {quote : Char} {text rest : List Char} {value : String}
    (read : upTo quote text = some (value, rest)) :
    quote ∉ value.toList := by
  unfold upTo at read
  split at read
  · cases read
    intro member
    rw [String.toList_ofList] at member
    have differs := List.mem_takeWhile_imp member
    simp at differs
  · cases read

theorem quotedText_yields :
    Yields (fun value => '"' ∉ value.toList ∨ '\'' ∉ value.toList) quotedText := by
  intro text value rest result
  unfold quotedText at result
  split at result
  · exact Or.inl (not_mem_of_upTo result)
  · exact Or.inr (not_mem_of_upTo result)
  · cases result

theorem number_yields : Yields (fun value : num => Arith.isFinite value = true) number := by
  intro text value rest result
  unfold number at result
  split at result
  · dsimp only at result
    split at result
    · next finite =>
        cases result
        exact finite
    · cases result
  · cases result

theorem literal_yields : Yields (fun value : Literal num => value.Canonical) literal := by
  intro text value rest result
  unfold literal at result
  split at result
  · next quoted =>
      cases result
      exact quotedText_yields _ _ _ quoted
  · obtain ⟨⟨read, behind⟩, numberEq, valueEq⟩ := Option.map_eq_some_iff.mp result
    cases valueEq
    exact number_yields text read rest numberEq

theorem literals_yields :
    Yields (fun values : List (Literal num) => values ≠ [] ∧ ∀ value ∈ values, value.Canonical)
      literals := by
  intro text values rest result
  obtain ⟨⟨first, left⟩, readEq, joined⟩ := Option.bind_eq_some_iff.mp result
  have firstCanonical := literal_yields text first left readEq
  have othersCanonical : ∀ value ∈ (many (following afterComma (literal : Reader (Literal num)))
      left).1, value.Canonical :=
    (literal_yields.following afterComma).many left
  cases joined
  exact ⟨List.cons_ne_nil _ _, by simpa using ⟨firstCanonical, othersCanonical⟩⟩

theorem membership_yields : Yields (fun expr : Expr num => expr.Canonical) membership := by
  intro text value rest result
  unfold membership at result
  obtain ⟨behind, _, inside⟩ := Option.bind_eq_some_iff.mp result
  obtain ⟨⟨values, left⟩, readEq, valueEq⟩ := Option.bind_eq_some_iff.mp inside
  cases valueEq
  obtain ⟨nonempty, each⟩ := literals_yields.parenthesized _ _ _ readEq
  exact .membership nonempty each

theorem relational_yields : Yields (fun expr : Expr num => expr.Canonical) relational := by
  intro text value rest result
  unfold relational at result
  obtain ⟨⟨relation, behind⟩, _, inside⟩ := Option.bind_eq_some_iff.mp result
  obtain ⟨⟨literal, left⟩, readEq, valueEq⟩ := Option.bind_eq_some_iff.mp inside
  cases valueEq
  exact .compare (literal_yields _ _ _ readEq)

theorem bareLiterals_yields : Yields (fun expr : Expr num => expr.Canonical) bareLiterals := by
  intro text value rest result
  obtain ⟨⟨values, left⟩, readEq, valueEq⟩ := Option.bind_eq_some_iff.mp result
  cases valueEq
  obtain ⟨nonempty, each⟩ := literals_yields _ _ _ readEq
  exact .membership nonempty each

theorem comparison_yields : Yields (fun expr : Expr num => expr.Canonical) comparison := by
  intro text
  exact (membership_yields.or (relational_yields.or bareLiterals_yields)) (skipSubject text)

theorem disjunction_yields {read : Reader (Expr num)}
    (yields : Yields (fun expr => expr.Canonical) read) :
    Yields (fun expr => expr.Canonical) (disjunction read) :=
  (yields.chain afterAnd fun _ => .and).chain afterOr fun _ => .or

theorem operand_yields (depth : Nat) :
    Yields (fun expr : Expr num => expr.Canonical) (operand depth) := by
  induction depth with
  | zero =>
      intro text value rest impossible
      cases impossible
  | succ depth inductionHypothesis =>
      have group := (disjunction_yields inductionHypothesis).parenthesized
      intro text value rest result
      unfold operand at result
      rcases Option.or_eq_some_iff.mp result with isGroup | ⟨_, notGroup⟩
      · exact group _ value rest isGroup
      · rcases Option.or_eq_some_iff.mp notGroup with isComparison | ⟨_, negation⟩
        · exact comparison_yields _ value rest isComparison
        · obtain ⟨behind, _, inside⟩ := Option.bind_eq_some_iff.mp negation
          obtain ⟨⟨inner, left⟩, readEq, valueEq⟩ := Option.bind_eq_some_iff.mp inside
          cases valueEq
          exact .not (inductionHypothesis _ inner rest readEq)

theorem canonical_of_parse {source : String} {expr : Expr num}
    (parsed : parse source = .ok expr) :
    expr.Canonical := by
  unfold parse at parsed
  dsimp only at parsed
  split at parsed
  · cases parsed
  · split at parsed
    · cases parsed
    · next read =>
        split at parsed
        · cases parsed
          exact disjunction_yields (operand_yields _) _ _ _ read
        · cases parsed

end FuzzyRating.Crisp
