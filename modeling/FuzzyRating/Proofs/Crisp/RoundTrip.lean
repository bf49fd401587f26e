import FuzzyRating.Proofs.Crisp.Literals

/-!
Canonical expressions survive printing and reading. What is read of a printed expression does not
depend on what stands behind it, as long as that is nothing or a closing parenthesis.
-/

namespace FuzzyRating.Crisp

open FuzzyRating.Text

/-! ## The literals of an expression -/

section

variable {num : Type}

mutual

def Expr.literals : Expr num → List (Literal num)
  | .or branches => literalsAll branches
  | .and branches => literalsAll branches
  | .not operand => literals operand
  | .compare _ literal => [literal]
  | .membership _ values => values

def Expr.literalsAll : List (Expr num) → List (Literal num)
  | [] => []
  | branch :: branches => literals branch ++ literalsAll branches

end

theorem Expr.mem_literalsAll {branches : List (Expr num)} {branch : Expr num}
    {literal : Literal num} (isBranch : branch ∈ branches) (member : literal ∈ branch.literals) :
    literal ∈ literalsAll branches := by
  induction branches with
  | nil => cases isBranch
  | cons first branches inductionHypothesis =>
      rw [literalsAll, List.mem_append]
      rcases List.mem_cons.mp isBranch with rfl | isLater
      · exact Or.inl member
      · exact Or.inr (inductionHypothesis isLater)

end

/-! ## Groups -/

/-- Nothing follows, or a closing parenthesis. -/
def Closes (rest : List Char) : Prop :=
  rest = [] ∨ ∃ tail, rest = ')' :: tail

/-- The expression is read from its text, whatever stands behind it within a group. -/
def ReadsAs (expr : Expr Float) : Prop :=
  ∀ depth rest, expr.written.length ≤ depth → Closes rest →
    disjunction (operand depth) (expr.written ++ rest) = some (expr, rest)

section

variable {expr : Expr Float} {depth : Nat} {text rest : List Char}

theorem Closes.following_or (closes : Closes rest) (read : Reader (Expr Float)) :
    following afterOr read rest = none := by
  rcases closes with rfl | ⟨tail, rfl⟩ <;> rfl

theorem Closes.following_and (closes : Closes rest) (read : Reader (Expr Float)) :
    following afterAnd read rest = none := by
  rcases closes with rfl | ⟨tail, rfl⟩ <;> rfl

theorem disjunction_of_operand (closes : Closes rest)
    (readEq : operand depth text = some (expr, rest)) :
    disjunction (operand depth) text = some (expr, rest) := by
  have joined : conjunction (operand depth) text = some (expr, rest) :=
    chain_single readEq (closes.following_and _)
  exact chain_single joined (closes.following_or _)

theorem operand_blank (depth : Nat) (text : List Char) :
    (operand depth (' ' :: text) : Option (Expr Float × List Char)) = operand depth text := by
  cases depth <;> rfl

theorem conjunction_blank (depth : Nat) (text : List Char) :
    conjunction (operand depth) (' ' :: text) =
      (conjunction (operand depth) text : Option (Expr Float × List Char)) := by
  unfold conjunction chain
  rw [operand_blank]

theorem written_joined {separator : List Char} {branches : List (Expr Float)}
    (several : 2 ≤ branches.length) :
    ∃ first others, branches = first :: others ∧ others ≠ [] ∧
      separator.intercalate (Expr.groups branches) =
        grouped first.written ++ others.flatMap fun branch => separator ++ grouped branch.written := by
  match branches with
  | first :: second :: others =>
      refine ⟨first, second :: others, rfl, List.cons_ne_nil _ _, ?_⟩
      rw [Expr.groups_eq_map, intercalate_cons_map]

theorem exists_cons_of_canonical (canonical : expr.Canonical) :
    ∃ c tail, expr.written = c :: tail ∧ isBlank c = false := by
  cases canonical with
  | or several _ =>
      obtain ⟨first, others, _, _, joined⟩ := written_joined several
      rw [Expr.written, joined]
      exact ⟨'(', _, rfl, rfl⟩
  | and several _ =>
      obtain ⟨first, others, _, _, joined⟩ := written_joined several
      rw [Expr.written, joined]
      exact ⟨'(', _, rfl, rfl⟩
  | not _ =>
      rw [Expr.written]
      exact ⟨'n', _, rfl, rfl⟩
  | @compare relation _ _ =>
      rw [Expr.written]
      cases relation <;> exact ⟨_, _, rfl, rfl⟩
  | @membership negated _ _ _ =>
      rw [Expr.written]
      cases negated <;> exact ⟨_, _, rfl, rfl⟩

theorem length_written_pos (canonical : expr.Canonical) : 0 < expr.written.length := by
  obtain ⟨c, tail, written, _⟩ := exists_cons_of_canonical canonical
  rw [written]
  exact Nat.succ_pos _

theorem skipBlanks_expr (canonical : expr.Canonical) (rest : List Char) :
    skipBlanks (expr.written ++ rest) = expr.written ++ rest := by
  obtain ⟨c, tail, written, solid⟩ := exists_cons_of_canonical canonical
  rw [written]
  exact skipBlanks_cons solid _

theorem operand_grouped (canonical : expr.Canonical) (reads : ReadsAs expr)
    (room : expr.written.length < depth) (rest : List Char) :
    operand depth (grouped expr.written ++ rest) = some (expr, rest) := by
  obtain ⟨depth, rfl⟩ := Nat.exists_eq_add_one.mpr (Nat.zero_lt_of_lt room)
  have inner := reads depth (')' :: rest) (by omega) (Or.inr ⟨rest, rfl⟩)
  have group := parenthesized_grouped (skipBlanks_expr canonical _) inner
  have solid : skipBlanks (grouped expr.written ++ rest) = grouped expr.written ++ rest :=
    skipBlanks_cons rfl _
  unfold operand
  dsimp only
  rw [solid, group]
  rfl

theorem chain_groups {sign : List Char → Option (List Char)} {separator : List Char}
    {build : List (Expr Float) → Expr Float} {read : Reader (Expr Float)}
    {branches : List (Expr Float)} (behind : List Char → Prop) (several : 2 ≤ branches.length)
    (nonempty : separator ≠ []) (begins : ∀ tail, behind (separator ++ tail))
    (separates : ∀ tail, following sign read (separator ++ tail) = read tail)
    (each : ∀ branch ∈ branches, ∀ tail, behind tail →
      read (grouped branch.written ++ tail) = some (branch, tail))
    (restBehind : behind rest) (ends : following sign read rest = none) :
    chain sign build read (separator.intercalate (Expr.groups branches) ++ rest) =
      some (build branches, rest) := by
  obtain ⟨first, others, rfl, othersNonempty, joined⟩ := written_joined several
  have manyEq : many (following sign read)
      (others.flatMap (fun branch => separator ++ grouped branch.written) ++ rest) =
        (others, rest) := by
    refine many_flatMap behind (fun _ _ => by simp [nonempty]) (fun _ _ tail => ?_)
      (fun branch member tail tailBehind => ?_) restBehind ends
    · rw [List.append_assoc]
      exact begins _
    · rw [List.append_assoc, separates]
      exact each branch (List.mem_cons_of_mem first member) tail tailBehind
  have behindFirst : behind
      (others.flatMap (fun branch => separator ++ grouped branch.written) ++ rest) := by
    obtain ⟨second, others, rfl⟩ := List.exists_cons_of_ne_nil othersNonempty
    rw [List.flatMap_cons, List.append_assoc, List.append_assoc]
    exact begins _
  rw [joined, List.append_assoc]
  exact chain_several (each first List.mem_cons_self _ behindFirst) manyEq othersNonempty

theorem length_le_intercalate {separator item : List Char} {items : List (List Char)}
    (member : item ∈ items) :
    item.length ≤ (separator.intercalate items).length := by
  induction items with
  | nil => cases member
  | cons first items inductionHypothesis =>
      cases items with
      | nil => simp_all
      | cons second items =>
          rw [List.intercalate_cons_cons, List.length_append, List.length_append]
          rcases List.mem_cons.mp member with rfl | isLater
          · omega
          · have := inductionHypothesis isLater
            omega

theorem length_lt_of_mem {separator : List Char} {branches : List (Expr Float)} {branch : Expr Float}
    (member : branch ∈ branches) :
    branch.written.length < (separator.intercalate (Expr.groups branches)).length := by
  have isGroup : grouped branch.written ∈ Expr.groups branches := by
    rw [Expr.groups_eq_map]
    exact List.mem_map_of_mem member
  have shorter : (grouped branch.written).length ≤
      (separator.intercalate (Expr.groups branches)).length :=
    length_le_intercalate isGroup
  simp only [grouped, List.length_cons, List.length_append] at shorter
  omega

/-- Whether a conjunction ends here. -/
def NoAnd (depth : Nat) (tail : List Char) : Prop :=
  following afterAnd (operand depth : Reader (Expr Float)) tail = none

theorem readsAs_or {branches : List (Expr Float)} (several : 2 ≤ branches.length)
    (canonical : ∀ branch ∈ branches, branch.Canonical)
    (reads : ∀ branch ∈ branches, ReadsAs branch) :
    ReadsAs (.or branches) := by
  intro depth rest room closes
  rw [Expr.written] at room ⊢
  have readsGroup : ∀ branch ∈ branches, ∀ tail, NoAnd depth tail →
      conjunction (operand depth) (grouped branch.written ++ tail) = some (branch, tail) := by
    -- a branch of `or` is a conjunction of one operand
    intro branch member tail noAnd
    have shorter := (length_lt_of_mem member).trans_le room
    exact chain_single
      (operand_grouped (canonical branch member) (reads branch member) shorter tail) noAnd
  refine chain_groups (NoAnd depth) several
    (List.cons_ne_nil _ _) (fun _ => rfl) (fun tail => ?_) readsGroup (closes.following_and _)
    (closes.following_or _)
  exact conjunction_blank depth tail

theorem readsAs_and {branches : List (Expr Float)} (several : 2 ≤ branches.length)
    (canonical : ∀ branch ∈ branches, branch.Canonical)
    (reads : ∀ branch ∈ branches, ReadsAs branch) :
    ReadsAs (.and branches) := by
  intro depth rest room closes
  rw [Expr.written] at room ⊢
  have joined : conjunction (operand depth)
      ([' ', 'a', 'n', 'd', ' '].intercalate (Expr.groups branches) ++ rest) =
        some (.and branches, rest) := by
    refine chain_groups (fun _ => True) several (List.cons_ne_nil _ _) (fun _ => trivial)
      (fun tail => operand_blank depth tail) (fun branch member tail _ => ?_) trivial
      (closes.following_and _)
    have shorter := (length_lt_of_mem member).trans_le room
    exact operand_grouped (canonical branch member) (reads branch member) shorter tail
  exact chain_single joined (closes.following_or _)

theorem readsAs_not (canonical : expr.Canonical) (reads : ReadsAs expr) :
    ReadsAs (.not expr) := by
  intro depth rest room closes
  obtain ⟨depth, rfl⟩ :=
    Nat.exists_eq_add_one.mpr ((length_written_pos (.not canonical)).trans_le room)
  rw [Expr.written] at room ⊢
  have shorter : expr.written.length < depth := by
    simp only [grouped, List.length_cons, List.length_append] at room
    omega
  have inner := operand_grouped canonical reads shorter rest
  have notGroup : parenthesized (disjunction (operand depth) : Reader (Expr Float))
      ('n' :: 'o' :: 't' :: ' ' :: (grouped expr.written ++ rest)) = none := rfl
  have notComparison : (comparison ('n' :: 'o' :: 't' :: ' ' :: (grouped expr.written ++ rest)) :
      Option (Expr Float × List Char)) = none := rfl
  have negation : afterNot ('n' :: 'o' :: 't' :: ' ' :: (grouped expr.written ++ rest)) =
      some (' ' :: (grouped expr.written ++ rest)) := rfl
  refine disjunction_of_operand closes ?_
  rw [List.cons_append, List.cons_append, List.cons_append, List.cons_append]
  unfold operand
  dsimp only
  rw [skipBlanks_cons rfl, notGroup, notComparison, negation]
  simp only [Option.or, Option.bind_eq_bind, Option.bind_some, operand_blank, inner, Option.pure_def]

theorem Closes.ends (closes : Closes rest) : Ends Decimal.continuesNumeral rest := by
  rcases closes with rfl | ⟨tail, rfl⟩
  · exact Ends.nil
  · exact Ends.cons rfl

theorem operand_of_comparison {c : Char} (positive : 0 < depth) (solid : isBlank c = false)
    (notGroup : c ≠ '(') (readEq : comparison (c :: text) = some (expr, rest)) :
    operand depth (c :: text) = some (expr, rest) := by
  obtain ⟨depth, rfl⟩ := Nat.exists_eq_add_one.mpr positive
  have notOpened : parenthesized (disjunction (operand depth) : Reader (Expr Float)) (c :: text) =
      none := by
    unfold parenthesized
    simp [afterSymbol, notGroup.symm]
  unfold operand
  dsimp only
  rw [skipBlanks_cons solid, notOpened, readEq]
  rfl

theorem comparison_compare {relation : Relation} {literal : Literal Float}
    (literalEq : Crisp.literal (skipBlanks text) = some (literal, rest)) :
    comparison (relation.sign ++ ' ' :: text) = some (.compare relation literal, rest) := by
  have noSubject : skipSubject (relation.sign ++ ' ' :: text) = relation.sign ++ ' ' :: text := by
    cases relation <;> rfl
  have notMembership : (membership (relation.sign ++ ' ' :: text) :
      Option (Expr Float × List Char)) = none := by
    cases relation <;> rfl
  have relationEq : Crisp.relation (relation.sign ++ ' ' :: text) =
      some (relation, ' ' :: text) := by
    cases relation <;> rfl
  have behindSign : skipBlanks (' ' :: text) = skipBlanks text := rfl
  unfold comparison relational
  simp only [noSubject, notMembership, relationEq, behindSign, literalEq, Option.bind_eq_bind,
    Option.bind_some, Option.pure_def, Option.none_or, Option.some_or]

theorem readsAs_compare {relation : Relation} {literal : Literal Float}
    (canonical : literal.Canonical)
    (readsBack : ∀ value, literal = .number value → ReadsBack value) :
    ReadsAs (.compare relation literal) := by
  intro depth rest room closes
  have positive := (length_written_pos (.compare canonical)).trans_le room
  have literalEq : Crisp.literal (skipBlanks (literal.written ++ rest)) = some (literal, rest) := by
    rw [skipBlanks_written canonical, literal_written canonical readsBack closes.ends]
  refine disjunction_of_operand closes ?_
  rw [Expr.written, List.append_assoc, List.cons_append]
  have comparisonEq : comparison (relation.sign ++ ' ' :: (literal.written ++ rest)) =
      some (.compare relation literal, rest) :=
    comparison_compare literalEq
  cases relation <;> exact operand_of_comparison positive rfl (by decide) comparisonEq

theorem comparison_membership {inner : List Char} {values : List (Literal Float)}
    (group : parenthesized literals (grouped inner ++ rest) = some (values, rest))
    (negated : Bool) :
    comparison ((if negated then ['n', 'o', 't', ' '] else []) ++
        'i' :: 'n' :: ' ' :: (grouped inner ++ rest)) = some (.membership negated values, rest) := by
  have isIn : afterWord "in" ('i' :: 'n' :: ' ' :: (grouped inner ++ rest)) =
      some (' ' :: (grouped inner ++ rest)) := rfl
  have behindIn : skipBlanks (' ' :: (grouped inner ++ rest)) = grouped inner ++ rest := rfl
  cases negated with
  | false =>
      have noSubject : skipSubject ('i' :: 'n' :: ' ' :: (grouped inner ++ rest)) =
          'i' :: 'n' :: ' ' :: (grouped inner ++ rest) := rfl
      have notNegated : afterWord "not" ('i' :: 'n' :: ' ' :: (grouped inner ++ rest)) = none := rfl
      simp only [Bool.false_eq_true, if_false, List.nil_append, comparison, noSubject, membership,
        notNegated, isIn, behindIn, group, Option.bind_eq_bind, Option.bind_some, Option.pure_def,
        Option.some_or]
  | true =>
      have noSubject : skipSubject (['n', 'o', 't', ' '] ++
          'i' :: 'n' :: ' ' :: (grouped inner ++ rest)) =
            ['n', 'o', 't', ' '] ++ 'i' :: 'n' :: ' ' :: (grouped inner ++ rest) := rfl
      have isNegated : afterWord "not" (['n', 'o', 't', ' '] ++
          'i' :: 'n' :: ' ' :: (grouped inner ++ rest)) =
            some (' ' :: 'i' :: 'n' :: ' ' :: (grouped inner ++ rest)) := rfl
      have behindNot : skipBlanks (' ' :: 'i' :: 'n' :: ' ' :: (grouped inner ++ rest)) =
          'i' :: 'n' :: ' ' :: (grouped inner ++ rest) := rfl
      simp only [if_true, comparison, noSubject, membership, isNegated, behindNot, isIn, behindIn,
        group, Option.bind_eq_bind, Option.bind_some, Option.pure_def, Option.some_or]

theorem readsAs_membership {negated : Bool} {values : List (Literal Float)} (nonempty : values ≠ [])
    (canonical : ∀ value ∈ values, value.Canonical)
    (readsBack : ∀ value, .number value ∈ values → ReadsBack value) :
    ReadsAs (.membership negated values) := by
  intro depth rest room closes
  have positive := (length_written_pos (.membership nonempty canonical)).trans_le room
  have solid : skipBlanks ([',', ' '].intercalate (values.map Literal.written) ++ ')' :: rest) =
      [',', ' '].intercalate (values.map Literal.written) ++ ')' :: rest := by
    obtain ⟨first, others, rfl⟩ := List.exists_cons_of_ne_nil nonempty
    rw [intercalate_cons_map, List.append_assoc]
    exact skipBlanks_written (canonical first List.mem_cons_self) _
  have group := parenthesized_grouped solid (literals_written nonempty canonical readsBack rest)
  refine disjunction_of_operand closes ?_
  rw [Expr.written]
  generalize [',', ' '].intercalate (values.map Literal.written) = inner at group ⊢
  have comparisonEq := comparison_membership group negated
  cases negated <;> exact operand_of_comparison positive rfl (by decide) comparisonEq

theorem readsAs_of_canonical (canonical : expr.Canonical)
    (readsBack : ∀ value, .number value ∈ expr.literals → ReadsBack value) :
    ReadsAs expr := by
  induction canonical with
  | or several each inductionHypothesis =>
      exact readsAs_or several each fun branch member => inductionHypothesis branch member
        fun value isLiteral => readsBack value (by
          rw [Expr.literals]
          exact Expr.mem_literalsAll member isLiteral)
  | and several each inductionHypothesis =>
      exact readsAs_and several each fun branch member => inductionHypothesis branch member
        fun value isLiteral => readsBack value (by
          rw [Expr.literals]
          exact Expr.mem_literalsAll member isLiteral)
  | not operandCanonical inductionHypothesis =>
      rw [Expr.literals] at readsBack
      exact readsAs_not operandCanonical (inductionHypothesis readsBack)
  | compare literalCanonical =>
      rw [Expr.literals] at readsBack
      exact readsAs_compare literalCanonical fun value isNumber =>
        readsBack value (by simp [isNumber])
  | membership nonempty each =>
      rw [Expr.literals] at readsBack
      exact readsAs_membership nonempty each readsBack

theorem parse_print (canonical : expr.Canonical)
    (readsBack : ∀ value, .number value ∈ expr.literals → ReadsBack value) :
    parse expr.print = .ok expr := by
  have readEq : expression expr.written = some (expr, []) := by
    have read := readsAs_of_canonical canonical readsBack (expr.written.length + 1) []
      (Nat.le_succ _) (Or.inl rfl)
    rwa [List.append_nil] at read
  have notBlank : (skipBlanks expr.written).isEmpty = false := by
    obtain ⟨c, tail, written, solid⟩ := exists_cons_of_canonical canonical
    rw [written, skipBlanks_cons solid]
    rfl
  unfold parse Expr.print
  simp only [String.toList_ofList, notBlank, Bool.false_eq_true, if_false, readEq]
  rfl

end

/-- What is read is canonical, and a canonical expression whose numbers can be read back is read
from its text. -/
theorem roundTrip :
    (∀ (source : String) (expr : Expr Float), parse source = .ok expr → expr.Canonical) ∧
    (∀ expr : Expr Float, expr.Canonical →
      (∀ value, .number value ∈ expr.literals → ReadsBack value) →
        parse expr.print = .ok expr) := by
  constructor
  · intro source expr parsed
    exact canonical_of_parse parsed
  · intro expr canonical readsBack
    exact parse_print canonical readsBack

/-- Nested connectives, texts with a quote of either kind, and numbers of several kinds. -/
def suitable : Expr Float :=
  .or [.and [.compare .ge (.number 0.1), .not (.membership false [.text "it's", .number (-2.5)])],
    .membership true [.text "so \"dry\"", .number 1e6]]

theorem roundTrip_suitable :
    suitable.print =
      "((>= 0.1) and (not (in (\"it's\", -2.5)))) or (not in ('so \"dry\"', 1000000))" ∧
    suitable.Canonical ∧ parse suitable.print = .ok suitable := by
  have canonical : suitable.Canonical := by
    refine .or (by decide) ?_
    simp only [List.mem_cons, List.not_mem_nil, or_false, forall_eq_or_imp, forall_eq]
    refine ⟨.and (by decide) ?_, .membership (by decide) (by decide +kernel)⟩
    simp only [List.mem_cons, List.not_mem_nil, or_false, forall_eq_or_imp, forall_eq]
    exact ⟨.compare (by decide +kernel), .not (.membership (by decide) (by decide +kernel))⟩
  have readsBack : ∀ value, .number value ∈ suitable.literals → ReadsBack value := by
    intro value member
    have isOne : value = 0.1 ∨ value = -2.5 ∨ value = 1e6 := by
      simpa [suitable, Expr.literals, Expr.literalsAll] using member
    rcases isOne with rfl | rfl | rfl <;> decide +kernel
  have parsed := roundTrip.2 suitable canonical readsBack
  exact ⟨by decide +kernel, roundTrip.1 _ _ parsed, parsed⟩

end FuzzyRating.Crisp
