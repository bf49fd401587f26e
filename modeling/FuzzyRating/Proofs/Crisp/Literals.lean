import FuzzyRating.Proofs.Crisp.Canonical
import FuzzyRating.Proofs.Crisp.Printer
import FuzzyRating.Proofs.Decimal.Bits
import FuzzyRating.Proofs.Decimal.Numeral

/-!
Written literals are read back, one by one or between parentheses with commas among them. What is
read of them does not depend on what stands behind, unless that goes on with a numeral.
-/

namespace FuzzyRating.Crisp

open FuzzyRating.Text

/-! ## Readers one after the other -/

section

variable {alpha : Type} {read : Reader alpha} {text rest : List Char} {value : alpha}

theorem many_of_none (ends : read text = none) : many read text = ([], text) := by
  unfold many
  cases text.length with
  | zero => rfl
  | succ limit => simp [manyWithin, ends]

private theorem length_le_length_flatMap {items : List alpha} {write : alpha → List Char}
    (nonempty : ∀ item ∈ items, write item ≠ []) :
    items.length ≤ (items.flatMap write).length := by
  induction items with
  | nil => exact Nat.le_refl 0
  | cons item items inductionHypothesis =>
      have first := List.length_pos_iff.mpr (nonempty item List.mem_cons_self)
      have later := inductionHypothesis fun other member =>
        nonempty other (List.mem_cons_of_mem item member)
      rw [List.flatMap_cons, List.length_append, List.length_cons]
      omega

theorem many_flatMap {items : List alpha} {write : alpha → List Char}
    (behind : List Char → Prop) (nonempty : ∀ item ∈ items, write item ≠ [])
    (begins : ∀ item ∈ items, ∀ tail, behind (write item ++ tail))
    (each : ∀ item ∈ items, ∀ tail, behind tail → read (write item ++ tail) = some (item, tail))
    (restBehind : behind rest) (ends : read rest = none) :
    many read (items.flatMap write ++ rest) = (items, rest) := by
  -- any limit will do that leaves room for all items
  suffices within : ∀ limit, items.length ≤ limit →
      manyWithin read limit (items.flatMap write ++ rest) = (items, rest) by
    refine within _ ?_
    have count := length_le_length_flatMap nonempty
    rw [List.length_append]
    omega
  clear nonempty
  induction items with
  | nil =>
      intro limit _
      cases limit with
      | zero => rfl
      | succ limit => simp [manyWithin, ends]
  | cons item items inductionHypothesis =>
      intro limit room
      obtain ⟨limit, rfl⟩ := Nat.exists_eq_add_one.mpr (Nat.zero_lt_of_lt room)
      have tailBehind : behind (items.flatMap write ++ rest) := by
        cases items with
        | nil => exact restBehind
        | cons next items =>
            rw [List.flatMap_cons, List.append_assoc]
            exact begins next (by simp) _
      have later := inductionHypothesis
        (fun other member => begins other (List.mem_cons_of_mem item member))
        (fun other member => each other (List.mem_cons_of_mem item member))
        limit (by simpa using room)
      rw [List.flatMap_cons, List.append_assoc, manyWithin,
        each item List.mem_cons_self _ tailBehind]
      simp only [later]

end

section

variable {num : Type} {read : Reader (Expr num)} {sign : List Char → Option (List Char)}
  {build : List (Expr num) → Expr num} {text behind rest : List Char} {first : Expr num}
  {others : List (Expr num)}

theorem chain_single (readEq : read text = some (first, rest))
    (ends : following sign read rest = none) :
    chain sign build read text = some (first, rest) := by
  unfold chain
  simp [readEq, many_of_none ends]

theorem chain_several (readEq : read text = some (first, behind))
    (manyEq : many (following sign read) behind = (others, rest)) (several : others ≠ []) :
    chain sign build read text = some (build (first :: others), rest) := by
  obtain ⟨second, others, rfl⟩ := List.exists_cons_of_ne_nil several
  unfold chain
  simp [readEq, manyEq]

end

/-! ## Literals -/

theorem skipBlanks_cons {c : Char} (solid : isBlank c = false) (text : List Char) :
    skipBlanks (c :: text) = c :: text := by
  unfold skipBlanks
  rw [List.dropWhile_cons_of_neg (by simp [solid])]

/-- Reading the text of a number gives the number. -/
def ReadsBack (value : Float) : Prop :=
  (Decimal.ofText? (Layout.message.write value).toList).map Decimal.toFloat = some value

instance (value : Float) : Decidable (ReadsBack value) :=
  inferInstanceAs (Decidable (_ = _))

theorem number_written {value : Float} {rest : List Char} (finite : value.isFinite = true)
    (readsBack : ReadsBack value) (ends : Ends Decimal.continuesNumeral rest) :
    number ((Layout.message.write value).toList ++ rest) = some (value, rest) := by
  obtain ⟨decimal, numeral, rfl⟩ := Option.map_eq_some_iff.mp readsBack
  have scanned : Decimal.scan (Layout.message.write decimal.toFloat).toList = some (decimal, []) := by
    unfold Decimal.ofText? at numeral
    split at numeral
    · next isNumeral =>
        cases numeral
        exact isNumeral
    · cases numeral
  have finiteValue : Arith.isFinite (Arith.ofDecimal decimal : Float) = true := finite
  unfold number
  rw [Decimal.scan_append scanned ends]
  dsimp only
  rw [if_pos finiteValue]
  rfl

theorem upTo_written {quote : Char} {value : String} (absent : quote ∉ value.toList)
    (rest : List Char) :
    upTo quote (value.toList ++ quote :: rest) = some (value, rest) := by
  have inside : ∀ c ∈ value.toList, (c != quote) = true := by
    intro c member
    rw [bne_iff_ne]
    rintro rfl
    exact absent member
  have ends : Ends (· != quote) (quote :: rest) := Ends.cons (by simp)
  unfold upTo
  rw [dropWhile_stretch inside ends, takeWhile_stretch inside ends, String.ofList_toList]

theorem quotedText_written {value : String} (oneKind : '"' ∉ value.toList ∨ '\'' ∉ value.toList)
    (rest : List Char) :
    quotedText ((Literal.text value).written ++ rest) = some (value, rest) := by
  have written : (Literal.text value).written ++ rest =
      quoteFor value :: (value.toList ++ quoteFor value :: rest) := by
    simp [Literal.written]
  rw [written]
  by_cases double : '"' ∈ value.toList
  · have single : '\'' ∉ value.toList := oneKind.resolve_left fun absent => absent double
    rw [quoteFor, if_pos double]
    exact upTo_written single rest
  · rw [quoteFor, if_neg double]
    exact upTo_written double rest

theorem isBlank_of_isDigit {c : Char} (isDigit : c.isDigit = true) : isBlank c = false := by
  have within : 48 ≤ c.toNat ∧ c.toNat ≤ 57 := Char.isDigit_iff_toNat.mp isDigit
  unfold isBlank
  simp only [Bool.or_eq_false_iff, Bool.and_eq_false_iff, decide_eq_false_iff_not,
    beq_eq_false_iff_ne]
  omega

theorem isBlank_of_isMark {c : Char} (isMark : Layout.isMark c = true) : isBlank c = false := by
  unfold Layout.isMark at isMark
  simp only [Bool.or_eq_true, beq_iff_eq] at isMark
  rcases isMark with (((isDigit | rfl) | rfl) | rfl) | rfl
  · exact isBlank_of_isDigit isDigit
  · rfl
  · rfl
  · rfl
  · rfl

theorem exists_cons_of_write {value : Float} (finite : value.isFinite = true) :
    ∃ c text, (Layout.message.write value).toList = c :: text ∧ Layout.isMark c = true := by
  obtain ⟨c, text, written⟩ := List.exists_cons_of_ne_nil (Layout.write_ne_nil finite)
  have member : c ∈ (Layout.message.write value).toList := by
    rw [written]
    exact List.mem_cons_self
  exact ⟨c, text, written, Layout.isMark_of_mem_write finite member⟩

theorem skipBlanks_written {literal : Literal Float} (canonical : literal.Canonical)
    (rest : List Char) :
    skipBlanks (literal.written ++ rest) = literal.written ++ rest := by
  cases literal with
  | number value =>
      obtain ⟨c, text, written, isMark⟩ := exists_cons_of_write canonical
      rw [Literal.written, written]
      exact skipBlanks_cons (isBlank_of_isMark isMark) _
  | text value =>
      refine skipBlanks_cons ?_ _
      unfold quoteFor
      split <;> rfl

theorem literal_written {literal : Literal Float} {rest : List Char}
    (canonical : literal.Canonical)
    (readsBack : ∀ value, literal = .number value → ReadsBack value)
    (ends : Ends Decimal.continuesNumeral rest) :
    Crisp.literal (literal.written ++ rest) = some (literal, rest) := by
  cases literal with
  | text value =>
      unfold Crisp.literal
      rw [quotedText_written canonical]
  | number value =>
      obtain ⟨c, text, written, isMark⟩ := exists_cons_of_write canonical
      have notQuoted : quotedText ((Literal.number value).written ++ rest) = none := by
        rw [Literal.written, written]
        unfold quotedText
        split
        · next quoted =>
            cases quoted
            cases isMark
        · next quoted =>
            cases quoted
            cases isMark
        · rfl
      unfold Crisp.literal
      rw [notQuoted]
      dsimp only
      rw [Literal.written, number_written canonical (readsBack value rfl) ends]
      rfl

theorem parenthesized_grouped {alpha : Type} {read : Reader alpha} {inner rest : List Char}
    {value : alpha} (solid : skipBlanks (inner ++ ')' :: rest) = inner ++ ')' :: rest)
    (readEq : read (inner ++ ')' :: rest) = some (value, ')' :: rest)) :
    parenthesized read (grouped inner ++ rest) = some (value, rest) := by
  have groupedEq : grouped inner ++ rest = '(' :: (inner ++ ')' :: rest) := by
    simp [grouped]
  have opened : afterSymbol ['('] ('(' :: (inner ++ ')' :: rest)) = some (inner ++ ')' :: rest) := rfl
  have closed : afterSymbol [')'] (skipBlanks (')' :: rest)) = some rest := rfl
  rw [groupedEq]
  unfold parenthesized
  simp only [opened, Option.bind_eq_bind, Option.bind_some, solid, readEq, closed, Option.pure_def]

theorem following_comma {literal : Literal Float} (canonical : literal.Canonical)
    (rest : List Char) :
    following afterComma (Crisp.literal : Reader (Literal Float))
        ([',', ' '] ++ literal.written ++ rest) =
      Crisp.literal (literal.written ++ rest) := by
  have skipped := skipBlanks_written canonical rest
  have behindComma : afterComma (skipBlanks ([',', ' '] ++ literal.written ++ rest)) =
      some (skipBlanks (literal.written ++ rest)) := rfl
  unfold following
  rw [behindComma, skipped]
  rfl

theorem literals_written {values : List (Literal Float)} (nonempty : values ≠ [])
    (canonical : ∀ value ∈ values, value.Canonical)
    (readsBack : ∀ value, .number value ∈ values → ReadsBack value) (rest : List Char) :
    literals ([',', ' '].intercalate (values.map Literal.written) ++ ')' :: rest) =
      some (values, ')' :: rest) := by
  obtain ⟨first, others, rfl⟩ := List.exists_cons_of_ne_nil nonempty
  have readsLiteral : ∀ value ∈ first :: others, ∀ tail, Ends Decimal.continuesNumeral tail →
      Crisp.literal (value.written ++ tail) = some (value, tail) := by
    intro value member tail ends
    refine literal_written (canonical value member) ?_ ends
    rintro number rfl
    exact readsBack number member
  have behindFirst : Ends Decimal.continuesNumeral
      (others.flatMap (fun item => [',', ' '] ++ item.written) ++ ')' :: rest) := by
    cases others with
    | nil => exact Ends.cons rfl
    | cons next others => exact Ends.cons rfl
  have manyEq : many (following afterComma Crisp.literal)
      (others.flatMap (fun item => [',', ' '] ++ item.written) ++ ')' :: rest) =
        (others, ')' :: rest) := by
    refine many_flatMap (Ends Decimal.continuesNumeral) (fun _ _ => List.cons_ne_nil _ _)
      (fun _ _ _ => Ends.cons rfl) (fun item member tail ends => ?_) (Ends.cons rfl) rfl
    have inAll := List.mem_cons_of_mem first member
    rw [following_comma (canonical item inAll), readsLiteral item inAll tail ends]
  unfold literals
  rw [intercalate_cons_map, List.append_assoc]
  simp only [readsLiteral first List.mem_cons_self _ behindFirst, manyEq, Option.bind_eq_bind,
    Option.bind_some, Option.pure_def]

end FuzzyRating.Crisp
