import FuzzyRating.Proofs.Crisp.Language
import FuzzyRating.Proofs.Text.Position

/-!
Texts that go on behind an expression. Tokens are made up of the same characters wherever the text
behind them is cut off, so what stands in front of the first character that cannot be used is an
expression of its own.
-/

namespace FuzzyRating.Crisp

open FuzzyRating.Text

/-! ## Cutting a text behind its tokens -/

theorem exists_blanks (text : List Char) :
    ∃ blanks, text = blanks ++ skipBlanks text ∧ ∀ c ∈ blanks, isBlank c = true :=
  ⟨text.takeWhile isBlank, List.takeWhile_append_dropWhile.symm,
    List.all_eq_true.mp List.all_takeWhile⟩

theorem skipBlanks_append {blanks : List Char} (areBlank : ∀ c ∈ blanks, isBlank c = true)
    (text : List Char) : skipBlanks (blanks ++ text) = skipBlanks text := by
  unfold skipBlanks
  exact List.dropWhile_append_of_pos areBlank

section

variable {token : Token} {tokens : List Token} {text rest : List Char}

/-- A text may be cut anywhere behind a token. -/
theorem Token.Heads.cut (heads : token.Heads text rest) :
    ∃ taken, text = taken ++ rest ∧
      ∀ kept, kept <+: rest → token.Heads (taken ++ kept) kept := by
  cases token with
  | symbol sign =>
      obtain ⟨isSymbol, rfl, longest⟩ := heads
      refine ⟨sign, rfl, fun kept front => ⟨isSymbol, rfl, fun other otherIsSymbol starts => ?_⟩⟩
      have shorter : sign ++ kept <+: sign ++ rest := (List.prefix_append_right_inj sign).mpr front
      exact longest other otherIsSymbol (starts.trans shorter)
  | word keyword =>
      obtain ⟨isKeyword, letters, spelled, rfl, ends⟩ := heads
      exact ⟨letters, rfl, fun kept front =>
        ⟨isKeyword, letters, spelled, rfl, ends.of_prefix front⟩⟩
  | number =>
      obtain ⟨decimal, scanned, finite⟩ := heads
      obtain ⟨numeral, rfl, cut⟩ := Decimal.scan_cut scanned
      exact ⟨numeral, rfl, fun kept front => ⟨decimal, cut kept front, finite⟩⟩
  | quoted =>
      obtain ⟨quote, isQuote, inside, absent, rfl⟩ := heads
      refine ⟨quote :: (inside ++ [quote]), by simp, fun kept _ => ?_⟩
      exact ⟨quote, isQuote, inside, absent, by simp⟩

/-- A text may be cut anywhere behind the tokens that it is made of. -/
theorem Spells.cut (spells : Spells tokens text rest) :
    ∃ taken, text = taken ++ rest ∧
      ∀ kept, kept <+: rest → Spells tokens (taken ++ kept) kept := by
  induction tokens generalizing text with
  | nil =>
      cases spells
      exact ⟨[], rfl, fun _ _ => rfl⟩
  | cons token tokens inductionHypothesis =>
      obtain ⟨behind, heads, later⟩ := spells
      obtain ⟨blanks, textEq, areBlank⟩ := exists_blanks text
      obtain ⟨first, firstEq, firstCut⟩ := heads.cut
      obtain ⟨others, rfl, othersCut⟩ := inductionHypothesis later
      refine ⟨blanks ++ (first ++ others), ?_, fun kept front => ?_⟩
      · rw [firstEq] at textEq
        simpa using textEq
      · have shorter : others ++ kept <+: others ++ rest :=
          (List.prefix_append_right_inj others).mpr front
        have headsKept := firstCut _ shorter
        refine ⟨others ++ kept, ?_, othersCut kept front⟩
        rwa [List.append_assoc, List.append_assoc, skipBlanks_append areBlank,
          headsKept.skipBlanks_eq]

end

/-! ## The first character that cannot be used -/

section

variable {source : String} {line column : Nat} {character : Char}

/-- Reading stops at a character behind an expression. -/
theorem exists_trailing_of_parse
    (failed : parse source =
      (.error (.unexpectedCharacter line column character) : Except ParseError (Expr Float))) :
    ∃ rest tail, after (expression : Reader (Expr Float)) source.toList = some rest ∧
      skipBlanks rest = character :: tail ∧
      place source.toList (character :: tail) = (line, column) := by
  unfold parse at failed
  dsimp only at failed
  split at failed
  · cases failed
  · split at failed
    · cases failed
    · next expr rest expressionEq =>
        split at failed
        · cases failed
        · next c tail restEq =>
            cases failed
            exact ⟨rest, tail, by rw [after, expressionEq]; rfl, restEq, rfl⟩

theorem place_append (before behind : List Char) :
    place (before ++ behind) behind = (lineAfter before, bytesIntoLine before + 1) := by
  unfold place readBefore
  rw [List.length_append, Nat.add_sub_cancel, List.take_left]

/-- What stands in front of that character is an expression, with or without blanks behind it. -/
theorem exists_before_of_parse
    (failed : parse source =
      (.error (.unexpectedCharacter line column character) : Except ParseError (Expr Float))) :
    ∃ before tail, source.toList = before ++ character :: tail ∧
      (lineAfter before, bytesIntoLine before + 1) = (line, column) ∧
      Accepts (String.ofList before) := by
  obtain ⟨rest, tail, taken, restEq, placeEq⟩ := exists_trailing_of_parse failed
  obtain ⟨tokens, derives, spells⟩ := covers_disjunction (covers_operand _) _ rest taken
  obtain ⟨front, sourceEq, cut⟩ := spells.cut
  obtain ⟨blanks, split, areBlank⟩ := exists_blanks rest
  rw [restEq] at split
  have beforeEq : source.toList = (front ++ blanks) ++ character :: tail := by
    rw [sourceEq, split, List.append_assoc]
  have spelled : Spelled tokens (String.ofList (front ++ blanks)) := by
    refine ⟨blanks, ?_, ?_⟩
    · rw [String.toList_ofList]
      exact cut blanks (split ▸ List.prefix_append blanks _)
    · simpa [skipBlanks] using skipBlanks_append areBlank []
  refine ⟨front ++ blanks, tail, beforeEq, ?_, ?_⟩
  · rw [beforeEq, place_append] at placeEq
    exact placeEq
  · exact accepts_iff_lenient.mpr ⟨tokens, spelled, derives⟩

/-- Line and column of an unexpected character are those of one byte offset alone. That offset is the
place of the character, and the text in front of it is an expression. -/
theorem parse_stops_at_character
    (failed : parse source =
      (.error (.unexpectedCharacter line column character) : Except ParseError (Expr Float))) :
    ∃ here : source.Pos,
      (∀ offset ≤ source.utf8ByteSize,
        (lineAt source offset = line ∧ columnAt source offset = column) ↔
          offset = here.offset.byteIdx) ∧
      (∃ notEnd : here ≠ source.endPos, here.get notEnd = character) ∧
      Accepts (source.sliceTo here).copy := by
  obtain ⟨before, tail, split, placeEq, accepted⟩ := exists_before_of_parse failed
  obtain ⟨rfl, rfl⟩ := Prod.mk.inj placeEq
  obtain ⟨here, offsetEq, isHere, frontEq⟩ := exists_pos split
  refine ⟨here, fun offset within => ?_, isHere, ?_⟩
  · rw [offsetEq]
    exact samePlace_iff split within
  · rwa [frontEq]

end

/-- Texts for kinds of soil, on two lines, and a sign that means nothing. -/
def loess : String :=
  "'Lehm',\n 'Löß' §"

/-- The sign is the ninth character of its line and the tenth byte. -/
theorem parse_stops_at_character_loess :
    parse loess =
        (.error (.unexpectedCharacter 2 10 '§') : Except ParseError (Expr Float)) ∧
      ∃ here : loess.Pos,
        (∀ offset ≤ loess.utf8ByteSize,
          (lineAt loess offset = 2 ∧ columnAt loess offset = 10) ↔ offset = 17) ∧
        here.offset.byteIdx = 17 ∧ (∃ notEnd : here ≠ loess.endPos, here.get notEnd = '§') ∧
        Accepts (loess.sliceTo here).copy := by
  have failed : parse loess =
      (.error (.unexpectedCharacter 2 10 '§') : Except ParseError (Expr Float)) := rfl
  obtain ⟨here, unique, isHere, accepted⟩ := parse_stops_at_character failed
  have placed : lineAt loess 17 = 2 ∧ columnAt loess 17 = 10 := by
    decide +kernel
  have hereEq : 17 = here.offset.byteIdx := (unique 17 (by decide +kernel)).mp placed
  rw [← hereEq] at unique
  exact ⟨failed, here, unique, hereEq.symm, isHere, accepted⟩

end FuzzyRating.Crisp
