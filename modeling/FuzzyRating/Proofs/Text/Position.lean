import FuzzyRating.Text.Position
import Mathlib.Data.List.DropRight

/-!
Lines and columns of byte offsets. Different offsets of a text differ in their line or in their
column, and the place given by the characters read so far is that of the offset behind their bytes.
-/

namespace FuzzyRating.Text

/-- The byte that ends a line. -/
def newline : UInt8 :=
  10

def bytes (source : String) : List UInt8 :=
  source.toByteArray.data.toList

/-- The line of a byte offset: one plus the newlines before it. -/
def lineAt (source : String) (offset : Nat) : Nat :=
  ((bytes source).take offset).count newline + 1

/-- The column of a byte offset: one plus the bytes since the last newline before it. -/
def columnAt (source : String) (offset : Nat) : Nat :=
  (((bytes source).take offset).rtakeWhile (· != newline)).length + 1

/-- Bytes without a newline go on with the line that they stand on. -/
theorem length_lastLine_append {front middle : List UInt8} (noNewline : newline ∉ middle) :
    ((front ++ middle).rtakeWhile (· != newline)).length =
      (front.rtakeWhile (· != newline)).length + middle.length := by
  have solid : ∀ byte ∈ middle.reverse, (byte != newline) = true := by
    intro byte member
    rw [bne_iff_ne]
    rintro rfl
    exact noNewline (List.mem_reverse.mp member)
  unfold List.rtakeWhile
  rw [List.reverse_append, List.takeWhile_append_of_pos solid, List.reverse_append,
    List.reverse_reverse, List.length_append]

/-! ## Offsets by their places -/

section

variable {source : String} {i j : Nat}

/-- Along a line every byte takes a column. -/
theorem columnAt_of_sameLine (inOrder : i ≤ j) (within : j ≤ (bytes source).length)
    (sameLine : lineAt source i = lineAt source j) :
    columnAt source j = columnAt source i + (j - i) := by
  let middle := ((bytes source).drop i).take (j - i)
  have split : (bytes source).take j = (bytes source).take i ++ middle := by
    rw [← List.take_add, Nat.add_sub_cancel' inOrder]
  have middleLength : middle.length = j - i := by
    rw [List.length_take, List.length_drop]
    omega
  have noNewline : newline ∉ middle := by
    unfold lineAt at sameLine
    rw [split, List.count_append] at sameLine
    exact List.count_eq_zero.mp (by omega)
  unfold columnAt
  rw [split, length_lastLine_append noNewline, middleLength, Nat.add_right_comm]

/-- An offset is known from its line and its column. -/
theorem offset_eq_of_samePlace (iWithin : i ≤ (bytes source).length)
    (jWithin : j ≤ (bytes source).length) (sameLine : lineAt source i = lineAt source j)
    (sameColumn : columnAt source i = columnAt source j) : i = j := by
  rcases Nat.le_total i j with inOrder | inOrder
  · have columns := columnAt_of_sameLine inOrder jWithin sameLine
    omega
  · have columns := columnAt_of_sameLine inOrder iWithin sameLine.symm
    omega

end

/-! ## Places by the characters in front -/

theorem utf8EncodeChar_newline : String.utf8EncodeChar '\n' = [newline] := by
  decide

/-- The byte of a newline is part of no other character. -/
theorem newline_not_mem_utf8EncodeChar {c : Char} (other : c ≠ '\n') :
    newline ∉ String.utf8EncodeChar c := by
  have otherValue : c.val.toNat ≠ 10 := by
    intro same
    exact other (Char.ext (UInt32.toNat_inj.mp same))
  have ne_of_mod {value : Nat} (different : value % 256 ≠ 10) : newline ≠ UInt8.ofNat value := by
    intro same
    rw [← UInt8.toNat_inj, UInt8.toNat_ofNat'] at same
    exact different same.symm
  unfold String.utf8EncodeChar
  dsimp only
  split
  · rw [List.mem_singleton]
    exact ne_of_mod (by omega)
  · -- the bytes of a longer character are all beyond those of ASCII
    split
    · simp only [List.mem_cons, List.not_mem_nil, or_false, not_or]
      exact ⟨ne_of_mod (by omega), ne_of_mod (by omega)⟩
    · split
      · simp only [List.mem_cons, List.not_mem_nil, or_false, not_or]
        exact ⟨ne_of_mod (by omega), ne_of_mod (by omega), ne_of_mod (by omega)⟩
      · simp only [List.mem_cons, List.not_mem_nil, or_false, not_or]
        exact ⟨ne_of_mod (by omega), ne_of_mod (by omega), ne_of_mod (by omega),
          ne_of_mod (by omega)⟩

theorem bytes_ofList (text : List Char) :
    bytes (String.ofList text) = text.flatMap String.utf8EncodeChar := by
  unfold bytes
  rw [String.toByteArray_ofList, List.utf8Encode, List.toList_data_toByteArray]

theorem length_bytes (source : String) : (bytes source).length = source.utf8ByteSize := by
  rw [← String.size_toByteArray]
  rfl

theorem count_newline_bytes (text : List Char) :
    (bytes (String.ofList text)).count newline = text.count '\n' := by
  rw [bytes_ofList]
  induction text with
  | nil => rfl
  | cons c text inductionHypothesis =>
      rw [List.flatMap_cons, List.count_append, inductionHypothesis]
      by_cases isNewline : c = '\n'
      · rw [isNewline, utf8EncodeChar_newline, List.count_singleton_self, List.count_cons_self,
          Nat.add_comm]
      · rw [List.count_eq_zero.mpr (newline_not_mem_utf8EncodeChar isNewline),
          List.count_cons_of_ne isNewline, Nat.zero_add]

theorem length_lastLine_bytes (text : List Char) :
    ((bytes (String.ofList text)).rtakeWhile (· != newline)).length = bytesIntoLine text := by
  induction text using List.reverseRecOn with
  | nil => rfl
  | append_singleton text c inductionHypothesis =>
      have whole : bytes (String.ofList (text ++ [c])) =
          bytes (String.ofList text) ++ String.utf8EncodeChar c := by
        rw [bytes_ofList, bytes_ofList, List.flatMap_append, List.flatMap_singleton]
      unfold bytesIntoLine at inductionHypothesis ⊢
      rw [whole, List.reverse_append, List.reverse_singleton, List.singleton_append]
      by_cases isNewline : c = '\n'
      · rw [isNewline, utf8EncodeChar_newline, List.rtakeWhile_concat_neg _ _ _ (by simp)]
        rfl
      · rw [length_lastLine_append (newline_not_mem_utf8EncodeChar isNewline), inductionHypothesis,
          List.takeWhile_cons_of_pos (by simpa using isNewline), ← length_bytes, ← length_bytes,
          bytes_ofList, bytes_ofList, List.flatMap_cons, List.length_append, Nat.add_comm]

section

variable {source : String} {before behind : List Char}

/-- What is read in front of a place ends at the offset behind its bytes. -/
theorem take_bytes (split : source.toList = before ++ behind) :
    (bytes source).take (String.ofList before).utf8ByteSize = bytes (String.ofList before) := by
  have whole : bytes source = bytes (String.ofList before) ++ bytes (String.ofList behind) := by
    rw [bytes_ofList, bytes_ofList, ← List.flatMap_append, ← split, ← bytes_ofList,
      String.ofList_toList]
  rw [whole, ← length_bytes, List.take_left]

theorem lineAt_eq_lineAfter (split : source.toList = before ++ behind) :
    lineAt source (String.ofList before).utf8ByteSize = lineAfter before := by
  unfold lineAt lineAfter
  rw [take_bytes split, count_newline_bytes]

theorem columnAt_eq_bytesIntoLine (split : source.toList = before ++ behind) :
    columnAt source (String.ofList before).utf8ByteSize = bytesIntoLine before + 1 := by
  unfold columnAt
  rw [take_bytes split, length_lastLine_bytes]

/-- The place behind some characters is that of one byte offset alone. -/
theorem samePlace_iff (split : source.toList = before ++ behind) {offset : Nat}
    (within : offset ≤ source.utf8ByteSize) :
    (lineAt source offset = lineAfter before ∧ columnAt source offset = bytesIntoLine before + 1) ↔
      offset = (String.ofList before).utf8ByteSize := by
  rw [← lineAt_eq_lineAfter split, ← columnAt_eq_bytesIntoLine split]
  constructor
  · rintro ⟨sameLine, sameColumn⟩
    have ends : (String.ofList before).utf8ByteSize ≤ (bytes source).length := by
      rw [length_bytes, ← String.ofList_toList (s := source), split, String.ofList_append,
        String.utf8ByteSize_append]
      exact Nat.le_add_right _ _
    rw [← length_bytes] at within
    exact offset_eq_of_samePlace within ends sameLine sameColumn
  · rintro rfl
    exact ⟨rfl, rfl⟩

/-- In front of every character of a text is a place where it can be taken apart. -/
theorem exists_pos {c : Char} {tail : List Char} (split : source.toList = before ++ c :: tail) :
    ∃ here : source.Pos, here.offset.byteIdx = (String.ofList before).utf8ByteSize ∧
      (∃ notEnd : here ≠ source.endPos, here.get notEnd = c) ∧
      (source.sliceTo here).copy = String.ofList before := by
  have parts : source = String.ofList before ++ (String.singleton c ++ String.ofList tail) := by
    rw [← String.ofList_cons, ← String.ofList_append, ← split, String.ofList_toList]
  have splits := String.Pos.splits_ofEqAppend parts
  have notEnd := splits.ne_endPos_of_singleton
  obtain ⟨others, isHead⟩ := splits.exists_eq_singleton_append notEnd
  exact ⟨_, congrArg String.Pos.Raw.byteIdx splits.offset_eq_rawEndPos,
    ⟨notEnd, (String.singleton_append_inj.mp isHead).1.symm⟩, splits.copy_sliceTo_eq⟩

end

end FuzzyRating.Text
