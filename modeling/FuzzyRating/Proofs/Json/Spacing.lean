import FuzzyRating.Json.Scan
import FuzzyRating.Json.Value
import FuzzyRating.Proofs.Decimal.Numeral

/-!
The two ways to write a value, with and without line breaks, taken as one: what stands in front of the
items of a list or an object, behind its last item, and behind a colon.
-/

namespace FuzzyRating.Json

/-- Characters that may stand between the pieces of a text. -/
def Blank (text : List Char) : Prop :=
  ∀ c ∈ text, isSpace c = true

inductive Spacing where
  | compact
  | pretty (level : Nat)

namespace Spacing

/-- The spacing one level further in. -/
def inner : Spacing → Spacing
  | compact => compact
  | pretty level => pretty (level + 1)

/-- What stands in front of an item. -/
def gap : Spacing → List Char
  | compact => []
  | pretty level => lineBreak (level + 1)

/-- What stands behind the last item. -/
def behind : Spacing → List Char
  | compact => []
  | pretty level => lineBreak level

def colon : Spacing → List Char
  | compact => []
  | pretty _ => [' ']

/-- Pieces in brackets. -/
def bracketed (spacing : Spacing) (opening closing : Char) (pieces : List (List Char)) :
    List Char :=
  if pieces.isEmpty then
    [opening, closing]
  else
    opening :: (spacing.gap ++ separated (',' :: spacing.gap) pieces ++ spacing.behind ++ [closing])

end Spacing

def Value.textIn : Spacing → Value → List Char
  | .compact, value => value.compactText
  | .pretty level, value => value.prettyText level

theorem compactItems_eq_map (items : List Value) :
    Value.compactItems items = items.map (Value.textIn .compact) := by
  induction items with
  | nil => rfl
  | cons item items inductionHypothesis =>
      rw [Value.compactItems, inductionHypothesis]
      rfl

theorem prettyItems_eq_map (level : Nat) (items : List Value) :
    Value.prettyItems level items = items.map (Value.textIn (.pretty level)) := by
  induction items with
  | nil => rfl
  | cons item items inductionHypothesis =>
      rw [Value.prettyItems, inductionHypothesis]
      rfl

/-- A member with its key. -/
def memberText (spacing : Spacing) (member : String × Value) : List Char :=
  stringText member.1 ++ ':' :: (spacing.colon ++ member.2.textIn spacing.inner)

theorem compactMembers_eq_map (members : List (String × Value)) :
    Value.compactMembers members = members.map (memberText .compact) := by
  induction members with
  | nil => rfl
  | cons member members inductionHypothesis =>
      rw [Value.compactMembers, inductionHypothesis]
      rfl

theorem prettyMembers_eq_map (level : Nat) (members : List (String × Value)) :
    Value.prettyMembers (level + 1) members = members.map (memberText (.pretty level)) := by
  induction members with
  | nil => rfl
  | cons member members inductionHypothesis =>
      rw [Value.prettyMembers, inductionHypothesis]
      rfl

namespace Spacing

theorem bracketed_compact (opening closing : Char) (pieces : List (List Char)) :
    compact.bracketed opening closing pieces =
      opening :: (separated [','] pieces ++ [closing]) := by
  cases pieces with
  | nil => rfl
  | cons piece pieces => simp [bracketed, gap, behind]

theorem textIn_array (spacing : Spacing) (items : List Value) :
    (Value.array items).textIn spacing =
      spacing.bracketed '[' ']' (items.map (Value.textIn spacing.inner)) := by
  cases spacing with
  | compact =>
      rw [bracketed_compact, Value.textIn, Value.compactText, compactItems_eq_map]
      rfl
  | pretty level =>
      rw [Value.textIn, Value.prettyText, prettyItems_eq_map]
      rfl

theorem textIn_object (spacing : Spacing) (members : List (String × Value)) :
    (Value.object members).textIn spacing =
      spacing.bracketed '{' '}' (members.map (memberText spacing)) := by
  cases spacing with
  | compact =>
      rw [bracketed_compact, Value.textIn, Value.compactText, compactMembers_eq_map]
  | pretty level =>
      rw [Value.textIn, Value.prettyText, prettyMembers_eq_map]
      rfl

/-! ## Spaces are skipped -/

theorem isSpace_of_mem_lineBreak {level : Nat} {c : Char} (member : c ∈ lineBreak level) :
    isSpace c = true := by
  rw [lineBreak, List.mem_cons, List.mem_replicate] at member
  obtain rfl | ⟨_, rfl⟩ := member <;> rfl

theorem blank_gap (spacing : Spacing) : Blank spacing.gap := by
  cases spacing with
  | compact => exact List.forall_mem_nil _
  | pretty level => exact fun _ => isSpace_of_mem_lineBreak

theorem blank_behind (spacing : Spacing) : Blank spacing.behind := by
  cases spacing with
  | compact => exact List.forall_mem_nil _
  | pretty level => exact fun _ => isSpace_of_mem_lineBreak

theorem blank_colon (spacing : Spacing) : Blank spacing.colon := by
  cases spacing with
  | compact => exact List.forall_mem_nil _
  | pretty level => exact List.forall_mem_cons.mpr ⟨rfl, List.forall_mem_nil _⟩

/-! ## Behind the first item -/

/-- The items behind the first one, with a comma in front of each. -/
def later (spacing : Spacing) (pieces : List (List Char)) : List Char :=
  pieces.flatMap fun piece => ',' :: (spacing.gap ++ piece)

theorem later_cons (spacing : Spacing) (piece : List Char) (pieces : List (List Char)) :
    spacing.later (piece :: pieces) = ',' :: (spacing.gap ++ (piece ++ spacing.later pieces)) := by
  rw [later, List.flatMap_cons, List.cons_append, List.append_assoc]
  rfl

theorem separated_cons (spacing : Spacing) (piece : List Char) (pieces : List (List Char)) :
    separated (',' :: spacing.gap) (piece :: pieces) = piece ++ spacing.later pieces := by
  induction pieces generalizing piece with
  | nil => exact (List.append_nil piece).symm
  | cons next pieces inductionHypothesis =>
      rw [separated, inductionHypothesis, later_cons, List.append_assoc, List.cons_append]
      exact List.cons_ne_nil next pieces

theorem length_le_later (spacing : Spacing) (pieces : List (List Char)) :
    pieces.length ≤ (spacing.later pieces).length := by
  induction pieces with
  | nil => exact Nat.le_refl 0
  | cons piece pieces inductionHypothesis =>
      rw [later_cons, List.length_cons, List.length_cons, List.length_append, List.length_append]
      omega

/-- What follows an item: the items behind it, and the closing bracket. -/
def following (spacing : Spacing) (closing : Char) (pieces : List (List Char)) (tail : List Char) :
    List Char :=
  spacing.later pieces ++ (spacing.behind ++ closing :: tail)

theorem following_nil (spacing : Spacing) (closing : Char) (tail : List Char) :
    spacing.following closing [] tail = spacing.behind ++ closing :: tail :=
  rfl

theorem following_cons (spacing : Spacing) (closing : Char) (piece : List Char)
    (pieces : List (List Char)) (tail : List Char) :
    spacing.following closing (piece :: pieces) tail =
      ',' :: (spacing.gap ++ (piece ++ spacing.following closing pieces tail)) := by
  rw [following, later_cons, List.cons_append, List.append_assoc, List.append_assoc]
  rfl

theorem length_lt_following (spacing : Spacing) (closing : Char) (pieces : List (List Char))
    (tail : List Char) : pieces.length < (spacing.following closing pieces tail).length := by
  have laterLength := spacing.length_le_later pieces
  rw [following, List.length_append, List.length_append, List.length_cons]
  omega

/-- A number ends where a comma, a line break or a bracket stands. -/
theorem ends_following (spacing : Spacing) (closing : Char)
    (ends : Decimal.continuesNumeral closing = false) (pieces : List (List Char))
    (tail : List Char) :
    Ends Decimal.continuesNumeral (spacing.following closing pieces tail) := by
  cases pieces with
  | nil =>
      cases spacing with
      | compact => exact Ends.cons ends
      | pretty level => exact Ends.cons rfl
  | cons piece pieces => exact Ends.cons rfl

theorem exists_bracketed (spacing : Spacing) (opening closing : Char) (pieces : List (List Char)) :
    ∃ inside, spacing.bracketed opening closing pieces = opening :: inside := by
  unfold bracketed
  split
  · exact ⟨_, rfl⟩
  · exact ⟨_, rfl⟩

theorem bracketed_cons_append (spacing : Spacing) (opening closing : Char) (piece : List Char)
    (pieces : List (List Char)) (tail : List Char) :
    spacing.bracketed opening closing (piece :: pieces) ++ tail =
      opening :: (spacing.gap ++ (piece ++ spacing.following closing pieces tail)) := by
  rw [bracketed, separated_cons]
  simp [following]

end Spacing

end FuzzyRating.Json
