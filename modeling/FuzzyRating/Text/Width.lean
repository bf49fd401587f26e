import FuzzyRating.Text.Emoji
import FuzzyRating.Text.Ligature

/-!
The number of columns that a line of text takes in a table. Each character adds its own columns,
unless it is one with the characters behind it, as in ligatures and emoji sequences. So the line is
read from its end, and what stands behind a character decides what it adds.
-/

namespace FuzzyRating.Text

/-- What a text begins with, as far as a character in front of it can be one with it. -/
inductive Opening where
  | plain
  /-- A joining letter, `linked` if a joiner stands in front of it. -/
  | letter (letter : JoiningLetter) (linked : Bool)
  | emoji (tail : EmojiTail)
  deriving DecidableEq, Repr

/-- What stands behind a character: the style selectors first, then what they stand in front of. -/
structure Sequel where
  opening : Opening
  /-- Whether an emoji is asked for. -/
  emojiStyle : Bool := false
  /-- Whether the text form of an emoji is asked for. -/
  textStyle : Bool := false
  /-- Whether a quotation mark of two columns is asked for. -/
  wideStyle : Bool := false
  deriving DecidableEq, Repr

/-- The quotation marks with a wide form. -/
def quotationRanges : List (Nat × Nat) :=
  [(0x2018, 0x2019), (0x201C, 0x201D)]

namespace Opening

/-- What a character is by itself. -/
def ofChar (c : Char) : Opening :=
  match JoiningLetter.ofChar? c with
  | some found => letter found false
  | none =>
      match EmojiTail.ofChar? c with
      | some tail => emoji tail
      | none => plain

/-- Whether a style selector in front leaves a joining letter in view. -/
def passesStyle : Opening → Bool
  | letter found _ => found.passesStyle
  | _ => false

/-- Whether an emoji is joined on, so that one in front adds no columns. -/
def isJoined (opening : Opening) : Bool :=
  opening = emoji .joined || opening = emoji .joinedKeycap

end Opening

namespace Sequel

/-- Nothing that a character could be one with. -/
def plain : Sequel :=
  { opening := .plain }

/-- The sequel with a style selector in front, if that is what the character is. In front of a
joining letter it leaves the other selectors in force. -/
def select? (next : Sequel) (c : Char) : Option Sequel :=
  let passed := if next.opening.passesStyle then next else plain
  if c.toNat = 0xFE0F then
    some { (if next.opening.isJoined then next else passed) with emojiStyle := true }
  else if c.toNat = 0xFE0E then
    some { passed with textStyle := true }
  else if c.toNat = 0xFE01 then
    some { passed with wideStyle := true }
  else
    none

/-- The sequel for a character that makes no emoji with the selector in front. -/
def dropEmojiStyle (next : Sequel) : Sequel :=
  if next.emojiStyle then
    if next.opening.passesStyle then { next with emojiStyle := false } else plain
  else
    next

/-- What a character adds that is one with nothing behind it. -/
def alone (c : Char) : Int × Sequel :=
  (charWidth c, { opening := .ofChar c })

/-- What a character adds that no style in front of the sequel applies to. -/
def join (next : Opening) (c : Char) : Int × Sequel :=
  match next with
  | .plain => alone c
  | .letter letter linked =>
      if letter.passesJoiner && c = joiner then
        (0, { opening := .letter letter true })
      else if letter.passesJoiner && inRanges transparentRanges c.toNat then
        (0, { opening := next })
      else
        match letter.join? c linked with
        | some (columns, some letter) => (columns, { opening := .letter letter false })
        | some (columns, none) => (columns, plain)
        | none => alone c
  | .emoji tail =>
      match tail.join? c with
      | some (columns, tail) => (columns, { opening := .emoji tail })
      | none => alone c

/-- The columns that a character adds in front of `next`, and the sequel that both are for the
character in front of them. -/
def add (next : Sequel) (c : Char) : Int × Sequel :=
  if next.emojiStyle && takesEmojiStyle c then
    (if next.opening.isJoined then 0 else 2, { opening := .emoji .whole })
  else
    let next := next.dropEmojiStyle
    if c.toNat ≤ 0xA0 then
      alone c
    else
      match next.select? c with
      | some next => (0, next)
      | none =>
          if next.textStyle && takesTextStyle c then (1, plain)
          else if next.wideStyle && inRanges quotationRanges c.toNat then (2, plain)
          else join next.opening c

end Sequel

/-- The columns of the characters of a line, and what the line begins with. -/
def measure : List Char → Int × Sequel
  | [] => (0, .plain)
  | c :: rest =>
      let (columns, next) := measure rest
      let (added, next) := next.add c
      (columns + added, next)

/-- The columns that a line takes. -/
def width (text : String) : Nat :=
  (measure text.toList).1.toNat

end FuzzyRating.Text
