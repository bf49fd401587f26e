/-!
White space as the Unicode property `White_Space` has it, and the texts left when blanks are
taken off an end.
-/

namespace FuzzyRating.Text

/-- The twenty-five characters with the Unicode property `White_Space`. -/
def isBlank (c : Char) : Bool :=
  let n := c.toNat
  (0x9 ≤ n && n ≤ 0xD) || n == 0x20 || n == 0x85 || n == 0xA0 || n == 0x1680 ||
    (0x2000 ≤ n && n ≤ 0x200A) || n == 0x2028 || n == 0x2029 || n == 0x202F ||
    n == 0x205F || n == 0x3000

/-- Drops the blanks in front. -/
def skipBlanks (text : List Char) : List Char :=
  text.dropWhile isBlank

/-- Drops the blanks at the end. -/
def dropBlanksEnd (text : List Char) : List Char :=
  (skipBlanks text.reverse).reverse

/-- Drops the blanks at both ends. -/
def trim (text : String) : String :=
  String.ofList (dropBlanksEnd (skipBlanks text.toList))

/-- Turns the letters `A` to `Z` into `a` to `z` and leaves every other character. -/
def lowerAscii (text : String) : String :=
  String.ofList (text.toList.map Char.toLower)

end FuzzyRating.Text
