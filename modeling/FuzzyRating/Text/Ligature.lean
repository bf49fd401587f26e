import FuzzyRating.Text.Columns

/-!
Letters that are written as one with the characters in front of them, so that both take fewer
columns than they do apart.
-/

namespace FuzzyRating.Text

/-- The letters of the Arabic joining group `Alef`. -/
def alefRanges : List (Nat × Nat) :=
  [(0x622, 0x623), (0x625, 0x625), (0x627, 0x627), (0x671, 0x673), (0x675, 0x675),
    (0x773, 0x774), (0x870, 0x882)]

/-- The letters of the Arabic joining group `Lam`. -/
def lamRanges : List (Nat × Nat) :=
  [(0x644, 0x644), (0x6B5, 0x6B8), (0x76A, 0x76A), (0x8A6, 0x8A6), (0x8C7, 0x8C7)]

/-- The Khmer letters that can be written below another one. -/
def subscriptRanges : List (Nat × Nat) :=
  [(0x1780, 0x1782), (0x1784, 0x1787), (0x1789, 0x178C), (0x178E, 0x1793), (0x1795, 0x1798),
    (0x179B, 0x179D), (0x17A0, 0x17A0), (0x17A2, 0x17A2), (0x17A7, 0x17A7), (0x17AB, 0x17AC),
    (0x17AF, 0x17AF)]

/-- The consonants of Tifinagh. -/
def tifinaghRanges : List (Nat × Nat) :=
  [(0x2D31, 0x2D65), (0x2D6F, 0x2D6F)]

/-- The characters that ligatures are seen through. -/
def transparentRanges : List (Nat × Nat) :=
  [(0x34F, 0x34F), (0x17B4, 0x17B5), (0x180B, 0x180D), (0x180F, 0x180F), (0x200D, 0x200D),
    (0xFE00, 0xFE0F), (0xE0100, 0xE01EF)]

/-- The characters without a column that end the joining of Arabic letters. -/
def separatingRanges : List (Nat × Nat) :=
  [(0x605, 0x605), (0x890, 0x891), (0x8E2, 0x8E2), (0x9BE, 0x9BE), (0x9D7, 0x9D7), (0xB3E, 0xB3E),
    (0xB57, 0xB57), (0xBBE, 0xBBE), (0xBD7, 0xBD7), (0xCC0, 0xCC0), (0xCC2, 0xCC2), (0xCC7, 0xCC8),
    (0xCCA, 0xCCB), (0xCD5, 0xCD6), (0xD3E, 0xD3E), (0xD4E, 0xD4E), (0xD57, 0xD57), (0xDCF, 0xDCF),
    (0xDDF, 0xDDF), (0x1160, 0x11FF), (0x1715, 0x1715), (0x1734, 0x1734), (0x180E, 0x180E),
    (0x1B35, 0x1B35), (0x1B3B, 0x1B3B), (0x1B3D, 0x1B3D), (0x1B43, 0x1B44), (0x1BAA, 0x1BAA),
    (0x1BF2, 0x1BF3), (0x200C, 0x200D), (0x2065, 0x2069), (0x302E, 0x302F), (0x3164, 0x3164),
    (0xA8FA, 0xA8FA), (0xA953, 0xA953), (0xA9C0, 0xA9C0), (0xD7B0, 0xD7C6), (0xD7CB, 0xD7FB),
    (0xFFA0, 0xFFA0), (0xFFF0, 0xFFF8), (0x10ECB, 0x10ECF), (0x111C0, 0x111C0), (0x111C2, 0x111C3),
    (0x11235, 0x11235), (0x1133E, 0x1133E), (0x1134D, 0x1134D), (0x11357, 0x11357),
    (0x113B8, 0x113B8), (0x113C2, 0x113C2), (0x113C5, 0x113C5), (0x113C7, 0x113C9),
    (0x113CF, 0x113CF), (0x113D1, 0x113D1), (0x114B0, 0x114B0), (0x114BD, 0x114BD),
    (0x115AF, 0x115AF), (0x116B6, 0x116B6), (0x11930, 0x11930), (0x1193D, 0x1193D),
    (0x1193F, 0x1193F), (0x11941, 0x11941), (0x11A84, 0x11A89), (0x11D46, 0x11D46),
    (0x11F02, 0x11F02), (0x11F41, 0x11F41), (0x16FF0, 0x16FF1), (0x1D165, 0x1D166),
    (0x1D16D, 0x1D172), (0x1D250, 0x1D252), (0x1D25F, 0x1D25F), (0x1D280, 0x1D281),
    (0xE0000, 0xE0000), (0xE0002, 0xE001F), (0xE0080, 0xE00FF), (0xE01F0, 0xE0FFF)]

/-- Whether a character lies between joined Arabic letters without parting them. -/
def isMark (c : Char) : Bool :=
  charWidth c == 0 && !inRanges separatingRanges c.toNat

/-- A letter that can be one with what stands in front of it. -/
inductive JoiningLetter where
  /-- An Arabic letter like `alef`, which is one with a letter like `lam`. -/
  | alef
  /-- The Hebrew letter `lamed`, which a joiner makes one with `alef`. -/
  | lamed
  /-- A Khmer letter, which the sign `coeng` puts below the letter before. -/
  | subscript
  /-- The Buginese letter `ya`, which a joiner makes one with the letter `a` and its vowel `i`. -/
  | ya
  /-- The letter `ya` with the vowel `i` joined on. -/
  | yaWithVowel
  /-- A Tifinagh consonant, which a joiner makes one with another. -/
  | tifinagh
  /-- A Tifinagh consonant behind the consonant joiner. -/
  | tifinaghJoined
  /-- The second of two Lisu tone letters. -/
  | lisuTone
  /-- The Old Turkic letter `i`, which a joiner makes one with `ec`. -/
  | orkhon
  /-- The Kirat Rai vowel sign `e`. -/
  | kiratE
  /-- The Kirat Rai vowel sign `ai`. -/
  | kiratAi
  deriving DecidableEq, Repr

namespace JoiningLetter

def ofChar? (c : Char) : Option JoiningLetter :=
  let n := c.toNat
  if inRanges alefRanges n then some alef
  else if n = 0x5DC then some lamed
  else if inRanges subscriptRanges n then some subscript
  else if n = 0x1A10 then some ya
  else if inRanges tifinaghRanges n then some tifinagh
  else if n = 0xA4FC ∨ n = 0xA4FD then some lisuTone
  else if n = 0x10C03 then some orkhon
  else if n = 0x16D67 then some kiratE
  else if n = 0x16D68 then some kiratAi
  else none

/-- Whether the letter is seen through style selectors in front of it. -/
def passesStyle (letter : JoiningLetter) : Bool :=
  letter != kiratE && letter != kiratAi

/-- Whether the letter is seen through joiners and other transparent characters in front of it. -/
def passesJoiner (letter : JoiningLetter) : Bool :=
  letter.passesStyle && letter != alef

/-- The columns that a character adds in front of a letter that it is one with, and the letter that
both are together, if it can join on. A joiner between the two makes the letter `linked`. -/
def join? (c : Char) (linked : Bool) : JoiningLetter → Option (Int × Option JoiningLetter)
  | alef =>
      if inRanges lamRanges c.toNat then some (0, none)
      else if isMark c then some (0, some alef)
      else none
  | lamed => if linked && c.toNat = 0x5D0 then some (0, none) else none
  | subscript => if c.toNat = 0x17D2 then some (-1, none) else none
  | ya => if linked && c.toNat = 0x1A17 then some (0, some yaWithVowel) else none
  | yaWithVowel => if c.toNat = 0x1A15 then some (0, none) else none
  | tifinagh =>
      if c.toNat = 0x2D7F then some (1, some tifinaghJoined)
      else if linked && inRanges tifinaghRanges c.toNat then some (0, none)
      else none
  | tifinaghJoined => if inRanges tifinaghRanges c.toNat then some (-1, none) else none
  | lisuTone => if 0xA4F8 ≤ c.toNat && c.toNat ≤ 0xA4FB then some (0, none) else none
  | orkhon => if linked && c.toNat = 0x10C32 then some (0, none) else none
  | kiratE =>
      if c.toNat = 0x16D63 ∨ c.toNat = 0x16D69 then some (0, none)
      else if c.toNat = 0x16D67 then some (0, some kiratAi)
      else if c.toNat = 0x16D68 then some (1, some kiratE)
      else none
  | kiratAi => if c.toNat = 0x16D63 then some (0, none) else none

end JoiningLetter

end FuzzyRating.Text
