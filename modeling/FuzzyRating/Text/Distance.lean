/-!
Edit distance between two texts, counted in characters, and the names worth suggesting for a
name that was not found.
-/

namespace FuzzyRating.Text

/-- One row of the distance table from the row above it. The entry to the left of the first new
one is `left`, and `above` starts with the entry above `left`. -/
def distanceRow (a : Char) (left : Nat) : List Char → List Nat → List Nat
  | b :: bs, corner :: up :: above =>
      let entry :=
        min (min (left + 1) (up + 1)) (corner + if a = b then 0 else 1)
      entry :: distanceRow a entry bs (up :: above)
  | _, _ => []

/-- The next row with its first entry, which counts the characters of the source read so far. -/
def nextRow (target : List Char) (row : List Nat) (a : Char) : List Nat :=
  let first := row.headD 0 + 1
  first :: distanceRow a first target row

/-- The least number of insertions, deletions and replacements of single characters that turn
`source` into `target`. -/
def distance (source target : List Char) : Nat :=
  (source.foldl (nextRow target) (List.range (target.length + 1))).getLastD 0

/-- How far a suggestion may be from a key: one edit when the key takes at most three bytes, two
when it is longer. -/
def suggestionReach (key : String) : Nat :=
  if key.utf8ByteSize ≤ 3 then 1 else 2

/-- Nearer names come first, names equally near in text order. -/
def suggestionOrder (a b : Nat × String) : Bool :=
  a.1 < b.1 || (a.1 == b.1 && decide (a.2 ≤ b.2))

/-- At most three of the available names that differ from the key and lie within its reach,
nearest first. -/
def suggestions (key : String) (available : List String) : List String :=
  let near := available.filterMap fun name =>
    let edits := distance key.toList name.toList
    if name ≠ key ∧ edits ≤ suggestionReach key then some (edits, name) else none
  ((near.mergeSort suggestionOrder).take 3).map Prod.snd

end FuzzyRating.Text
