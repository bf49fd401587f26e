import FuzzyRating.Text.Width

/-!
Tables of text with a frame around them. Columns are as wide as their widest cell, and a cell may
hold several lines.
-/

namespace FuzzyRating

/-- A table. Every row has as many cells as the header. -/
structure Table where
  header : List String
  rows : List (List String)
  deriving Repr

namespace Table

def cellLines (cell : String) : List String :=
  cell.splitOn "\n"

def cellWidth (cell : String) : Nat :=
  ((cellLines cell).map Text.width).foldl max 0

/-- The widths of the columns. -/
def widths (table : Table) : List Nat :=
  table.rows.foldl (fun widths row => List.zipWith max widths (row.map cellWidth))
    (table.header.map cellWidth)

/-- A line of a cell, filled up to its width, with a space on either side. -/
def padded (width : Nat) (line : String) : String :=
  " " ++ line ++ String.ofList (List.replicate (width - Text.width line) ' ') ++ " "

/-- The lines of a row, as many as its tallest cell has. -/
def rowLines (widths : List Nat) (row : List String) : List String :=
  let cells := row.map cellLines
  let height := (cells.map List.length).foldl max 0
  (List.range height).map fun i =>
    let pieces := List.zipWith padded widths (cells.map fun lines => lines.getD i "")
    "│" ++ " ".intercalate pieces ++ "│"

/-- A line across the table. -/
def rule (left middle right : Char) (widths : List Nat) : String :=
  let inside := widths.foldl (fun total width => total + width + 2) (widths.length - 1)
  String.ofList (left :: (List.replicate inside middle ++ [right]))

def lines (table : Table) : List String :=
  let widths := table.widths
  rule '┌' '─' '┐' widths :: rowLines widths table.header ++
    rule '╞' '═' '╡' widths :: table.rows.flatMap (rowLines widths) ++
    [rule '└' '─' '┘' widths]

def render (table : Table) : String :=
  "\n".intercalate table.lines

end Table

end FuzzyRating
