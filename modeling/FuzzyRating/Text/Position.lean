/-!
Lines and columns. A place in a text is given by the text read so far.
-/

namespace FuzzyRating.Text

/-- The text in front of `rest`, which is an end of `text`. -/
def readBefore (text rest : List Char) : List Char :=
  text.take (text.length - rest.length)

/-- The line on which the next character stands, counted from one. -/
def lineAfter (read : List Char) : Nat :=
  read.count '\n' + 1

/-- The number of bytes read on the current line. -/
def bytesIntoLine (read : List Char) : Nat :=
  (String.ofList (read.reverse.takeWhile (· != '\n'))).utf8ByteSize

end FuzzyRating.Text
