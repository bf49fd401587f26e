import FuzzyRating.Crisp.Expr
import FuzzyRating.Text.Letter
import FuzzyRating.Text.Position

/-!
Reading crisp expressions such as `>= 10 and x < 20`, `not in ('clay', 'loam')` or `"sand", "silt"`.

`or` binds weaker than `and`, and `and` weaker than `not`. Keywords may be in any case. A reader
takes the text from where it stands and returns what it read together with the rest of the text.
-/

namespace FuzzyRating.Crisp

open FuzzyRating.Text

/-- Why a text is not an expression, and the line and column where that shows. -/
inductive ParseError where
  /-- The text is empty or blank. -/
  | unexpectedEnd (line column : Nat)
  /-- An expression was read, and this character follows it. -/
  | unexpectedCharacter (line column : Nat) (character : Char)
  /-- No expression starts here. -/
  | noExpression (line column : Nat)
  deriving DecidableEq, Repr

namespace ParseError

def line : ParseError → Nat
  | unexpectedEnd line _ => line
  | unexpectedCharacter line _ _ => line
  | noExpression line _ => line

def column : ParseError → Nat
  | unexpectedEnd _ column => column
  | unexpectedCharacter _ column _ => column
  | noExpression _ column => column

def message (error : ParseError) : String :=
  let place := toString error.line ++ ":" ++ toString error.column
  match error with
  | unexpectedEnd _ _ => "unexpected end of input at " ++ place
  | unexpectedCharacter _ _ character =>
      "syntax error at " ++ place ++ ": unexpected character: '" ++ character.toString ++ "'"
  | noExpression _ _ =>
      "syntax error at " ++ place ++
        ": parse error: Parsing Error: ContextError \x7b context: [], cause: None \x7d"

end ParseError

/-- Reads a value off the front of a text, or fails. -/
abbrev Reader (alpha : Type) :=
  List Char → Option (alpha × List Char)

/-! ## Tokens -/

/-- What follows the characters of `symbol`. -/
def afterSymbol : List Char → List Char → Option (List Char)
  | [], text => some text
  | _ :: _, [] => none
  | s :: symbol, c :: text => if s = c then afterSymbol symbol text else none

/-- What follows the letters of `word` in either case. -/
def afterLetters : List Char → List Char → Option (List Char)
  | [], text => some text
  | _ :: _, [] => none
  | l :: word, c :: text => if l = c.toLower then afterLetters word text else none

/-- Whether a character would continue a word. -/
def isWordChar (c : Char) : Bool :=
  isLetterOrDigit c || c == '_'

/-- What follows a keyword that stands as a word of its own. -/
def afterWord (word : String) (text : List Char) : Option (List Char) :=
  match afterLetters word.toList text with
  | some (c :: rest) => if isWordChar c then none else some (c :: rest)
  | other => other

def afterOr (text : List Char) : Option (List Char) :=
  (afterSymbol ['|', '|'] text).or (afterWord "or" text)

def afterAnd (text : List Char) : Option (List Char) :=
  (afterSymbol ['&', '&'] text).or (afterWord "and" text)

/-- What follows a negation, which is `not` or a `!` that does not start a `!=`. -/
def afterNot : List Char → Option (List Char)
  | '!' :: '=' :: _ => none
  | '!' :: rest => some rest
  | text => afterWord "not" text

/-- The relation signs, each before those that it starts with. -/
def relationSigns : List (List Char × Relation) :=
  [(['>', '='], .ge), (['<', '='], .le), (['=', '='], .eq), (['!', '='], .ne), (['<', '>'], .ne),
    (['='], .eq), (['>'], .gt), (['<'], .lt)]

def relation : Reader Relation := fun text =>
  relationSigns.findSome? fun (sign, relation) =>
    (afterSymbol sign text).map fun rest => (relation, rest)

/-- A text up to the next `quote`, which is dropped. -/
def upTo (quote : Char) : Reader String := fun text =>
  match text.dropWhile (· != quote) with
  | _ :: rest => some (String.ofList (text.takeWhile (· != quote)), rest)
  | [] => none

/-- A text between quotes of either kind, within which nothing is escaped. -/
def quotedText : Reader String
  | '"' :: rest => upTo '"' rest
  | '\'' :: rest => upTo '\'' rest
  | _ => none

section

variable {num : Type} [Arith num]

/-- A numeral whose value is finite. -/
def number : Reader num := fun text =>
  match Decimal.scan text with
  | some (decimal, rest) =>
      let value := Arith.ofDecimal decimal
      if Arith.isFinite value then some (value, rest) else none
  | none => none

def literal : Reader (Literal num) := fun text =>
  match quotedText text with
  | some (value, rest) => some (.text value, rest)
  | none => (number text).map fun (value, rest) => (.number value, rest)

/-! ## Repetition -/

/-- At most `limit` values, one after the other, as long as they can be read. -/
def manyWithin {alpha : Type} (read : Reader alpha) : Nat → List Char → List alpha × List Char
  | 0, text => ([], text)
  | limit + 1, text =>
      match read text with
      | some (value, rest) =>
          let (values, rest) := manyWithin read limit rest
          (value :: values, rest)
      | none => ([], text)

/-- As many values as can be read one after the other. A reader that takes at least one character
each time cannot succeed more often than there are characters. -/
def many {alpha : Type} (read : Reader alpha) (text : List Char) : List alpha × List Char :=
  manyWithin read text.length text

/-- A value after a sign that blanks may precede. -/
def following {alpha : Type} (sign : List Char → Option (List Char)) (read : Reader alpha) :
    Reader alpha := fun text => do
  read (← sign (skipBlanks text))

/-- Values joined by `build`, or a single value as it is. -/
def chain (sign : List Char → Option (List Char)) (build : List (Expr num) → Expr num)
    (read : Reader (Expr num)) : Reader (Expr num) := fun text => do
  let (first, rest) ← read text
  match many (following sign read) rest with
  | ([], _) => some (first, rest)
  | (others, rest) => some (build (first :: others), rest)

/-- A value between parentheses, with blanks allowed inside them. -/
def parenthesized {alpha : Type} (read : Reader alpha) : Reader alpha := fun text => do
  let (value, rest) ← read (skipBlanks (← afterSymbol ['('] text))
  return (value, ← afterSymbol [')'] (skipBlanks rest))

/-! ## Expressions -/

/-- What follows a comma and the blanks around it. -/
def afterComma (text : List Char) : Option (List Char) :=
  (afterSymbol [','] text).map skipBlanks

/-- One or more literals with commas between them. -/
def literals : Reader (List (Literal num)) := fun text => do
  let (first, rest) ← literal text
  let (others, rest) := many (following afterComma literal) rest
  return (first :: others, rest)

/-- The text after an optional subject, `value` or `x`, and the blanks behind it. -/
def skipSubject (text : List Char) : List Char :=
  match (afterWord "value" text).or (afterWord "x" text) with
  | some rest => skipBlanks rest
  | none => text

/-- `in (…)` or `not in (…)`. -/
def membership : Reader (Expr num) := fun text => do
  let (negated, text) := match afterWord "not" text with
    | some rest => (true, skipBlanks rest)
    | none => (false, text)
  let (values, rest) ← parenthesized literals (skipBlanks (← afterWord "in" text))
  return (.membership negated values, rest)

/-- A relation sign and a literal. -/
def relational : Reader (Expr num) := fun text => do
  let (relation, rest) ← relation text
  let (value, rest) ← literal (skipBlanks rest)
  return (.compare relation value, rest)

/-- Literals on their own stand for membership in them. -/
def bareLiterals : Reader (Expr num) := fun text => do
  let (values, rest) ← literals text
  return (.membership false values, rest)

/-- A condition without connectives. -/
def comparison : Reader (Expr num) := fun text =>
  let text := skipSubject text
  (membership text).or ((relational text).or (bareLiterals text))

/-- Operands joined by `and`. -/
def conjunction (operand : Reader (Expr num)) : Reader (Expr num) :=
  chain afterAnd .and operand

/-- Conjunctions joined by `or`. -/
def disjunction (operand : Reader (Expr num)) : Reader (Expr num) :=
  chain afterOr .or (conjunction operand)

/-- A group, a comparison or a negation, in which groups and negations nest less than `depth`
deep. -/
def operand : Nat → Reader (Expr num)
  | 0 => fun _ => none
  | depth + 1 => fun text =>
      let text := skipBlanks text
      (parenthesized (disjunction (operand depth)) text).or <|
        (comparison text).or <| do
          let (inner, rest) ← operand depth (← afterNot text)
          return (.not inner, rest)

/-- An expression. Each level of nesting takes a character, so the length of the text bounds the
depth. -/
def expression : Reader (Expr num) := fun text =>
  disjunction (operand (text.length + 1)) text

/-- Where reading stops when a text does not start with an expression: after the blanks and
negations in front. -/
def stuckAt (text : List Char) : List Char :=
  skipBlanks (many (fun text => (afterNot (skipBlanks text)).map ((), ·)) text).2

/-- Line and column of the place where `rest` is left of `text`. -/
def place (text rest : List Char) : Nat × Nat :=
  let read := readBefore text rest
  (lineAfter read, bytesIntoLine read + 1)

/-- Reads a whole text as a crisp expression. -/
def parse (source : String) : Except ParseError (Expr num) :=
  let text := source.toList
  if (skipBlanks text).isEmpty then
    let (line, column) := place text []
    .error (.unexpectedEnd line column)
  else
    match expression text with
    | none =>
        let (line, column) := place text (stuckAt text)
        .error (.noExpression line column)
    | some (expr, rest) =>
        match skipBlanks rest with
        | [] => .ok expr
        | c :: rest =>
            let (line, column) := place text (c :: rest)
            .error (.unexpectedCharacter line column c)

end

end FuzzyRating.Crisp
