import LambdaArrow.Sandbox.Script
import LambdaArrow.Text.Blank

/-! Scripts cut into words and operators. -/

namespace LambdaArrow.Script

/-- What a script is made of. A `broken` one tells what is wrong with the rest of the script. -/
inductive Shape where
  | word (parts : Word)
  | operator (text : Text)
  | redirect (stream : Nat) (direction : Direction)
  | newline
  | ending
  | broken (message : Text)
  deriving DecidableEq

/-- A piece of a script and the line it is on. -/
structure Lexeme where
  shape : Shape
  line : Nat
  deriving DecidableEq

/-- Which quotes a place is in. -/
inductive Quotes where
  | outside
  | single
  | double
  deriving DecidableEq

/-- Where the reader of a script is: in quotes or not, in a word or not, on a line, behind which lines
    are skipped because they were read before. -/
structure Reading where
  quotes : Quotes
  word : Option Word
  line : Nat
  skipped : Nat

namespace Reading

/-- Adds parts to the word. -/
def extend (reading : Reading) (parts : Word) : Reading :=
  { reading with word := some (reading.word.getD [] ++ parts) }

/-- Whether the place is in quotes. -/
def quoted (reading : Reading) : Bool := reading.quotes ≠ .outside

/-- Ends the word. -/
def afterWord (reading : Reading) : Reading := { reading with word := none }

/-- Puts the word, if any, in front of what follows. -/
def flush (reading : Reading) (later : List Lexeme) : List Lexeme :=
  reading.word.elim later fun parts => ⟨.word parts, reading.line⟩ :: later

/-- Opens quotes. -/
def openQuotes (reading : Reading) (quotes : Quotes) (empty : Bool) : Reading :=
  { reading.extend (if empty then [.emptyQuotes] else []) with quotes := quotes }

/-- Closes quotes. -/
def closeQuotes (reading : Reading) : Reading := { reading with quotes := .outside }

/-- Counts a line. -/
def nextLine (reading : Reading) : Reading :=
  { reading with line := reading.line + 1 + reading.skipped, skipped := 0 }

end Reading

/-- Names of parameters that are a single mark. -/
def isMark (c : Char) : Bool := c.isDigit || "@*#?$!-".toList.contains c

/-- Characters of the other names of parameters. -/
def isNameChar (c : Char) : Bool := c.isAlphanum || c = '_'

/-- The text up to the parenthesis that closes the `depth`-th one still open, and the text behind it. -/
def untilClosed (depth : Nat) : Text → Option (Text × Text)
  | [] => none
  | c :: cs =>
    if c = ')' ∧ depth ≤ 1 then some ([], cs)
    else
      let depth := if c = '(' then depth + 1 else if c = ')' then depth - 1 else depth
      (untilClosed depth cs).map fun (inside, rest) => (c :: inside, rest)

/-- The change that is written behind the name of a parameter. -/
def changeOf : Text → Change
  | ':' :: '-' :: text => .ifEmpty text
  | '-' :: text => .ifEmpty text
  | ':' :: '+' :: text => .ifFilled text
  | '+' :: text => .ifFilled text
  | ':' :: '=' :: text => .assign text
  | '=' :: text => .assign text
  | '%' :: '%' :: pattern => .dropEnd true pattern
  | '%' :: pattern => .dropEnd false pattern
  | '#' :: '#' :: pattern => .dropStart true pattern
  | '#' :: pattern => .dropStart false pattern
  | _ => .keep

/-- The parameter between braces. -/
def braced (quoted : Bool) (inside : Text) : Part :=
  match inside with
  | '#' :: c :: rest =>
    if isNameChar c then .parameter (c :: rest) .count quoted
    else .parameter ['#'] (changeOf (c :: rest)) quoted
  | c :: rest =>
    if isNameChar c then
      let name := if c.isDigit then inside.takeWhile Char.isDigit else inside.takeWhile isNameChar
      .parameter name (changeOf (inside.drop name.length)) quoted
    else .parameter [c] (changeOf rest) quoted
  | [] => .parameter [] .keep quoted

/-- The part behind a dollar sign and the rest of the text; `none` when the sign stands for itself. -/
def dollar? (quoted : Bool) (text : Text) : Option (Part × Text) :=
  match text with
  | [] => none
  | c :: rest =>
    if c = '\x7b' then
      match Text.cut? ['\x7d'] rest with
      | some (inside, rest) => some (braced quoted inside, rest)
      | none => none
    else if c = '(' then
      match untilClosed 1 rest with
      | some (inside, after) =>
        if inside.head? = some '(' ∧ inside.getLast? = some ')' then
          some (.computed inside.tail.dropLast quoted, after)
        else some (.output inside quoted, after)
      | none => none
    else if isMark c then some (.parameter [c] .keep quoted, rest)
    else if isNameChar c then
      some (.parameter (text.takeWhile isNameChar) .keep quoted, text.dropWhile isNameChar)
    else none

/-- Operators, longer ones first. -/
def operators : List Text :=
  ["&&".toList, "||".toList, ";;".toList, [';'], ['&'], ['|'], ['('], [')']]

/-- The operator at the start of a text, and the rest. -/
def operator? (text : Text) : Option (Text × Text) :=
  operators.findSome? fun operator => (operator.isPrefixOf? text).map fun rest => (operator, rest)

/-- Redirections, longer ones first, each with the stream it is for. -/
def directions : List (Text × Nat × Direction) :=
  [(">>".toList, 1, .appendTo), (">&".toList, 1, .copyOf), ("<&".toList, 0, .copyOf),
    (">|".toList, 1, .toFile), (['>'], 1, .toFile), (['<'], 0, .fromFile)]

/-- The redirection at the start of a text, and the rest. -/
def direction? (text : Text) : Option (Nat × Direction × Text) :=
  directions.findSome? fun (mark, stream, direction) =>
    (mark.isPrefixOf? text).map fun rest => (stream, direction, rest)

/-- A word that is the number of a stream, when a redirection follows it at once. -/
def stream? (word : Option Word) : Option Nat :=
  match word with
  | some [.char c false] => if c.isDigit then some (c.toNat - 48) else none
  | _ => none

/-- The quote that stands at both ends of a script whose output is asked for. -/
def backquote : Char := Char.ofNat 96

/-- What is wrong with quotes that are not closed. -/
def unterminated : Text := "Unterminated quoted string".toList

/-- What is wrong with a dollar sign whose brace or parenthesis is not closed; `none` for any other. -/
def unclosed? (text : Text) : Option Text :=
  match text with
  | '(' :: _ => some "end of file unexpected (expecting \")\")".toList
  | '\x7b' :: _ => some "Missing '\x7d'".toList
  | _ => none

/-- How many line feeds a text has. -/
def lineFeeds (text : Text) : Nat := text.count '\n'

/-- The word that ends a text inside a script: the text of it, whether it has quotes, and the rest. -/
def endMark (text : Text) : Text × Bool × Text :=
  let text := text.dropWhile fun c => c = ' ' || c = '\t'
  let isPart := fun (c : Char) => !(c = ' ' || c = '\t' || c = '\n' || c = ';' || c = '&' || c = '|' || c = ')')
  let isQuote := fun (c : Char) => c = '\'' || c = '"' || c = '\\'
  let word := text.takeWhile isPart
  (word.filter fun c => !isQuote c, word.any isQuote, text.dropWhile isPart)

/-- The lines up to the end mark, and the lines behind it. -/
def untilMark (mark : Text) (dropTabs : Bool) : List Text → List Text × List Text
  | [] => ([], [])
  | line :: rest =>
    let line := if dropTabs then line.dropWhile (· = '\t') else line
    if line = mark then ([], rest)
    else
      let (inside, after) := untilMark mark dropTabs rest
      (line :: inside, after)

/-- A text inside a script: the text, whether it is taken as written, the script without it, and how
    many lines it took. -/
def textInside (dropTabs : Bool) (text : Text) : Text × Bool × Text × Nat :=
  let (mark, verbatim, rest) := endMark text
  let sameLine := rest.takeWhile (· ≠ '\n')
  let below := (rest.dropWhile (· ≠ '\n')).tail
  let (inside, after) := untilMark mark dropTabs (below.splitOn '\n')
  let body := inside.flatMap (· ++ ['\n'])
  let after := ['\n'].intercalate after
  (body, verbatim, sameLine ++ '\n' :: after, lineFeeds below - lineFeeds after)

/-- Text that can stand in double quotes and means the same there. -/
def escapeQuotes (text : Text) : Text := text.flatMap fun c => if c = '"' then ['\\', c] else [c]

mutual

/-- The parts of a text as if it were in double quotes. -/
def quotedParts (fuel : Nat) (text : Text) : Word :=
  match fuel with
  | 0 => []
  | fuel + 1 =>
    match lex fuel ⟨.outside, none, 1, 0⟩ ('"' :: text ++ ['"']) with
    | ⟨.word parts, _⟩ :: _ => parts
    | _ => text.map (.char · true)

/-- Cuts the rest of a script, of at most `fuel` characters, into lexemes. -/
def lex : Nat → Reading → Text → List Lexeme
  | 0, reading, _ => reading.flush [⟨.ending, reading.line⟩]
  | _, reading, [] =>
    if reading.quoted then [⟨.broken unterminated, reading.line⟩]
    else reading.flush [⟨.ending, reading.line⟩]
  | fuel + 1, reading, c :: rest =>
    let counted := if c = '\n' then reading.nextLine else reading
    let plainly := fun (_ : Unit) => lex fuel (counted.extend [.char c reading.quoted]) rest
    if reading.quotes = .single then
      if c = '\'' then lex fuel reading.closeQuotes rest else plainly ()
    else if c = '$' then
      match dollar? reading.quoted rest with
      | some (part, rest) => lex fuel (reading.extend [part]) rest
      | none =>
        match unclosed? rest with
        | some message => [⟨.broken message, reading.line + lineFeeds rest⟩]
        | none => plainly ()
    else if c = backquote then
      match Text.cut? [backquote] rest with
      | some (inside, rest) => lex fuel (reading.extend [.output inside reading.quoted]) rest
      | none => [⟨.broken "EOF in backquote substitution".toList, reading.line⟩]
    else if c = '"' then
      if reading.quotes = .double then lex fuel reading.closeQuotes rest
      else lex fuel (reading.openQuotes .double (rest.head? = some '"')) rest
    else if c = '\\' then
      match rest with
      | [] => plainly ()
      | d :: rest' =>
        if d = '\n' then lex fuel reading.nextLine rest'
        else if reading.quotes = .double ∧ !("\"\\$`".toList.contains d) then plainly ()
        else lex fuel (reading.extend [.char d true]) rest'
    else if reading.quotes = .double then plainly ()
    else if c = '\'' then lex fuel (reading.openQuotes .single (rest.head? = some '\'')) rest
    else if c = '\n' then
      reading.flush (⟨.newline, reading.line⟩ :: lex fuel reading.nextLine.afterWord rest)
    else if c = ' ' ∨ c = '\t' then reading.flush (lex fuel reading.afterWord rest)
    else if c = '#' ∧ reading.word.isNone then lex fuel reading (rest.dropWhile (· ≠ '\n'))
    else if c = '<' ∧ rest.head? = some '<' then
      let dropTabs := rest.tail.head? = some '-'
      let (body, verbatim, rest, taken) := textInside dropTabs (rest.drop (if dropTabs then 2 else 1))
      let parts := if verbatim then body.map (.char · true) else quotedParts fuel (escapeQuotes body)
      reading.flush (⟨.redirect 0 .fromText, reading.line⟩ :: ⟨.word parts, reading.line⟩ ::
        lex fuel { reading.afterWord with skipped := taken } rest)
    else
      match direction? (c :: rest), operator? (c :: rest) with
      | some (stream, direction, rest), _ =>
        match stream? reading.word with
        | some number =>
          ⟨.redirect number direction, reading.line⟩ :: lex fuel reading.afterWord rest
        | none =>
          reading.flush (⟨.redirect stream direction, reading.line⟩ :: lex fuel reading.afterWord rest)
      | none, some (operator, rest) =>
        reading.flush (⟨.operator operator, reading.line⟩ :: lex fuel reading.afterWord rest)
      | none, none => plainly ()

end

/-- The lexemes of a script. -/
def lexemes (script : Text) : List Lexeme := lex (2 * script.length + 4) ⟨.outside, none, 1, 0⟩ script

/-- The parts of a text that is filled in as if it were in double quotes. -/
def partsOf (text : Text) : Word := quotedParts (2 * text.length + 4) text

end LambdaArrow.Script
