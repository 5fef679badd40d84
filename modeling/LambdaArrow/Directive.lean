import LambdaArrow.Text.Blank

/-! What a line of a program asks for. The first character decides; a line that starts with none of
    the marks is a definition if `:=` stands in it, and else an expression. -/

namespace LambdaArrow

/-- What a line asks for: to define a name, to print an expression as a number, as a boolean or by its
    source, to print a label, to compute an expression, or nothing. -/
inductive Directive where
  | define (name expression : Text)
  | number (expression : Text)
  | boolean (expression : Text)
  | label (text : Text)
  | source (expression : Text)
  | compute (expression : Text)
  | nothing
  deriving DecidableEq

namespace Directive

/-- A line that starts with no mark. -/
def ofUnmarked (line : Text) : Directive :=
  match Text.cut? ":=".toList line with
  | some (name, expression) => .define (Text.trim name) (Text.trim expression)
  | none => .compute line

/-- Reads what a line asks for. -/
def parse (line : Text) : Directive :=
  match Text.trim line with
  | [] => .nothing
  | c :: rest =>
    if c = '#' then .number (Text.trim rest)
    else if c = '?' then .boolean (Text.trim rest)
    else if c = '@' then .label (Text.trim rest)
    else if c = '!' then .source (Text.trim rest)
    else ofUnmarked (c :: rest)

end Directive

end LambdaArrow
