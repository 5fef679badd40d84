import LambdaArrow.Date
import LambdaArrow.Text.Line

/-! A compiled program: lines of JavaScript under a header that tells the day. Statements may call two
    helper functions, so the helpers stand before the first statement, or last when there is none. -/

namespace LambdaArrow

/-- What a line of a compiled program is. -/
inductive Program.Line.Kind where
  | comment
  | definition
  | statement
  deriving DecidableEq

/-- A line of a compiled program. -/
structure Program.Line where
  kind : Program.Line.Kind
  text : Text
  deriving DecidableEq

/-- The day of compilation and the compiled lines. -/
structure Program where
  date : Date
  lines : List Program.Line
  deriving DecidableEq

namespace Program

/-- Turns a Church numeral into a number, by counting from zero. -/
def toNumber : Text :=
  "function toNumber(church) \x7b\n  return church(n => n + 1)(0);\n\x7d".toList

/-- Turns a Church boolean into its name, by choosing between two. -/
def toBoolean : Text :=
  "function toBoolean(church) \x7b\n  return church(\"True\")(\"False\");\n\x7d".toList

/-- The functions that statements may call. -/
def helpers : List Text := [toNumber, toBoolean]

/-- The texts of the lines, with the helpers before the first statement or last. -/
def withHelpers : List Program.Line → List Text
  | [] => helpers
  | line :: rest =>
    if line.kind = .statement then helpers ++ (line :: rest).map (·.text)
    else line.text :: withHelpers rest

/-- A program without lines. -/
def empty (date : Date) : Program := ⟨date, []⟩

/-- Adds a line at the end. -/
def push (program : Program) (line : Program.Line) : Program :=
  ⟨program.date, program.lines ++ [line]⟩

/-- The comment that tells the day. -/
def header (program : Program) : Text :=
  "// Compiled on ".toList ++ program.date.toText ++ " from λ calculus".toList

/-- The text of a program. -/
def render (program : Program) : Text :=
  Text.unlines (program.header :: withHelpers program.lines)

end Program

end LambdaArrow
