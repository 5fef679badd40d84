import LambdaArrow.Text.Blank
import LambdaArrow.Text.Line

/-! The lines of a program that matter. Two slashes start a comment, which reaches to the end of its
    line. Comments wait for the next line of code and go with it; comments that meet a blank line or
    the end of the program first stand on their own, in an entry without code. -/

namespace LambdaArrow

/-- Trimmed code with its line number, counted from one, and the comments that go with it. -/
structure CodeLine where
  number : Nat
  text : Text
  comments : List Text
  deriving DecidableEq

namespace CodeLine

/-- What starts a comment. -/
def commentMark : Text := ['/', '/']

/-- The trimmed code of a line, and its comment, which keeps its mark. -/
def parts (line : Text) : Text × Option Text :=
  match Text.cut? commentMark line with
  | some (code, comment) => (Text.trim code, some (Text.trimRight (commentMark ++ comment)))
  | none => (Text.trim line, none)

/-- The entry of comments that stand on their own, if there are any. -/
def alone (number : Nat) (comments : List Text) : List CodeLine :=
  if comments = [] then [] else [⟨number, [], comments⟩]

/-- The entries of the lines behind line `number`, where the comments `waiting` wait for code. -/
def collect (number : Nat) (waiting : List Text) : List Text → List CodeLine
  | [] => alone number waiting
  | line :: rest =>
    match parts line with
    | ([], some comment) => collect (number + 1) (waiting ++ [comment]) rest
    | ([], none) => alone (number + 1) waiting ++ collect (number + 1) [] rest
    | (code, comment) => ⟨number + 1, code, waiting⟩ :: collect (number + 1) comment.toList rest

/-- The entries of a program, in order. -/
def ofProgram (program : Text) : List CodeLine := collect 0 [] (Text.lines program)

end CodeLine

end LambdaArrow
