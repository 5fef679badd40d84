import LambdaArrow.Directive
import LambdaArrow.Log
import LambdaArrow.Program
import LambdaArrow.CodeLine
import LambdaArrow.Term.Arrow
import LambdaArrow.Term.Parser
import LambdaArrow.Text.Quoted

/-! Compiling the lines of a program, strictly in order. A line sees the definitions of the lines before
    it; the first line that fails ends the run, and what is defined by then stays. So a directive hands back
    the definitions whether it fails or not. -/

namespace LambdaArrow

/-- An expression as arrow functions. -/
def Definitions.compile (definitions : Definitions) (expression : Text) : Except Error Text :=
  (Term.parse definitions expression).map Term.arrow

/-- What a directive that compiles comes to: its line of output, if any, the definitions after it, and its
    log. -/
structure Compiled where
  line : Option Program.Line
  definitions : Definitions
  log : List Log.Entry

/-- What a directive comes to: its line of output, if any, or why it fails; the definitions after it; and its
    log. -/
structure Directive.Outcome where
  line : Except Error (Option Program.Line)
  definitions : Definitions
  log : List Log.Entry

namespace Directive

/-- What has been compiled, unless the directive has failed. -/
def Outcome.compiled (outcome : Outcome) : Except Error Compiled :=
  outcome.line.map fun line => ⟨line, outcome.definitions, outcome.log⟩

/-- A name that may be defined: it starts with a capital letter. -/
def isDefinable (name : Text) : Bool := name.head?.any Char.isUpper

/-- The message on a definition, which tells a new name from a known one. -/
def defined (definitions : Definitions) (name : Text) : Log.Entry :=
  let verb := if definitions.contains name then "redefined" else "defined"
  ⟨.debug, verb.toList ++ " combination ".toList ++ name⟩

/-- Compiles a definition. The name is judged before the expression, and defined when both are in order. -/
def compileDefinition (definitions : Definitions) (name expression : Text) : Outcome :=
  if isDefinable name then
    match definitions.compile expression with
    | .error error => ⟨.error error, definitions, []⟩
    | .ok body =>
      let line := "const ".toList ++ name ++ " = ".toList ++ body ++ [';']
      ⟨.ok (some ⟨.definition, line⟩), definitions.insert name body, [defined definitions name]⟩
  else ⟨.error (.invalidDefinitionName name), definitions, []⟩

/-- Compiles an expression and puts it between `before` and `after` in a statement. -/
def compileStatement (definitions : Definitions) (before expression after : Text) : Outcome :=
  match definitions.compile expression with
  | .error error => ⟨.error error, definitions, []⟩
  | .ok body => ⟨.ok (some ⟨.statement, before ++ body ++ after⟩), definitions, []⟩

/-- The statement that prints a label in blue. -/
def labelStatement (text : Text) : Text :=
  "console.log(\"%c".toList ++ Text.escape text ++ "\", \"color: blue\");".toList

/-- Does what a line asks for. -/
def outcome (definitions : Definitions) : Directive → Outcome
  | .define name expression => compileDefinition definitions name expression
  | .number expression =>
    compileStatement definitions "console.log(toNumber(".toList expression "));".toList
  | .boolean expression =>
    compileStatement definitions "console.log(toBoolean(".toList expression "));".toList
  | .source expression =>
    compileStatement definitions "console.log((".toList expression ").toString());".toList
  | .compute expression => compileStatement definitions [] expression [';']
  | .label text => ⟨.ok (some ⟨.statement, labelStatement text⟩), definitions, []⟩
  | .nothing => ⟨.ok none, definitions, []⟩

/-- Compiles what a line asks for. -/
def compile (definitions : Definitions) (directive : Directive) : Except Error Compiled :=
  (directive.outcome definitions).compiled

end Directive

/-- What lines come to: their output or the first failure, the definitions after them, and the log. -/
structure Compilation where
  output : Except Error (List Program.Line)
  definitions : Definitions
  log : List Log.Entry

namespace CodeLine

/-- The message on a line that is about to be compiled. -/
def visited (line : CodeLine) : Log.Entry :=
  ⟨.trace, "line ".toList ++ Text.ofNat line.number ++ ": ".toList ++ Text.quoted line.text⟩

/-- The output of a line: its comments, then what its code has made. -/
def output (line : CodeLine) (made : Option Program.Line) : List Program.Line :=
  line.comments.map (⟨.comment, ·⟩) ++ made.toList

/-- Compiles lines one after the other; a failure tells the line. -/
def compileAll (definitions : Definitions) : List CodeLine → Compilation
  | [] => ⟨.ok [], definitions, []⟩
  | line :: rest =>
    let outcome := (Directive.parse line.text).outcome definitions
    match outcome.line with
    | .error cause =>
      ⟨.error (.onLine line.number cause), outcome.definitions, line.visited :: outcome.log⟩
    | .ok made =>
      let later := compileAll outcome.definitions rest
      ⟨later.output.map (line.output made ++ ·), later.definitions,
        line.visited :: outcome.log ++ later.log⟩

end CodeLine

end LambdaArrow
