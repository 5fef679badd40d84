import LambdaArrow.Compile

/-! A session compiles programs one after the other. Each sees the definitions of those before it, also
    of one that failed, up to the line that failed. -/

namespace LambdaArrow

/-- The day of compilation and the definitions so far. -/
structure Session where
  date : Date
  definitions : Definitions

/-- What a program comes to: compiled, or its first failure; the session after it; and the log. -/
structure Session.Outcome where
  program : Except Error Program
  session : Session
  log : List Log.Entry

/-- The text of the compiled program. -/
def Session.Outcome.text (outcome : Session.Outcome) : Except Error Text :=
  outcome.program.map Program.render

namespace Session

/-- A session without definitions. -/
def start (date : Date) : Session := ⟨date, Table.empty⟩

/-- The message on a program that is compiled. -/
def finished (lines : List Program.Line) (definitions : Definitions) : Log.Entry :=
  ⟨.debug, "compiled ".toList ++ Text.ofNat lines.length ++ " output lines, ".toList ++
    Text.ofNat definitions.size ++ " combinations".toList⟩

/-- Compiles a program. -/
def compileProgram (session : Session) (source : Text) : Outcome :=
  let compilation := CodeLine.compileAll session.definitions (CodeLine.ofProgram source)
  let after := ⟨session.date, compilation.definitions⟩
  match compilation.output with
  | .error error => ⟨.error error, after, compilation.log⟩
  | .ok lines =>
    ⟨.ok ⟨session.date, lines⟩, after, compilation.log ++ [finished lines compilation.definitions]⟩

/-- Tries to compile what one directive asks for. The session after it comes back in any case. -/
def attempt (session : Session) (directive : Directive) : Except Error Compiled × Session :=
  let outcome := directive.outcome session.definitions
  (outcome.compiled, ⟨session.date, outcome.definitions⟩)

/-- Compiles what one directive asks for. -/
def compile (session : Session) (directive : Directive) : Except Error (Compiled × Session) :=
  let (result, after) := session.attempt directive
  result.map (·, after)

end Session

/-- Compiles one program on its own. -/
def compileProgram (date : Date) (source : Text) : Except Error Text :=
  ((Session.start date).compileProgram source).text

end LambdaArrow
