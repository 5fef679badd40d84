import LambdaArrow.Command.Fault
import LambdaArrow.Command.Invocation
import LambdaArrow.Session
import LambdaArrow.Log

/-! A run of the command, step by step. An action says what to do to the surroundings next and how to go
    on with what comes back. It does nothing by itself, so the same run can be carried out on a real
    machine or on one held in memory. -/

namespace LambdaArrow

/-- What to do next. What is noted goes to the log. A program that was started comes back with its exit
    code, or without one if it was killed. -/
inductive Action where
  | exit (code : Nat)
  | print (text : Text) (next : Action)
  | report (text : Text) (next : Action)
  | note (speaker : Text) (entry : Log.Entry) (next : Action)
  | read (path : Text) (next : Except Fault ByteArray → Action)
  | write (path : Text) (bytes : ByteArray) (next : Except Fault Unit → Action)
  | launch (program : Text) (arguments : List Text) (next : Except Fault (Option Nat) → Action)

namespace Action

/-- Reports a failure and exits with code 1. -/
def fail (failure : Failure) : Action :=
  .report ("Error: ".toList ++ failure.message ++ ['\n']) (.exit 1)

/-- Notes the entries that are shown. -/
def log (last : Option Log.Level) (speaker : Text) (entries : List Log.Entry) (next : Action) :
    Action :=
  (entries.filter (·.shown last)).foldr (.note speaker) next

end Action

namespace Invocation

/-- The name under which the command speaks in the log. -/
def commandSpeaker : Text := "lambdac".toList

/-- The name under which the compiler speaks in the log. -/
def compilerSpeaker : Text := "lambdac::compiler".toList

/-- Starts the runtime on the compiled program and exits with its code. -/
def execute (invocation : Invocation) (last : Option Log.Level) : Action :=
  match Text.words invocation.runtime with
  | [] => .fail .emptyRuntime
  | program :: arguments =>
    let running := "running ".toList ++ invocation.output ++ " with ".toList ++ invocation.runtime
    .log last commandSpeaker [⟨.info, running⟩] <|
      .launch program (arguments ++ [invocation.output]) fun
        | .error fault => .fail (.launch invocation.runtime fault)
        | .ok code => .exit (code.getD 1)

/-- What follows when the compiled program is written: it is echoed and run, as asked for. -/
def deliver (invocation : Invocation) (last : Option Log.Level) (program : Text) : Action :=
  let done := "transpiled ".toList ++ invocation.input ++ " to ".toList ++ invocation.output
  let finish := if invocation.run then invocation.execute last else .exit 0
  .log last commandSpeaker [⟨.info, done⟩] <|
    if invocation.quiet then finish else .print program finish

/-- Compiles the source and writes the result. -/
def build (invocation : Invocation) (last : Option Log.Level) (today : Date) (source : Text) :
    Action :=
  let result := (Session.start today).compileProgram source
  .log last compilerSpeaker result.log <|
    match result.text with
    | .error error => .fail (.compile error)
    | .ok program =>
      .write invocation.output program.toBytes fun
        | .error fault => .fail (.write invocation.output fault)
        | .ok () => invocation.deliver last program

/-- The text of a file that was read. -/
def sourceOf (bytes : Except Fault ByteArray) : Except Fault Text :=
  match bytes with
  | .error fault => .error fault
  | .ok bytes => (Text.ofBytes? bytes).elim (.error .notText) .ok

/-- A whole run: judge the name of the source, read it, compile it, write the result, and deliver it. -/
def action (invocation : Invocation) (last : Option Log.Level) (today : Date) : Action :=
  if Path.extension? invocation.input = some Path.sourceExtension then
    .read invocation.input fun bytes =>
      match sourceOf bytes with
      | .error fault => .fail (.read invocation.input fault)
      | .ok source => invocation.build last today source
  else .fail (.extension invocation.input)

end Invocation

end LambdaArrow
