import LambdaArrow.Sandbox.Launch
import Std.Time

/-! The command on a real machine. Files and streams are real; the programs that can be started are those
    of the machine in memory, which see the files that their arguments name and change them in memory only. -/

namespace LambdaArrow

/-- The reason behind a failed operation on a file. Some operations negate the system's number. -/
def Fault.ofSystem : IO.Error → Fault
  | .noFileOrDirectory .. => .notFound
  | .permissionDenied .. => .denied
  | .inappropriateType _ number _ => if number = 21 ∨ number = -21 then .isFolder else .notFolder
  | error => .other (toString error).toList

/-- Tries an operation on files. -/
def attempt {α : Type} (operation : IO α) : IO (Except Fault α) := do
  match ← operation.toBaseIO with
  | .ok value => return .ok value
  | .error error => return .error (Fault.ofSystem error)

/-- The files that paths name, held in memory. -/
def snapshot (paths : List Text) : IO FileTree := do
  let mut files := FileTree.bare []
  for path in paths do
    match ← attempt (IO.FS.readBinFile (String.ofList path)) with
    | .ok bytes => files := files.plant path bytes
    | .error _ => pure ()
  return files

/-- Carries out an action for real. -/
def Action.carryOut : Action → IO Nat
  | .exit code => return code
  | .print text next => do
    (← IO.getStdout).putStr (String.ofList text)
    next.carryOut
  | .report text next => do
    (← IO.getStderr).putStr (String.ofList text)
    next.carryOut
  | .note speaker entry next => do
    (← IO.getStderr).putStr (String.ofList (Log.Format.plain speaker entry))
    next.carryOut
  | .read path next => do
    (next (← attempt (IO.FS.readBinFile (String.ofList path)))).carryOut
  | .write path bytes next => do
    (next (← attempt (IO.FS.writeBinFile (String.ofList path) bytes))).carryOut
  | .launch program arguments next => do
    match Machine.start (← snapshot (program :: arguments)) program arguments with
    | .error fault => (next (.error fault)).carryOut
    | .ok finished =>
      (← IO.getStdout).write finished.stdout
      (← IO.getStderr).write finished.stderr
      (next (.ok finished.code)).carryOut

/-- The day it is. -/
def today : IO Date := do
  let day ← Std.Time.PlainDate.now
  let month := (Month.ofNat? day.month.val.toNat).getD .january
  return ⟨day.year.toInt, month, day.day.val.toNat⟩

/-- How the command is called. -/
def usage : String := "Usage: lambdac [-q] [-o FILE] [--run] [--runtime COMMAND] FILE\n"

end LambdaArrow

open LambdaArrow in
/-- Runs the command and returns its exit code. -/
def main (arguments : List String) : IO UInt32 := do
  let runtime := (← IO.getEnv "LAMBDAC_RUNTIME").map String.toList
  let last := (← IO.getEnv "RUST_LOG").bind fun name => Log.Level.ofName? name.toList
  match Invocation.ofArguments? runtime (arguments.map String.toList) with
  | none =>
    (← IO.getStderr).putStr usage
    return 2
  | some invocation =>
    return (← (invocation.action last (← today)).carryOut).toUInt32
