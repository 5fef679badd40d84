import LambdaArrow.Sandbox.Machine
import LambdaArrow.Sandbox.Shell.Run

/-! Starting the programs of a machine held in memory. -/

namespace LambdaArrow

namespace Shell

/-- Enough fuel for any small script. -/
def plenty : Nat := 100000

/-- What a shell has done when it ends. -/
def finished (shell : Shell) (home : Location) : Finished :=
  ⟨shell.ended.getD (some shell.status), { shell.files with home := home }, shell.stdout, shell.stderr⟩

end Shell

/-- Starts a program of the machine. A name without a slash is looked for among the programs, where `.`
    and `..` are folders; no file can be started, so a path to one is denied. -/
def Machine.start : Launcher := fun files program arguments =>
  let name := Shell.programName files program
  if name = "sh".toList then
    .ok ((Shell.runArguments Shell.plenty files ByteArray.empty arguments).finished files.home)
  else
    match programs.lookup name with
    | some tool =>
      let printed := tool files ByteArray.empty arguments
      .ok ⟨some printed.code, files, printed.stdout, printed.stderr⟩
    | none =>
      if program.contains '/' then do
        match files.node? (← files.locate program) with
        | some _ => .error .denied
        | none => .error .notFound
      else if Path.isHere program || Path.isAbove program then .error .denied
      else .error .notFound

end LambdaArrow
