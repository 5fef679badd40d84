import LambdaArrow.Command.Action
import LambdaArrow.Log.Format
import LambdaArrow.Sandbox.FileTree

/-! A machine held in memory: files, what was printed so far, and how its log is written. Actions are carried
    out on it. -/

namespace LambdaArrow

/-- Files, the two streams of output, and the lines of the log. -/
structure Machine where
  files : FileTree
  stdout : ByteArray
  stderr : ByteArray
  format : Log.Format

/-- What a started program has done when it ends. One that was killed has no exit code. -/
structure Finished where
  code : Option Nat
  files : FileTree
  stdout : ByteArray
  stderr : ByteArray

/-- How a machine starts a program with arguments. -/
abbrev Launcher := FileTree → Text → List Text → Except Fault Finished

namespace Machine

/-- A machine that has printed nothing and writes its log in plain text. -/
def boot (files : FileTree) : Machine := ⟨files, ByteArray.empty, ByteArray.empty, .plain⟩

/-- Prints text. -/
def print (machine : Machine) (text : Text) : Machine :=
  { machine with stdout := machine.stdout ++ text.toBytes }

/-- Reports text on the stream of errors. -/
def report (machine : Machine) (text : Text) : Machine :=
  { machine with stderr := machine.stderr ++ text.toBytes }

/-- Notes an entry in the log, which is kept on the stream of errors. -/
def note (machine : Machine) (speaker : Text) (entry : Log.Entry) : Machine :=
  machine.report (machine.format speaker entry)

/-- Writes a file; when that fails, nothing changes. -/
def write (machine : Machine) (path : Text) (bytes : ByteArray) : Except Fault Unit × Machine :=
  match machine.files.write path bytes with
  | .error fault => (.error fault, machine)
  | .ok files => (.ok (), { machine with files := files })

/-- Runs a program to its end: it prints what it prints, and leaves the files as it leaves them. -/
def launch (launcher : Launcher) (machine : Machine) (program : Text) (arguments : List Text) :
    Except Fault (Option Nat) × Machine :=
  match launcher machine.files program arguments with
  | .error fault => (.error fault, machine)
  | .ok finished =>
    (.ok finished.code,
      { machine with
        files := finished.files
        stdout := machine.stdout ++ finished.stdout
        stderr := machine.stderr ++ finished.stderr })

end Machine

/-- Carries out an action on a machine: the exit code and the machine after it. -/
def Action.perform (launcher : Launcher) : Action → Machine → Nat × Machine
  | .exit code, machine => (code, machine)
  | .print text next, machine => next.perform launcher (machine.print text)
  | .report text next, machine => next.perform launcher (machine.report text)
  | .note speaker entry next, machine => next.perform launcher (machine.note speaker entry)
  | .read path next, machine => (next (machine.files.read path)).perform launcher machine
  | .write path bytes next, machine =>
    let (result, after) := machine.write path bytes
    (next result).perform launcher after
  | .launch program arguments next, machine =>
    let (result, after) := machine.launch launcher program arguments
    (next result).perform launcher after

end LambdaArrow
