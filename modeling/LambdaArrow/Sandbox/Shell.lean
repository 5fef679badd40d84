import LambdaArrow.Sandbox.Script
import LambdaArrow.Sandbox.Tool

/-! A shell at work: what it knows, what it has printed, and how it goes on. -/

namespace LambdaArrow

/-- Why the commands that follow are passed over: a number of loops is left, or started again, or a
    function is left. -/
inductive Jump where
  | leave (loops : Nat)
  | again (loops : Nat)
  | back
  deriving DecidableEq

/-- What a shell was asked to do besides: to end when a command fails, to tell each command, to refuse
    parameters that were not set, and to run nothing. -/
structure Manner where
  strict : Bool
  telling : Bool
  careful : Bool
  idle : Bool

/-- The manner of a shell that was asked for nothing. -/
def Manner.plain : Manner := ⟨false, false, false, false⟩

/-- Letters of options that change nothing here. -/
def Manner.others : Text := "abfimvCEIV".toList

/-- Takes in the option of a letter, turned on or off. -/
def Manner.letter? (manner : Manner) (on : Bool) (letter : Char) : Option Manner :=
  match letter with
  | 'e' => some { manner with strict := on }
  | 'x' => some { manner with telling := on }
  | 'u' => some { manner with careful := on }
  | 'n' => some { manner with idle := on }
  | _ => if others.contains letter then some manner else none

/-- Takes in the options of letters, or tells the first that is not known. -/
def Manner.letters (manner : Manner) (on : Bool) : Text → Except Char Manner
  | [] => .ok manner
  | letter :: rest =>
    match manner.letter? on letter with
    | some manner => manner.letters on rest
    | none => .error letter

/-- A shell at work. It has ended when it was told to exit, or killed, which leaves no code. -/
structure Shell where
  name : Text
  arguments : List Text
  bindings : Table Text Text
  functions : Table Text Script.Command
  traps : Table Text Text
  loops : Nat
  jump : Option Jump
  files : FileTree
  input : ByteArray
  stdout : ByteArray
  stderr : ByteArray
  status : Nat
  line : Nat
  manner : Manner
  ended : Option (Option Nat)

namespace Shell

/-- A shell before its first command. -/
def start (files : FileTree) (input : ByteArray) (name : Text) (arguments : List Text) : Shell :=
  ⟨name, arguments, Table.empty, Table.empty, Table.empty, 0, none, files, input, ByteArray.empty,
    ByteArray.empty, 0, 1, .plain, none⟩

/-- Whether the next command is run. -/
def goesOn (shell : Shell) : Bool := shell.ended.isNone && shell.jump.isNone

/-- The number under which the shell knows itself. -/
def identity : Text := "1000".toList

/-- Ends with a status. -/
def result (shell : Shell) (status : Nat) : Shell := { shell with status := status }

/-- Complains, and goes on with a status. -/
def complain (shell : Shell) (status : Nat) (words : Text) : Shell :=
  let text := shell.name ++ ": ".toList ++ Text.ofNat shell.line ++ ": ".toList ++ words ++ ['\n']
  { shell with status := status, stderr := shell.stderr ++ text.toBytes }

/-- Ends the shell with its status. -/
def quit (shell : Shell) : Shell := { shell with ended := some (some shell.status) }

/-- Tells a command before it is run, if the shell is to. -/
def tell (shell : Shell) (words : List Text) : Shell :=
  if shell.manner.telling then
    let text : Text := "+ ".toList ++ [' '].intercalate words ++ ['\n']
    { shell with stderr := shell.stderr ++ text.toBytes }
  else shell

/-- Takes in what a program has printed. -/
def absorb (shell : Shell) (printed : Printed) : Shell :=
  { shell with
    status := printed.code
    stdout := shell.stdout ++ printed.stdout
    stderr := shell.stderr ++ printed.stderr }

/-- Takes in what a command of the shell itself has printed; a complaint tells the script. -/
def absorbOwn (shell : Shell) (printed : Printed) : Shell :=
  if printed.stderr.isEmpty then shell.absorb printed
  else
    let source := shell.name ++ ": ".toList ++ Text.ofNat shell.line ++ ": ".toList
    shell.absorb { printed with stderr := source.toBytes ++ printed.stderr }

/-- Gives a parameter a value. -/
def bind (shell : Shell) (name value : Text) : Shell :=
  { shell with bindings := shell.bindings.insert name value }

end Shell

end LambdaArrow
