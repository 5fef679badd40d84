import LambdaArrow.Sandbox.Shell.Field
import LambdaArrow.Sandbox.Tool.Cat
import LambdaArrow.Sandbox.Tool.Echo
import LambdaArrow.Sandbox.Tool.Printf
import LambdaArrow.Sandbox.Tool.Test
import LambdaArrow.Text.Blank

/-! Commands of the shell itself, and the programs it can start. -/

namespace LambdaArrow

/-- The programs other than the shell, under their names. -/
def programs : List (Text × Tool) :=
  [("true".toList, fun _ _ _ => .silent 0), ("false".toList, fun _ _ _ => .silent 1),
    ("echo".toList, Echo.tool), ("cat".toList, Cat.tool), ("printf".toList, Printf.tool),
    ("test".toList, Test.tool "test".toList), (['['], Test.bracket)]

namespace Shell

/-- The number of a text of digits. -/
def digits? (text : Text) : Option Nat :=
  let text := Text.trim text
  if text ≠ [] && text.all Char.isDigit then some (Escape.number 10 text) else none

/-- Ends with a code, or with the last status. -/
def leave (shell : Shell) (arguments : List Text) : Shell :=
  match arguments with
  | [] => shell.quit
  | code :: _ =>
    match digits? code with
    | some n => (shell.result (n % 256)).quit
    | none => (shell.complain 2 ("exit: Illegal number: ".toList ++ code)).quit

/-- Drops arguments from the front. -/
def shift (shell : Shell) (arguments : List Text) : Shell :=
  match digits? (arguments.headD ['1']) with
  | none => (shell.complain 2 ("shift: Illegal number: ".toList ++ arguments.headD [])).quit
  | some n =>
    if shell.arguments.length < n then (shell.complain 2 "shift: can't shift that many".toList).quit
    else { shell with arguments := shell.arguments.drop n, status := 0 }

/-- Signals by number and name. -/
def signals : List (String × String) :=
  [("0", "EXIT"), ("1", "HUP"), ("2", "INT"), ("3", "QUIT"), ("6", "ABRT"), ("9", "KILL"), ("10", "USR1"),
    ("12", "USR2"), ("13", "PIPE"), ("14", "ALRM"), ("15", "TERM"), ("17", "CHLD"), ("18", "CONT"),
    ("23", "URG"), ("28", "WINCH")]

/-- The name of a signal that is given by name or number. -/
def signalName (text : Text) : Text :=
  let name := (String.ofList text)
  ((signals.lookup name).getD name).toList

/-- Signals that do no harm. -/
def harmless : List Text := ["EXIT", "CHLD", "CONT", "URG", "WINCH"].map String.toList

/-- The signal that the arguments ask for, and who is to get it. -/
def signalAndTargets : List Text → Text × List Text
  | ['-', 's'] :: name :: targets => (signalName name, targets)
  | ('-' :: name) :: targets => (signalName name, targets)
  | targets => ("TERM".toList, targets)

/-- Sends a signal for which there is no trap. One that does harm kills the shell, if it is meant. -/
def signal (shell : Shell) (arguments : List Text) : Shell :=
  let (name, targets) := signalAndTargets arguments
  if !targets.contains identity then shell.complain 1 "kill: No such process".toList
  else if harmless.contains name then shell.result 0
  else { shell with ended := some none }

/-- Says what is to be run when signals come; a dash takes it back. -/
def setTraps (shell : Shell) (arguments : List Text) : Shell :=
  match arguments with
  | [] => shell.result 0
  | script :: names =>
    let change := fun (traps : Table Text Text) (name : Text) =>
      if script = ['-'] then traps.erase (signalName name) else traps.insert (signalName name) script
    { shell with traps := names.foldl change shell.traps, status := 0 }

/-- Changes the manner and the arguments of the shell. -/
def set (shell : Shell) : List Text → Shell
  | [] => shell.result 0
  | ['-', '-'] :: rest => { shell with arguments := rest, status := 0 }
  | ('-' :: c :: cs) :: rest =>
    match shell.manner.letters true (c :: cs) with
    | .ok manner => set { shell with manner := manner } rest
    | .error letter => (shell.complain 2 ("set: Illegal option -".toList ++ [letter])).quit
  | ('+' :: c :: cs) :: rest =>
    match shell.manner.letters false (c :: cs) with
    | .ok manner => set { shell with manner := manner } rest
    | .error letter => (shell.complain 2 ("set: Illegal option +".toList ++ [letter])).quit
  | rest => { shell with arguments := rest, status := 0 }

/-- Takes assignments among the arguments. -/
def publish (shell : Shell) (arguments : List Text) : Shell :=
  (arguments.filterMap (Text.cut? ['='])).foldl (fun shell (name, value) => shell.bind name value)
    (shell.result 0)

/-- Reads a line of the input into a parameter. -/
def readLine (shell : Shell) (arguments : List Text) : Shell :=
  let bytes := shell.input.toList
  let line := bytes.takeWhile (· ≠ 10)
  let text := Text.trim ((Text.ofBytes? ⟨line.toArray⟩).getD [])
  let shell := { shell with input := ⟨(bytes.drop (line.length + 1)).toArray⟩ }
  (shell.bind (arguments.headD "REPLY".toList) text).result (if bytes.contains 10 then 0 else 1)

/-- Changes the folder that paths start from. -/
def enter (shell : Shell) (arguments : List Text) : Shell :=
  let path := arguments.headD ['.']
  match shell.files.locate path with
  | .ok location =>
    match shell.files.node? location, shell.files.refusal? .enter location with
    | some .folder, none => { shell with files := { shell.files with home := location }, status := 0 }
    | _, _ => shell.complain 2 ("cd: can't cd to ".toList ++ path)
  | .error _ => shell.complain 2 ("cd: can't cd to ".toList ++ path)

/-- Leaves loops or starts them again; outside of loops this does nothing. -/
def leaveLoops (shell : Shell) (jump : Nat → Jump) (arguments : List Text) : Shell :=
  let wanted := (arguments.head?.bind digits?).getD 1
  if shell.loops = 0 then shell.result 0
  else { shell with jump := some (jump (min wanted shell.loops)), status := 0 }

/-- What is left of a jump behind a loop, and whether the loop goes on. -/
def afterRound (shell : Shell) : Shell × Bool :=
  match shell.jump with
  | none => (shell, shell.ended.isNone)
  | some (.leave n) => ({ shell with jump := if n ≤ 1 then none else some (.leave (n - 1)) }, false)
  | some (.again n) =>
    if n ≤ 1 then ({ shell with jump := none }, true)
    else ({ shell with jump := some (.again (n - 1)) }, false)
  | some .back => (shell, false)

/-- Goes into a loop, or out of it again. -/
def inLoops (shell : Shell) (loops : Nat) : Shell := { shell with loops := loops }

/-- The name of the program at a path. A path without a slash is a name already, and a path into a folder
    of programs ends in one. -/
def programName (files : FileTree) (path : Text) : Text :=
  if path.contains '/' then
    match files.locate path with
    | .ok location =>
      if FileTree.programFolders.contains location.dropLast then location.getLast?.getD path else path
    | .error _ => path
  else path

/-- Tells why a command is none. -/
def unknown (shell : Shell) (name : Text) : Shell :=
  let found := match shell.files.locate name with
    | .ok location => (shell.files.node? location).isSome
    | .error _ => false
  if name.contains '/' && found then shell.complain 126 (name ++ ": Permission denied".toList)
  else shell.complain 127 (name ++ ": not found".toList)

/-- Runs a command that needs no other command. -/
def invokeSimple (shell : Shell) (name : Text) (arguments : List Text) : Shell :=
  match String.ofList name with
  | "exit" => shell.leave arguments
  | "shift" => shell.shift arguments
  | "kill" => shell.signal arguments
  | "set" => shell.set arguments
  | "export" => shell.publish arguments
  | "readonly" => shell.publish arguments
  | "unset" =>
    { shell with
      bindings := arguments.foldl (fun table name => table.erase name) shell.bindings
      status := 0 }
  | "read" => shell.readLine arguments
  | "cd" => shell.enter arguments
  | ":" => shell.result 0
  | "trap" => shell.setTraps arguments
  | "break" => shell.leaveLoops .leave arguments
  | "continue" => shell.leaveLoops .again arguments
  | "return" =>
    { shell with
      jump := some .back
      status := (arguments.head?.bind digits?).getD shell.status }
  | "wait" => shell.result 0
  | "echo" => shell.absorbOwn (Echo.builtin shell.files shell.input arguments)
  | "printf" => shell.absorbOwn (Printf.tool shell.files shell.input arguments)
  | "test" => shell.absorbOwn (Test.tool name shell.files shell.input arguments)
  | "[" => shell.absorbOwn (Test.bracket shell.files shell.input arguments)
  | _ =>
    match programs.lookup (programName shell.files name) with
    | some tool => shell.absorb (tool shell.files shell.input arguments)
    | none => shell.unknown name

end Shell

end LambdaArrow
