import LambdaArrow.Sandbox.Formula
import LambdaArrow.Sandbox.Script.Parser
import LambdaArrow.Sandbox.Shell.Builtin
import LambdaArrow.Sandbox.Shell.Call
import LambdaArrow.Sandbox.Shell.Stream

/-! Running scripts. Loops need not end and scripts may run scripts, so every step takes fuel. -/

namespace LambdaArrow.Shell

/-- A copy of the shell that has printed nothing. -/
def fresh (shell : Shell) : Shell :=
  { shell with stdout := ByteArray.empty, stderr := ByteArray.empty }

/-- The status that a copy ends with. -/
def finalStatus (copy : Shell) : Nat :=
  match copy.ended with
  | some code => code.getD copy.status
  | none => copy.status

/-- Goes on after a copy has run: what it did to files and its complaints stay, and so does its end if
    it was killed. -/
def resume (shell copy : Shell) : Shell :=
  { shell with
    files := { copy.files with home := shell.files.home }
    stderr := shell.stderr ++ copy.stderr
    status := copy.finalStatus
    ended := if copy.ended = some none then some none else shell.ended }

/-- Text that a script printed, without the line feeds at its end. -/
def printedText (bytes : ByteArray) : Text :=
  (((Text.ofBytes? bytes).getD []).reverse.dropWhile (· = '\n')).reverse

/-- Ends a strict shell after a command that failed, unless its status is being tested. -/
def judged (tested : Bool) (shell : Shell) : Shell :=
  if shell.manner.strict && !tested && shell.status ≠ 0 && shell.goesOn then shell.quit else shell

mutual

/-- Fills in the parts of a word. -/
def fill (fuel : Nat) (word : Script.Word) (shell : Shell) : List Piece × Shell :=
  match fuel, word with
  | 0, _ => ([], shell)
  | _, [] => ([], shell)
  | fuel + 1, part :: rest =>
    let (found, shell) := fillPart fuel part shell
    let (later, shell) := fill fuel rest shell
    (found ++ later, shell)

/-- Fills in one part of a word. -/
def fillPart (fuel : Nat) (part : Script.Part) (shell : Shell) : List Piece × Shell :=
  match fuel, part with
  | 0, _ => ([], shell)
  | _, .char c quoted => ([.char c quoted], shell)
  | _, .emptyQuotes => ([.mark], shell)
  | fuel + 1, .parameter name change quoted =>
    if name = ['@'] && quoted then (argumentPieces shell.arguments, shell)
    else
      let old := shell.value name
      let filled := fun (text : Text) => fill fuel (Script.partsOf text) shell
      match change with
      | .keep =>
        if shell.manner.careful && (shell.value? name).isNone then
          ([], (shell.complain 2 (name ++ ": parameter not set".toList)).quit)
        else (pieces quoted old, shell)
      | .count => (pieces quoted (Text.ofNat old.length), shell)
      | .ifEmpty text =>
        if old ≠ [] then (pieces quoted old, shell)
        else
          let (found, shell) := filled text
          (pieces quoted (fieldOf found).text, shell)
      | .ifFilled text =>
        if old = [] then (pieces quoted [], shell)
        else
          let (found, shell) := filled text
          (pieces quoted (fieldOf found).text, shell)
      | .assign text =>
        if old ≠ [] then (pieces quoted old, shell)
        else
          let (found, shell) := filled text
          (pieces quoted (fieldOf found).text, shell.bind name (fieldOf found).text)
      | .dropEnd longest pattern =>
        (pieces quoted (dropEnd longest (pattern.map (·, false)) old), shell)
      | .dropStart longest pattern =>
        (pieces quoted (dropStart longest (pattern.map (·, false)) old), shell)
  | fuel + 1, .output script quoted =>
    let copy := runScript fuel script shell.fresh
    (pieces quoted (printedText copy.stdout), shell.resume copy)
  | fuel + 1, .computed formula quoted =>
    let (found, shell) := fill fuel (Script.partsOf formula) shell
    match Formula.eval shell.numberOf (fieldOf found).text with
    | some n =>
      let digits := Text.ofNat n.natAbs
      (pieces quoted (if n < 0 then '-' :: digits else digits), shell)
    | none => ([], (shell.complain 2 "arithmetic expression: syntax error".toList).quit)

/-- Fills in words and cuts them into fields. -/
def fillAll (fuel : Nat) (words : List Script.Word) (shell : Shell) : List Text × Shell :=
  match fuel, words with
  | 0, _ => ([], shell)
  | _, [] => ([], shell)
  | fuel + 1, word :: rest =>
    let (found, shell) := fill fuel word shell
    let (later, next) := fillAll fuel rest shell
    ((fields found).flatMap shell.matching ++ later, next)

/-- Fills in a word that stays one text. -/
def fillText (fuel : Nat) (word : Script.Word) (shell : Shell) : Field × Shell :=
  match fuel with
  | 0 => ([], shell)
  | fuel + 1 =>
    let (found, shell) := fill fuel word shell
    (fieldOf found, shell)

/-- Makes assignments one after the other. -/
def assign (fuel : Nat) (assignments : List (Text × Script.Word)) (shell : Shell) : Shell :=
  match fuel, assignments with
  | 0, _ => shell
  | _, [] => shell
  | fuel + 1, (name, word) :: rest =>
    let (field, shell) := fillText fuel word shell
    assign fuel rest (shell.bind name field.text)

/-- Makes redirections one after the other. -/
def redirectAll (fuel : Nat) (redirections : List Script.Redirection) (streams : Streams)
    (shell : Shell) : Except Shell (Shell × Streams) :=
  match fuel, redirections with
  | 0, _ => .error shell
  | _, [] => .ok (shell, streams)
  | fuel + 1, redirection :: rest =>
    let (field, shell) := fillText fuel redirection.word shell
    match shell.redirect streams redirection.stream redirection.direction field.text with
    | .error shell => .error shell
    | .ok (shell, streams) => redirectAll fuel rest streams shell

/-- Runs a command by its name. -/
def invoke (fuel : Nat) (name : Text) (arguments : List Text) (shell : Shell) : Shell :=
  match fuel with
  | 0 => shell
  | fuel + 1 =>
    match String.ofList name with
    | "eval" => runScript fuel ([' '].intercalate arguments) shell
    | "exec" =>
      match arguments with
      | [] => shell.result 0
      | name :: rest => (invoke fuel name rest shell).quit
    | "." =>
      match shell.files.read (arguments.headD []) with
      | .ok bytes => runScript fuel ((Text.ofBytes? bytes).getD []) shell
      | .error _ =>
        let path := arguments.headD []
        (shell.complain 2 (".: cannot open ".toList ++ path ++ ": No such file".toList)).quit
    | "kill" =>
      let (signal, targets) := signalAndTargets arguments
      match shell.traps.find? signal with
      | some script =>
        if targets.contains identity && signal ≠ "KILL".toList then
          (runScript fuel script shell).result 0
        else shell.signal arguments
      | none => shell.signal arguments
    | _ =>
      match shell.functions.find? name with
      | some body =>
        let after := run fuel false body { shell with arguments := arguments, loops := 0 }
        { after with
          arguments := shell.arguments
          loops := shell.loops
          jump := none }
      | none =>
        if programName shell.files name = "sh".toList then
          let copy := runArguments fuel shell.files shell.input arguments
          { shell.resume copy with
            stdout := shell.stdout ++ copy.stdout
            ended := shell.ended }
        else shell.invokeSimple name arguments

/-- Runs a command. A status that is `tested` does not end a strict shell. -/
def run (fuel : Nat) (tested : Bool) (command : Script.Command) (shell : Shell) : Shell :=
  match fuel with
  | 0 => shell
  | fuel + 1 =>
    if !shell.goesOn then shell
    else
      match command with
      | .nothing => shell
      | .function name body =>
        { shell with functions := shell.functions.insert name body, status := 0 }
      | .simple line assignments words =>
        let shell := { shell with line := line }
        let (found, shell) := fillAll fuel words shell
        match found with
        | [] => judged tested (assign fuel assignments (if words = [] then shell.result 0 else shell))
        | name :: arguments =>
          if !shell.goesOn then shell
          else
            let assigned := assign fuel assignments (shell.tell (name :: arguments))
            let after := invoke fuel name arguments assigned
            judged tested (if assignments = [] then after else { after with bindings := shell.bindings })
      | .redirected body redirections =>
        match redirectAll fuel redirections ⟨.stdout, .stderr⟩ shell with
        | .error failed => judged tested failed
        | .ok (ready, streams) =>
          let after := run fuel tested body ready.fresh
          let output := after.stdout
          let errors := after.stderr
          let after := { after with
            stdout := ready.stdout
            stderr := ready.stderr
            input := shell.input }
          (after.send output streams.output).send errors streams.errors
      | .sequence first second => run fuel tested second (run fuel tested first shell)
      | .both first second =>
        let shell := run fuel true first shell
        if shell.status = 0 then run fuel tested second shell else shell
      | .either first second =>
        let shell := run fuel true first shell
        if shell.status = 0 then shell else run fuel tested second shell
      | .negated body =>
        let shell := run fuel true body shell
        if shell.goesOn then shell.result (if shell.status = 0 then 1 else 0) else shell
      | .piped first second =>
        let left := run fuel true first shell.fresh
        let between := shell.resume left
        let right := run fuel true second { between.fresh with input := left.stdout }
        let after := between.resume right
        judged tested { after with stdout := after.stdout ++ right.stdout }
      | .conditional condition consequence alternative =>
        let shell := run fuel true condition shell
        if shell.status = 0 then run fuel tested consequence shell
        else run fuel tested alternative (shell.result 0)
      | .loop whileTrue condition body =>
        let asked := run fuel true condition (shell.inLoops (shell.loops + 1))
        let (asked, goesOn) := asked.afterRound
        if !goesOn then asked.inLoops shell.loops
        else if (asked.status = 0) = whileTrue then
          let (after, goesOn) := (run fuel tested body asked).afterRound
          let after := after.inLoops shell.loops
          if goesOn then run fuel tested (.loop whileTrue condition body) after else after
        else (asked.result 0).inLoops shell.loops
      | .each name values body =>
        let (texts, shell) := match values with
          | some words => fillAll fuel words shell
          | none => (shell.arguments, shell)
        runEach fuel tested name texts body (shell.result 0)
      | .choice subject patterns body otherwise =>
        let (field, shell) := fillText fuel subject shell
        if patterns.any fun pattern => fits (fillText fuel pattern shell).1 field.text then
          run fuel tested body (shell.result 0)
        else run fuel tested otherwise (shell.result 0)
      | .subshell body =>
        let copy := run fuel tested body shell.fresh
        let after := shell.resume copy
        judged tested { after with stdout := after.stdout ++ copy.stdout }

/-- Runs the body of a loop for each of some texts. -/
def runEach (fuel : Nat) (tested : Bool) (name : Text) (texts : List Text) (body : Script.Command)
    (shell : Shell) : Shell :=
  match fuel, texts with
  | 0, _ => shell
  | _, [] => shell
  | fuel + 1, text :: rest =>
    let after := run fuel tested body ((shell.bind name text).inLoops (shell.loops + 1))
    let (after, goesOn) := after.afterRound
    let after := after.inLoops shell.loops
    if goesOn then runEach fuel tested name rest body after else after

/-- Runs the lines of a script, up to a wrong one. -/
def runLines (fuel : Nat) (lines : List (Except Script.Unexpected Script.Command)) (shell : Shell) :
    Shell :=
  match fuel, lines with
  | 0, _ => shell
  | _, [] => shell
  | fuel + 1, .ok command :: rest => runLines fuel rest (run fuel false command shell)
  | _, .error unexpected :: _ =>
    if !shell.goesOn then shell
    else
      (complain { shell with line := unexpected.line } 2
        ("Syntax error: ".toList ++ unexpected.message)).quit

/-- Runs a script. -/
def runScript (fuel : Nat) (script : Text) (shell : Shell) : Shell :=
  match fuel with
  | 0 => shell
  | fuel + 1 => runLines fuel (Script.parse script) shell

/-- Runs a whole script, and what is to be run at its end. -/
def runWhole (fuel : Nat) (script : Text) (shell : Shell) : Shell :=
  match fuel with
  | 0 => shell
  | fuel + 1 =>
    let after := runScript fuel script shell
    match after.ended, after.traps.find? "EXIT".toList with
    | some none, _ => after
    | _, none => after
    | _, some last =>
      let ready := { after with ended := none, jump := none, status := after.finalStatus }
      let final := runScript fuel last ready
      if final.ended.isSome then final else { final with ended := some (some after.finalStatus) }

/-- Runs a shell with arguments of its own. -/
def runArguments (fuel : Nat) (files : FileTree) (input : ByteArray) (arguments : List Text) :
    Shell :=
  match fuel with
  | 0 => start files input "sh".toList []
  | fuel + 1 =>
    match Call.read ⟨.plain, false, false, []⟩ arguments with
    | .error letter => miscalled files ("Illegal option -".toList ++ letter)
    | .ok call =>
      match call.script files input with
      | .error words => miscalled files words
      | .ok (script, name, arguments) =>
        let shell := { start files input name arguments with manner := call.manner }
        if call.manner.idle then shell else runWhole fuel script shell

end

end LambdaArrow.Shell
