import LambdaArrow.Sandbox.Shell

/-! How a shell is called: with options, and with a script or the file of one. -/

namespace LambdaArrow.Shell

/-- What the arguments of a shell ask for: its manner, whether the first operand is the script itself,
    whether the script is the input, and the operands. -/
structure Call where
  manner : Manner
  given : Bool
  fromInput : Bool
  operands : List Text

/-- Takes in the letters of one option, or tells the first that is not known. -/
def Call.letters (call : Call) : Text → Except Text Call
  | [] => .ok call
  | 'c' :: rest => letters { call with given := true } rest
  | 's' :: rest => letters { call with fromInput := true } rest
  | letter :: rest =>
    match call.manner.letter? true letter with
    | some manner => letters { call with manner := manner } rest
    | none => .error [letter]

/-- Reads the arguments of a shell. -/
def Call.read (call : Call) : List Text → Except Text Call
  | ['-', '-'] :: rest => .ok { call with operands := rest }
  | ['-'] :: rest => .ok { call with operands := rest }
  | ('-' :: '-' :: _) :: _ => .error ['-']
  | ('-' :: letters) :: rest =>
    match call.letters letters with
    | .ok call => call.read rest
    | .error letter => .error letter
  | rest => .ok { call with operands := rest }

/-- A shell that was called in a wrong way. -/
def miscalled (files : FileTree) (words : Text) : Shell :=
  let shell := start files ByteArray.empty "sh".toList []
  (complain { shell with line := 0 } 2 words).quit

/-- The script of a call, the name it runs under, and its arguments. -/
def Call.script (call : Call) (files : FileTree) (input : ByteArray) :
    Except Text (Text × Text × List Text) :=
  match call.operands with
  | [] =>
    if call.given then .error "-c requires an argument".toList
    else .ok ((Text.ofBytes? input).getD [], "sh".toList, [])
  | first :: rest =>
    if call.given then .ok (first, rest.headD "sh".toList, rest.tail)
    else if call.fromInput then .ok ((Text.ofBytes? input).getD [], "sh".toList, call.operands)
    else
      match files.read first with
      | .ok bytes => .ok ((Text.ofBytes? bytes).getD [], first, rest)
      | .error .isFolder => .ok ([], first, rest)
      | .error _ => .error ("cannot open ".toList ++ first ++ ": No such file".toList)

end LambdaArrow.Shell
