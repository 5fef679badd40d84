import LambdaArrow.Sandbox.Tool

/-! `test` judges texts, numbers and files. Its exit code is the answer. -/

namespace LambdaArrow.Test

/-- What is at a path, if anything is. -/
def node? (files : FileTree) (path : Text) : Option Node :=
  match files.locate path with
  | .ok location => files.node? location
  | .error _ => none

/-- Whether something is at a path and allows an access. -/
def allows (files : FileTree) (access : Access) (path : Text) : Bool :=
  match files.locate path with
  | .ok location => (files.node? location).isSome && (files.refusal? access location).isNone
  | .error _ => false

/-- The judgement of a one-letter operator. Only folders can be entered. -/
def unary? (files : FileTree) (operator operand : Text) : Option Bool :=
  match operator with
  | ['-', 'n'] => some (operand ≠ [])
  | ['-', 'z'] => some (operand = [])
  | ['-', 'e'] => some (node? files operand).isSome
  | ['-', 'r'] => some (allows files .read operand)
  | ['-', 'w'] => some (allows files (.write ByteArray.empty) operand)
  | ['-', 'f'] =>
    match node? files operand with
    | some (.file _) => some true
    | _ => some false
  | ['-', 's'] =>
    match node? files operand with
    | some (.file bytes) => some (0 < bytes.size)
    | some .folder => some true
    | _ => some false
  | ['-', c] =>
    if c = 'd' || c = 'x' then
      match node? files operand with
      | some .folder => some (c = 'd' || allows files .enter operand)
      | _ => some false
    else if c = 'h' || c = 'L' then some false
    else none
  | _ => none

/-- The number that a text writes. -/
def number (text : Text) : Except Text Int :=
  match (String.ofList text).toInt? with
  | some n => .ok n
  | none => .error ("Illegal number: ".toList ++ text)

/-- How an operator compares numbers. -/
def comparison? (operator : Text) : Option (Int → Int → Bool) :=
  let table : List (Text × (Int → Int → Bool)) :=
    [("-eq".toList, fun a b => a = b), ("-ne".toList, fun a b => a ≠ b),
      ("-lt".toList, fun a b => a < b), ("-le".toList, fun a b => a ≤ b),
      ("-gt".toList, fun a b => a > b), ("-ge".toList, fun a b => a ≥ b)]
  table.lookup operator

/-- The judgement of an operator between two operands. -/
def binary? (left operator right : Text) : Option (Except Text Bool) :=
  if operator = ['='] then some (.ok (left = right))
  else if operator = "!=".toList then some (.ok (left ≠ right))
  else (comparison? operator).map fun compare => do return compare (← number left) (← number right)

/-- Judges arguments that are not joined by `-a` or `-o`. -/
def single (files : FileTree) : List Text → Except Text Bool
  | [] => .ok false
  | [operand] => .ok (operand ≠ [])
  | ['!'] :: rest => do
    let answer ← single files rest
    return !answer
  | [operator, operand] =>
    match unary? files operator operand with
    | some answer => .ok answer
    | none => .error (operator ++ ": unexpected operator".toList)
  | [left, operator, right] =>
    match binary? left operator right with
    | some answer => answer
    | none => .error (operator ++ ": unexpected operator".toList)
  | _ :: operator :: _ => .error (operator ++ ": unexpected operator".toList)

/-- Judges the arguments: some of the parts between `-o` holds, of which all parts between `-a` hold. -/
def judge (files : FileTree) (arguments : List Text) : Except Text Bool := do
  if arguments.length ≤ 3 then single files arguments
  else
    let answers ← (arguments.splitOn "-o".toList).mapM fun part => do
      let parts ← (part.splitOn "-a".toList).mapM (single files)
      return parts.all id
    return answers.any id

/-- The program, under its name. -/
def tool (name : Text) : Tool := fun files _ arguments =>
  match judge files arguments with
  | .ok answer => .silent (if answer then 0 else 1)
  | .error words => .complaint 2 (name ++ ": ".toList ++ words ++ ['\n'])

/-- The program under the name of a bracket, which must be closed. -/
def bracket : Tool := fun files input arguments =>
  if arguments.getLast? = some [']'] then tool ['['] files input arguments.dropLast
  else .complaint 2 "[: missing ]\n".toList

end LambdaArrow.Test
