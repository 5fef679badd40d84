import LambdaArrow.Balance

/-! What can be wrong with an expression, a definition or a line, and how it is told. -/

namespace LambdaArrow

/-- A cause of failure. A `marked` one shows the text in quotes with a caret under the place. -/
inductive Error where
  | marked (quoted marker message : Text)
  | malformedLambda (expression reason : Text)
  | invalidParameter (parameter : Char)
  | unknownName (name : Text)
  | unknownArgument (name : Text)
  | invalidDefinitionName (name : Text)
  | emptyExpression (expression : Text)
  | onLine (number : Nat) (cause : Error)
  deriving DecidableEq

namespace Error

/-- The kinds of failure that a caller may tell apart. -/
inductive Kind where
  | marked
  | malformedLambda
  | invalidParameter
  | unknownName
  | invalidDefinitionName
  | emptyExpression
  deriving DecidableEq

/-- The kind of a failure, whatever line it is on. -/
def kind : Error → Kind
  | .marked .. => .marked
  | .malformedLambda .. => .malformedLambda
  | .invalidParameter _ => .invalidParameter
  | .unknownName _ => .unknownName
  | .unknownArgument _ => .unknownName
  | .invalidDefinitionName _ => .invalidDefinitionName
  | .emptyExpression _ => .emptyExpression
  | .onLine _ cause => cause.kind

/-- The line a failure is reported on, if it is on one. -/
def line? : Error → Option Nat
  | .onLine number _ => some number
  | _ => none

/-- Text between single quotes. -/
def quote (text : Text) : Text := '\'' :: text ++ ['\'']

/-- The words of a failure. -/
def message : Error → Text
  | .marked quoted marker message => quoted ++ '\n' :: marker ++ ' ' :: message
  | .malformedLambda expression reason => reason ++ ": ".toList ++ expression
  | .invalidParameter parameter =>
    "parameter ".toList ++ quote [parameter] ++ " must be a single lowercase letter".toList
  | .unknownName name => "unknown combination or invalid variable ".toList ++ quote name
  | .unknownArgument name => "invalid argument ".toList ++ quote name
  | .invalidDefinitionName name =>
    "combination ".toList ++ quote name ++ " must start with a capital letter".toList
  | .emptyExpression expression => "empty expression: ".toList ++ quote expression
  | .onLine number cause => "line ".toList ++ Text.ofNat number ++ ": ".toList ++ cause.message

/-- A failure at a column of `text`: the caret stands under that character of the quoted text. -/
def atColumn (text : Text) (column : Nat) (message : Text) : Error :=
  .marked (quote text) (List.replicate (column + 1) ' ' ++ ['^']) message

/-- Column of a place counted in bytes; a place behind the end is the end, and a place inside a
    character has no column. -/
def column? : Nat → Text → Option Nat
  | 0, _ => some 0
  | _, [] => some 0
  | byte + 1, c :: cs =>
    if c.utf8Size ≤ byte + 1 then (column? (byte + 1 - c.utf8Size) cs).map (· + 1) else none

/-- A failure at a place of `text` counted in bytes. -/
def atByte? (text : Text) (byte : Nat) (message : Text) : Option Error :=
  (column? byte text).map fun column => atColumn text column message

/-- The failure of a text whose parentheses are not balanced. -/
def ofFault (text : Text) (fault : Balance.Fault) : Error :=
  atColumn text fault.column fault.message

end Error

end LambdaArrow
