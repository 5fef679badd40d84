import LambdaArrow.Sandbox.Shell
import LambdaArrow.Sandbox.Tool.Escape

/-! Words become fields: what is filled in without quotes is cut at its blanks, and a field that is a pattern
    becomes the names that fit it. -/

namespace LambdaArrow.Shell

/-- The value of a parameter, if it has one. -/
def value? (shell : Shell) (name : Text) : Option Text :=
  match name with
  | ['@'] => some ([' '].intercalate shell.arguments)
  | ['*'] => some ([' '].intercalate shell.arguments)
  | ['#'] => some (Text.ofNat shell.arguments.length)
  | ['?'] => some (Text.ofNat shell.status)
  | ['$'] => some identity
  | ['0'] => some shell.name
  | _ =>
    if name.all Char.isDigit then shell.arguments[Escape.number 10 name - 1]?
    else shell.bindings.find? name

/-- The value of a parameter, or nothing. -/
def value (shell : Shell) (name : Text) : Text := (shell.value? name).getD []

/-- The number that a parameter holds. -/
def numberOf (shell : Shell) (name : Text) : Int := ((String.ofList (shell.value name)).toInt?).getD 0

/-- A piece of a word that is filled in: a character, a sign that there is a field even without any, or
    a blank that ends a field. -/
inductive Piece where
  | char (c : Char) (quoted : Bool)
  | mark
  | gap (c : Char)
  deriving DecidableEq

/-- The pieces of text that was filled in; blanks end a field unless quoted. -/
def pieces (quoted : Bool) (text : Text) : List Piece :=
  if quoted then .mark :: text.map (.char · true)
  else text.map fun c => if c = ' ' ∨ c = '\t' ∨ c = '\n' then .gap c else .char c false

/-- The pieces of all arguments, each a field of its own. -/
def argumentPieces (arguments : List Text) : List Piece :=
  [.gap ' '].intercalate (arguments.map (pieces true))

/-- A character of a field, and whether it was quoted. -/
abbrev Field := List (Char × Bool)

/-- The text of a field. -/
def Field.text (field : Field) : Text := field.map (·.1)

/-- The characters of pieces that stay one field. -/
def fieldOf (pieces : List Piece) : Field :=
  pieces.filterMap fun
    | .char c quoted => some (c, quoted)
    | .gap c => some (c, false)
    | .mark => none

/-- The fields of pieces. -/
def fields (pieces : List Piece) : List Field :=
  let parts := pieces.splitOnP fun
    | .gap _ => true
    | _ => false
  (parts.filter (· ≠ [])).map fieldOf

/-- Whether a text fits a pattern, in which a star is any text and a question mark any character. -/
def fits : Field → Text → Bool
  | [], text => text = []
  | (c, quoted) :: rest, text =>
    if c = '*' ∧ !quoted then (List.range (text.length + 1)).any fun n => fits rest (text.drop n)
    else
      match text with
      | [] => false
      | d :: text => (c = d || (c = '?' && !quoted)) && fits rest text

/-- Takes a part that fits a pattern off the end of a text, the shortest or the longest. -/
def dropEnd (longest : Bool) (pattern : Field) (text : Text) : Text :=
  let places := List.range (text.length + 1)
  let places := if longest then places else places.reverse
  match places.find? fun n => fits pattern (text.drop n) with
  | some n => text.take n
  | none => text

/-- Takes a part that fits a pattern off the start of a text, the shortest or the longest. -/
def dropStart (longest : Bool) (pattern : Field) (text : Text) : Text :=
  let places := List.range (text.length + 1)
  let places := if longest then places.reverse else places
  match places.find? fun n => fits pattern (text.take n) with
  | some n => text.drop n
  | none => text

/-- The order of names. -/
def before (left right : Text) : Bool := String.ofList left ≤ String.ofList right

/-- The names in the current folder that a field fits; the field itself if it is no pattern or nothing
    fits. -/
def matching (shell : Shell) (field : Field) : List Text :=
  if field.any fun (c, quoted) => !quoted && (c = '*' || c = '?') then
    let names := shell.files.nodes.keys.filterMap fun location =>
      match shell.files.home.isPrefixOf? location with
      | some [name] => if name.head? ≠ some '.' && fits field name then some name else none
      | _ => none
    if names = [] then [field.text] else names.mergeSort before
  else [field.text]

end LambdaArrow.Shell
