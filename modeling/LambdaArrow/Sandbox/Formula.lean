import LambdaArrow.Sandbox.Tool.Escape

/-! Whole numbers computed by a formula: `2 * (n + 1)`. -/

namespace LambdaArrow.Formula

/-- What a formula is made of. -/
inductive Symbol where
  | number (value : Int)
  | operator (text : Text)
  deriving DecidableEq

/-- Operators, longer ones first. -/
def operators : List Text :=
  ["||", "&&", "==", "!=", "<=", ">=", "<", ">", "+", "-", "*", "/", "%", "(", ")", "!"].map String.toList

/-- How tightly an operator between two operands binds. -/
def binding? (operator : Text) : Option Nat :=
  [("||", 1), ("&&", 2), ("==", 3), ("!=", 3), ("<", 4), (">", 4), ("<=", 4), (">=", 4), ("+", 5), ("-", 5),
    ("*", 6), ("/", 6), ("%", 6)].lookup (String.ofList operator)

/-- The number of a truth value. -/
def truth (value : Bool) : Int := if value then 1 else 0

/-- Computes an operator between two operands. -/
def apply (operator : Text) (left right : Int) : Option Int :=
  match String.ofList operator with
  | "||" => some (truth (left ≠ 0 || right ≠ 0))
  | "&&" => some (truth (left ≠ 0 && right ≠ 0))
  | "==" => some (truth (left = right))
  | "!=" => some (truth (left ≠ right))
  | "<" => some (truth (left < right))
  | ">" => some (truth (left > right))
  | "<=" => some (truth (left ≤ right))
  | ">=" => some (truth (left ≥ right))
  | "+" => some (left + right)
  | "-" => some (left - right)
  | "*" => some (left * right)
  | "/" => if right = 0 then none else some (Int.tdiv left right)
  | "%" => if right = 0 then none else some (Int.tmod left right)
  | _ => none

/-- Cuts a formula of at most `fuel` characters into symbols; names are looked up. -/
def symbols (value : Text → Int) : Nat → Text → Option (List Symbol)
  | _, [] => some []
  | 0, _ => none
  | fuel + 1, c :: rest =>
    if c = ' ' ∨ c = '\t' ∨ c = '\n' then symbols value fuel rest
    else if c.isDigit then
      let digits := c :: rest.takeWhile Char.isDigit
      (symbols value fuel (rest.dropWhile Char.isDigit)).map (.number (Escape.number 10 digits) :: ·)
    else if c.isAlpha ∨ c = '_' then
      let isNameChar := fun (d : Char) => d.isAlphanum || d = '_'
      let name := c :: rest.takeWhile isNameChar
      (symbols value fuel (rest.dropWhile isNameChar)).map (.number (value name) :: ·)
    else
      match operators.findSome? fun operator =>
        (operator.isPrefixOf? (c :: rest)).map fun rest => (operator, rest) with
      | some (operator, rest) => (symbols value fuel rest).map (.operator operator :: ·)
      | none => none

mutual

/-- Computes an operand, which signs may precede. -/
def operand (fuel : Nat) (formula : List Symbol) : Option (Int × List Symbol) :=
  match fuel, formula with
  | 0, _ => none
  | fuel + 1, .operator ['('] :: rest => do
    let (first, rest) ← operand fuel rest
    let (value, rest) ← climb fuel 1 first rest
    match rest with
    | .operator [')'] :: rest => some (value, rest)
    | _ => none
  | fuel + 1, .operator ['-'] :: rest => do
    let (value, rest) ← operand fuel rest
    return (-value, rest)
  | fuel + 1, .operator ['+'] :: rest => operand fuel rest
  | fuel + 1, .operator ['!'] :: rest => do
    let (value, rest) ← operand fuel rest
    return (truth (value = 0), rest)
  | _, .number value :: rest => some (value, rest)
  | _, _ => none

/-- Joins a left operand with the operators behind it that bind at least as tightly as `least`. -/
def climb (fuel least : Nat) (left : Int) (formula : List Symbol) : Option (Int × List Symbol) :=
  match fuel, formula with
  | 0, _ => none
  | fuel + 1, .operator operator :: rest =>
    match binding? operator with
    | none => some (left, formula)
    | some binding =>
      if binding < least then some (left, formula)
      else do
        let (first, rest) ← operand fuel rest
        let (right, rest) ← climb fuel (binding + 1) first rest
        climb fuel least (← apply operator left right) rest
  | _, _ => some (left, formula)

end

/-- The value of a formula; an empty one is zero. -/
def eval (value : Text → Int) (formula : Text) : Option Int := do
  let all ← symbols value formula.length formula
  if all = [] then return 0
  let fuel := 4 * all.length + 4
  let (first, rest) ← operand fuel all
  let (result, rest) ← climb fuel 1 first rest
  if rest = [] then some result else none

end LambdaArrow.Formula
