import LambdaArrow.Text.Basic

/-! Lambda terms over one-letter variables and named references. -/

namespace LambdaArrow

/-- A lambda term. A `ref` is a name that stands for a definition, or words passed on as written. -/
inductive Term where
  | var (name : Char)
  | ref (name : Text)
  | abs (param : Char) (body : Term)
  | app (function argument : Term)
  deriving DecidableEq

namespace Term

/-- How many parameters a term takes before its body is something else. -/
def arity : Term → Nat
  | .abs _ body => body.arity + 1
  | _ => 0

/-- Whether a term is an abstraction. -/
def isAbs : Term → Bool
  | .abs .. => true
  | _ => false

end Term

end LambdaArrow
