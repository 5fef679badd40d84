import LambdaArrow.Definitions
import LambdaArrow.Error
import LambdaArrow.Term

/-! A phrase is an expression whose shape has been read and whose names have not been looked up yet.
    Reading never fails: what cannot be read is a phrase too, in its place. So looking up names, from
    left to right, meets the first thing that is wrong, be it a name or a shape. -/

namespace LambdaArrow

/-- Where a word stands: first in an expression, later in an expression, or in a lambda body. -/
inductive Role where
  | head
  | argument
  | verbatim
  deriving DecidableEq

/-- An expression before its names are looked up. -/
inductive Phrase where
  | word (role : Role) (text : Text)
  | lambda (param : Char) (body : Phrase)
  | apply (function argument : Phrase)
  | fault (error : Error)
  deriving DecidableEq

/-- The variable a word is, when it is a single lowercase letter. -/
def letter? : Text → Option Char
  | [c] => if c.isLower then some c else none
  | _ => none

/-- What a name stands for: a word in a lambda body is taken as written, any other must be defined. -/
def Role.refer (definitions : Definitions) (name : Text) : Role → Except Error Term
  | .verbatim => .ok (.ref name)
  | .head => if definitions.contains name then .ok (.ref name) else .error (.unknownName name)
  | .argument =>
    if definitions.contains name then .ok (.ref name) else .error (.unknownArgument name)

/-- What a word stands for: a variable, or else a name. -/
def Role.resolve (definitions : Definitions) (text : Text) (role : Role) : Except Error Term :=
  match letter? text with
  | some name => .ok (.var name)
  | none => role.refer definitions text

/-- Looks up the names of a phrase, from left to right and from the inside out. -/
def Phrase.resolve (definitions : Definitions) : Phrase → Except Error Term
  | .word role text => role.resolve definitions text
  | .lambda param body => do
    let body ← body.resolve definitions
    if param.isLower then .ok (.abs param body) else .error (.invalidParameter param)
  | .apply function argument => do
    let function ← function.resolve definitions
    let argument ← argument.resolve definitions
    return .app function argument
  | .fault error => .error error

end LambdaArrow
