import LambdaArrow.Term

/-! Terms as JavaScript. An abstraction is an arrow function of one parameter and an application a
    call with one argument, so `$fa.f a` becomes `(f) => (a) => f(a)`. An arrow function's body
    reaches as far right as it can, so an arrow function that is called stands in parentheses. -/

namespace LambdaArrow.Term

/-- Text in parentheses. -/
def parens (text : Text) : Text := '(' :: text ++ [')']

/-- A term as curried arrow functions. -/
def arrow : Term → Text
  | .var name => [name]
  | .ref name => name
  | .abs param body => parens [param] ++ " => ".toList ++ body.arrow
  | .app function argument =>
    (if function.isAbs then parens function.arrow else function.arrow) ++ parens argument.arrow

end LambdaArrow.Term
