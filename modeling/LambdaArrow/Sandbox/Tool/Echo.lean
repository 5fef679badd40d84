import LambdaArrow.Sandbox.Tool.Escape

/-! `echo` prints its arguments with spaces between them and a line feed behind. As a program of its own
    it takes options and leaves backslashes alone unless asked; inside a shell it does the opposite. -/

namespace LambdaArrow.Echo

/-- Prints the arguments. -/
def print (escapes : Option Escape.Style) (lineFeed : Bool) (arguments : List Text) : Printed :=
  let text := [' '].intercalate arguments
  let (bytes, stopped) := match escapes with
    | some style => Escape.decode style text
    | none => (Text.bytes text, false)
  .bytes (if lineFeed && !stopped then bytes ++ [10] else bytes)

/-- Whether an argument is made of options. -/
def isOptions : Text → Bool
  | '-' :: c :: cs => (c :: cs).all fun letter => "neE".toList.contains letter
  | _ => false

/-- The program. The last of the options `-e` and `-E` counts. -/
def tool : Tool := fun _ _ arguments =>
  let options := (arguments.takeWhile isOptions).flatten
  let escapes := (options.filter fun c => c = 'e' || c = 'E').getLast? = some 'e'
  print (if escapes then some ⟨true, true⟩ else none) (!options.contains 'n')
    (arguments.dropWhile isOptions)

/-- The command of a shell. -/
def builtin : Tool := fun _ _ arguments =>
  match arguments with
  | ['-', 'n'] :: rest => print (some ⟨true, false⟩) false rest
  | _ => print (some ⟨true, false⟩) true arguments

end LambdaArrow.Echo
