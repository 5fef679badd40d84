import LambdaArrow.Text.Basic

/-! Shell scripts. Words are kept as they are written, because their parameters are filled in only when
    the command they are in is run. -/

namespace LambdaArrow.Script

/-- What is done to the value of a parameter: replace it by a text when it is empty or when it is not,
    keep that text too, take a pattern off one of its ends, or count its characters. -/
inductive Change where
  | keep
  | ifEmpty (text : Text)
  | ifFilled (text : Text)
  | assign (text : Text)
  | dropEnd (longest : Bool) (pattern : Text)
  | dropStart (longest : Bool) (pattern : Text)
  | count
  deriving DecidableEq

/-- A piece of a word: a character, quotes with nothing in them, a parameter, what a script prints, or a
    number to compute. -/
inductive Part where
  | char (c : Char) (quoted : Bool)
  | emptyQuotes
  | parameter (name : Text) (change : Change) (quoted : Bool)
  | output (script : Text) (quoted : Bool)
  | computed (formula : Text) (quoted : Bool)
  deriving DecidableEq

/-- A word before its parts are filled in. -/
abbrev Word := List Part

/-- What a redirection does with a stream. -/
inductive Direction where
  | fromFile
  | fromText
  | toFile
  | appendTo
  | copyOf
  deriving DecidableEq

/-- Leads a stream, by its number, to what a word names. -/
structure Redirection where
  stream : Nat
  direction : Direction
  word : Word
  deriving DecidableEq

/-- A command of a script. A `choice` compares a word with patterns, and goes on with its last command if
    none fits. -/
inductive Command where
  | nothing
  | simple (line : Nat) (assignments : List (Text × Word)) (words : List Word)
  | redirected (body : Command) (redirections : List Redirection)
  | sequence (first second : Command)
  | both (first second : Command)
  | either (first second : Command)
  | negated (body : Command)
  | piped (first second : Command)
  | conditional (condition consequence alternative : Command)
  | loop (whileTrue : Bool) (condition body : Command)
  | each (name : Text) (values : Option (List Word)) (body : Command)
  | choice (subject : Word) (patterns : List Word) (body otherwise : Command)
  | subshell (body : Command)
  | function (name : Text) (body : Command)

/-- The text of a word that has no quotes and nothing to fill in. -/
def plain? (word : Word) : Option Text :=
  word.mapM fun
    | .char c false => some c
    | _ => none

end LambdaArrow.Script
