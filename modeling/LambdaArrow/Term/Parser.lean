import LambdaArrow.Phrase.Reader

/-! Parsing is reading the shape of a text and then looking up its names. -/

namespace LambdaArrow.Term

/-- Parses an expression, whose names must be defined. -/
def parse (definitions : Definitions) (text : Text) : Except Error Term :=
  (Phrase.read .expression text).resolve definitions

/-- Parses a lambda body, whose words are taken as written. -/
def parseBody (definitions : Definitions) (text : Text) : Except Error Term :=
  (Phrase.read .body text).resolve definitions

/-- Parses a lambda literal; a text that is none is an expression. -/
def parseLiteral (definitions : Definitions) (text : Text) : Except Error Term :=
  match text.trim with
  | '$' :: rest => (Phrase.readLiteral rest).resolve definitions
  | trimmed => parse definitions trimmed

end LambdaArrow.Term
