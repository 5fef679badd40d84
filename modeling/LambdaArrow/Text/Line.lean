import LambdaArrow.Text.Basic

/-! Lines end at a line feed. One carriage return directly before the line feed belongs to the line's
    end; any other carriage return belongs to the line. A text that ends with a line feed has no
    empty last line. -/

namespace LambdaArrow.Text

/-- Drops one carriage return from the end. -/
def dropReturn (line : Text) : Text := if line.getLast? = some '\r' then line.dropLast else line

/-- The lines among the pieces between line feeds: only the last piece was not ended by one. -/
def ofPieces : List Text → List Text
  | [] => []
  | [last] => if last = [] then [] else [last]
  | piece :: next :: rest => dropReturn piece :: ofPieces (next :: rest)

/-- The lines of a text, without their ends. -/
def lines (text : Text) : List Text := ofPieces (text.splitOn '\n')

/-- Ends every line with a line feed. -/
def unlines (lines : List Text) : Text := lines.flatMap (· ++ ['\n'])

end LambdaArrow.Text
