import LambdaArrow.Text.Blank

/-! Text inside double quotes. A quote or backslash is written behind a backslash, so the quoted text
    ends at its first quote that stands alone. For the eye of a reader of a log, characters that
    cannot be seen are written by name or number too. -/

namespace LambdaArrow.Text

/-- A quote or backslash behind a backslash, any other character alone. -/
def escapeChar (c : Char) : Text := if c = '\\' ∨ c = '"' then ['\\', c] else [c]

/-- Text that may stand between double quotes. -/
def escape (text : Text) : Text := text.flatMap escapeChar

/-- Whether a character leaves no mark: a control character, or a blank other than the space. -/
def isInvisible (c : Char) : Bool :=
  c.toNat < 0x20 || (0x7F ≤ c.toNat && c.toNat < 0xA0) || (isBlank c && c ≠ ' ')

/-- A character so that it can be seen. -/
def showChar (c : Char) : Text :=
  if c = '\t' then ['\\', 't']
  else if c = '\n' then ['\\', 'n']
  else if c = '\r' then ['\\', 'r']
  else if c.toNat = 0 then ['\\', '0']
  else if isInvisible c then "\\u\x7b".toList ++ Nat.toDigits 16 c.toNat ++ "\x7d".toList
  else escapeChar c

/-- Text in double quotes, every character of which can be seen. -/
def quoted (text : Text) : Text := '"' :: text.flatMap showChar ++ ['"']

end LambdaArrow.Text
