import LambdaArrow.Sandbox.Tool

/-! Names in complaints. A name that a shell would not take for one plain word is put in quotes, so that
    it can be given back to the shell as it is told. -/

namespace LambdaArrow.Name

/-- Characters that a shell treats in a special way wherever they stand. -/
def isSpecial (c : Char) : Bool := " !\"$&()*;<=>[^`|?\\:'".toList.contains c

/-- Whether a character is plain print. -/
def isPrint (c : Char) : Bool := 0x20 ≤ c.toNat && c.toNat < 0x7F

/-- Whether a name can stand without quotes. -/
def isPlain (name : Text) : Bool :=
  match name with
  | [] => false
  | first :: rest =>
    !(first = '#' || first = '~') && !(rest = [] && (first = '\x7b' || first = '\x7d')) &&
      name.all fun c => isPrint c && !isSpecial c

/-- Characters that mean the same in double quotes as alone. -/
def isSafe (c : Char) : Bool := isPrint c && !("!\"$&()*;<=>[^`|?\\\x7b\x7d#~".toList.contains c)

/-- A byte that is no print, by its letter or number. -/
def byteName (byte : UInt8) : Text :=
  match [(7, 'a'), (8, 'b'), (9, 't'), (10, 'n'), (11, 'v'), (12, 'f'), (13, 'r')].lookup byte with
  | some letter => ['\\', letter]
  | none =>
    let n := byte.toNat
    '\\' :: [n / 64, n / 8 % 8, n % 8].map Nat.digitChar

/-- The inside of single quotes; characters that are no print get quotes of their own, and `outside` tells
    that such quotes are open. -/
def inSingle (outside : Bool) : Text → Text
  | [] => []
  | c :: rest =>
    if isPrint c then
      (if outside then ['\'', '\''] else []) ++ (if c = '\'' then "'\\''".toList else [c]) ++
        inSingle false rest
    else
      (if outside then [] else "'$'".toList) ++ (String.utf8EncodeChar c).flatMap byteName ++
        inSingle true rest

/-- A name as a complaint tells it. -/
def quoted (name : Text) : Text :=
  if isPlain name then name
  else if name.contains '\'' && name.all isSafe then '"' :: name ++ ['"']
  else '\'' :: inSingle false name ++ ['\'']

end LambdaArrow.Name
