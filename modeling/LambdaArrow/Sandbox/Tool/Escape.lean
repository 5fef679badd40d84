import LambdaArrow.Sandbox.Tool

/-! Characters written behind a backslash: by a letter, or by the digits of their number. Behind `\c`
    nothing more is said. -/

namespace LambdaArrow.Escape

/-- What differs between programs: whether a zero before octal digits counts as one of the three, and
    whether `\e` and numbers in base 16 are known. -/
structure Style where
  freeZero : Bool
  extended : Bool

/-- The byte that a letter stands for. -/
def named? (style : Style) (letter : Char) : Option UInt8 :=
  if letter = 'e' then if style.extended then some 27 else none
  else [('\\', 92), ('a', 7), ('b', 8), ('f', 12), ('n', 10), ('r', 13), ('t', 9), ('v', 11)].lookup letter

/-- Octal digits. -/
def isOctal (c : Char) : Bool := '0' ≤ c && c ≤ '7'

/-- The value of a digit in base 16. -/
def hexValue? (c : Char) : Option Nat :=
  if c.isDigit then some (c.toNat - 48)
  else if 'a' ≤ c && c ≤ 'f' then some (c.toNat - 87)
  else if 'A' ≤ c && c ≤ 'F' then some (c.toNat - 55)
  else none

/-- The number that digits write in a base. -/
def number (base : Nat) (digits : Text) : Nat :=
  digits.foldl (fun n digit => base * n + (hexValue? digit).getD 0) 0

/-- The bytes that a text with escapes stands for, and whether it ended early. -/
def decode (style : Style) : Text → List UInt8 × Bool
  | [] => ([], false)
  | [c] => (String.utf8EncodeChar c, false)
  | c :: d :: rest =>
    if c ≠ '\\' then
      let (bytes, stopped) := decode style (d :: rest)
      (String.utf8EncodeChar c ++ bytes, stopped)
    else if d = 'c' then ([], true)
    else if isOctal d then
      let written := if style.freeZero && d = '0' then rest else d :: rest
      let digits := (written.take 3).takeWhile isOctal
      let (bytes, stopped) := decode style (written.drop digits.length)
      ((number 8 digits).toUInt8 :: bytes, stopped)
    else if d = 'x' ∧ style.extended ∧ (rest.head?.bind hexValue?).isSome then
      let digits := (rest.take 2).takeWhile fun digit => (hexValue? digit).isSome
      let (bytes, stopped) := decode style (rest.drop digits.length)
      ((number 16 digits).toUInt8 :: bytes, stopped)
    else
      let (bytes, stopped) := decode style rest
      match named? style d with
      | some byte => (byte :: bytes, stopped)
      | none => (92 :: String.utf8EncodeChar d ++ bytes, stopped)
termination_by text => text.length
decreasing_by
  all_goals simp only [List.length_cons, List.length_drop]
  · omega
  · split
    · omega
    · simp only [List.length_cons]; omega
  · omega
  · omega

end LambdaArrow.Escape
