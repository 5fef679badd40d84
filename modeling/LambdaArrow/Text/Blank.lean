import LambdaArrow.Text.Basic

/-! Blank characters are those with the Unicode property `White_Space`. They separate words and are
    trimmed from both ends of a text. -/

namespace LambdaArrow.Text

/-- First and last code point of each run of blank characters. -/
def blankRuns : List (Nat × Nat) :=
  [(0x0009, 0x000D), (0x0020, 0x0020), (0x0085, 0x0085), (0x00A0, 0x00A0), (0x1680, 0x1680),
   (0x2000, 0x200A), (0x2028, 0x2029), (0x202F, 0x202F), (0x205F, 0x205F), (0x3000, 0x3000)]

/-- A character with the property `White_Space`. -/
def isBlank (c : Char) : Bool := blankRuns.any fun run => run.1 ≤ c.toNat && c.toNat ≤ run.2

/-- Drops the blanks at the start. -/
def trimLeft (text : Text) : Text := text.dropWhile isBlank

/-- Drops the blanks at the end. -/
def trimRight (text : Text) : Text := (text.reverse.dropWhile isBlank).reverse

/-- Drops the blanks at both ends. -/
def trim (text : Text) : Text := trimRight (trimLeft text)

/-- The maximal runs of characters that are not blank. -/
def words (text : Text) : List Text := (text.splitOnP isBlank).filter (· ≠ [])

/-! ### Trimming never lengthens -/

theorem length_trimLeft_le (text : Text) : (trimLeft text).length ≤ text.length :=
  (List.dropWhile_suffix isBlank).length_le

theorem length_trimRight_le (text : Text) : (trimRight text).length ≤ text.length := by
  simpa [trimRight] using (List.dropWhile_suffix (l := text.reverse) isBlank).length_le

theorem length_trim_le (text : Text) : (trim text).length ≤ text.length :=
  Nat.le_trans (length_trimRight_le _) (length_trimLeft_le _)

end LambdaArrow.Text
