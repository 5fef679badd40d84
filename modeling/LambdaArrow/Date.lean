import LambdaArrow.Text.Basic

/-! Calendar dates as the header of a compiled program writes them: `February 24, 2025`. -/

namespace LambdaArrow

/-- The months of the year. -/
inductive Month where
  | january | february | march | april | may | june
  | july | august | september | october | november | december
  deriving DecidableEq

namespace Month

/-- The month with a number from 1 to 12. -/
def ofNat? : Nat → Option Month
  | 1 => some .january
  | 2 => some .february
  | 3 => some .march
  | 4 => some .april
  | 5 => some .may
  | 6 => some .june
  | 7 => some .july
  | 8 => some .august
  | 9 => some .september
  | 10 => some .october
  | 11 => some .november
  | 12 => some .december
  | _ => none

/-- The English name of a month. -/
def name : Month → Text
  | .january => "January".toList
  | .february => "February".toList
  | .march => "March".toList
  | .april => "April".toList
  | .may => "May".toList
  | .june => "June".toList
  | .july => "July".toList
  | .august => "August".toList
  | .september => "September".toList
  | .october => "October".toList
  | .november => "November".toList
  | .december => "December".toList

end Month

/-- A day of the calendar. -/
structure Date where
  year : Int
  month : Month
  day : Nat
  deriving DecidableEq

namespace Date

/-- A year has at least four digits. A sign stands before one below zero or above 9999. -/
def yearText (year : Int) : Text :=
  let digits := Text.ofNat year.natAbs
  let padded := List.replicate (4 - digits.length) '0' ++ digits
  if year < 0 then '-' :: padded else if year > 9999 then '+' :: padded else padded

/-- The month's name, the day, and the year behind a comma. -/
def toText (date : Date) : Text :=
  date.month.name ++ ' ' :: Text.ofNat date.day ++ ", ".toList ++ yearText date.year

end Date

end LambdaArrow
