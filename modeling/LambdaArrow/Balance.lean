import LambdaArrow.Text.Basic

/-! Parentheses are balanced when every closing one meets an opening one and none stays open. The
    scan keeps the columns of the parentheses that are still open, innermost first, so that a fault
    names the parenthesis to blame. -/

namespace LambdaArrow.Balance

/-- An unbalanced parenthesis, by its column: the number of characters before it. -/
inductive Fault where
  | closing (column : Nat)
  | opening (column : Nat)
  deriving DecidableEq

/-- The first fault of a text that starts at `column` while the parentheses in `opens` are open. -/
def scan (opens : List Nat) (column : Nat) : Text → Option Fault
  | [] => opens.head?.map .opening
  | c :: cs =>
    if c = '(' then scan (column :: opens) (column + 1) cs
    else if c = ')' then
      match opens with
      | [] => some (.closing column)
      | _ :: outer => scan outer (column + 1) cs
    else scan opens (column + 1) cs

/-- The fault of a text: its first closing parenthesis too many, or else the last parenthesis opened
    and not closed. -/
def fault? (text : Text) : Option Fault := scan [] 0 text

/-- The column of the parenthesis to blame. -/
def Fault.column : Fault → Nat
  | .closing column => column
  | .opening column => column

/-- What is wrong with the parenthesis. -/
def Fault.message : Fault → Text
  | .closing _ => "unmatched closing parenthesis".toList
  | .opening _ => "unmatched opening parenthesis".toList

end LambdaArrow.Balance
