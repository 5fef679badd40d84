import LambdaArrow.Text.Basic

/-! Messages on what is being done, each at a level. A reader chooses the last level to be shown. -/

namespace LambdaArrow.Log

/-- How important a message is, the most important first. -/
inductive Level where
  | error
  | warn
  | info
  | debug
  | trace
  deriving DecidableEq

/-- Position of a level, from the most important on. -/
def Level.rank : Level → Nat
  | .error => 0
  | .warn => 1
  | .info => 2
  | .debug => 3
  | .trace => 4

/-- Name of a level. -/
def Level.name : Level → Text
  | .error => "ERROR".toList
  | .warn => "WARN".toList
  | .info => "INFO".toList
  | .debug => "DEBUG".toList
  | .trace => "TRACE".toList

/-- The level that a reader asks for, in small letters. -/
def Level.ofName? (name : Text) : Option Level :=
  [("error".toList, .error), ("warn".toList, .warn), ("info".toList, .info), ("debug".toList, .debug),
    ("trace".toList, .trace)].lookup name

/-- A message at its level. -/
structure Entry where
  level : Level
  message : Text
  deriving DecidableEq

/-- Whether a message is shown when `last` is the last level shown, if any is. -/
def Entry.shown (last : Option Level) (entry : Entry) : Bool :=
  match last with
  | none => false
  | some last => entry.level.rank ≤ last.rank

end LambdaArrow.Log
