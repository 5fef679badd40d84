import LambdaArrow.Text.Basic

/-! Paths are names between slashes. An empty name and a single dot stand for the folder they are in. -/

namespace LambdaArrow.Path

/-- The names of a path, empty ones included. -/
def names (path : Text) : List Text := path.splitOn '/'

/-- Whether a name stands for the folder it is in. -/
def isHere (name : Text) : Bool := name = [] || name = ['.']

/-- Whether a name stands for the folder above. -/
def isAbove (name : Text) : Bool := name = ['.', '.']

/-- The name of what a path leads to, unless it leads up. -/
def lastName? (path : Text) : Option Text :=
  match ((names path).filter fun name => !isHere name).getLast? with
  | some name => if isAbove name then none else some name
  | none => none

/-- What follows the last dot of a name, if anything is before that dot. -/
def extensionOf? (name : Text) : Option Text :=
  let pieces := name.splitOn '.'
  if pieces.dropLast = [] ∨ pieces.dropLast = [[]] then none else pieces.getLast?

/-- The extension of a path. -/
def extension? (path : Text) : Option Text := (lastName? path).bind extensionOf?

/-- The extension of source files. -/
def sourceExtension : Text := "lc".toList

end LambdaArrow.Path
