/-! Tables keep their entries in the order in which the keys first came. A key that comes again keeps
    its place and takes the new value. -/

namespace LambdaArrow

/-- Values by key, in order of first insertion. -/
structure Table (κ α : Type) where
  entries : List (κ × α)

namespace Table

variable {κ α : Type} [DecidableEq κ]

/-- The table without entries. -/
def empty : Table κ α := ⟨[]⟩

/-- The keys in order. -/
def keys (table : Table κ α) : List κ := table.entries.map (·.1)

/-- The value of a key. -/
def find? (table : Table κ α) (key : κ) : Option α := table.entries.lookup key

/-- Whether a key has a value. -/
def contains (table : Table κ α) (key : κ) : Bool := (table.find? key).isSome

/-- Number of entries. -/
def size (table : Table κ α) : Nat := table.entries.length

/-- Whether there is no entry. -/
def isEmpty (table : Table κ α) : Bool := table.entries.isEmpty

/-- Puts a value in the place of its key, or last when the key is new. -/
def place (key : κ) (value : α) : List (κ × α) → List (κ × α)
  | [] => [(key, value)]
  | entry :: rest =>
    if entry.1 = key then (key, value) :: rest else entry :: place key value rest

/-- Gives a key a value. -/
def insert (table : Table κ α) (key : κ) (value : α) : Table κ α := ⟨place key value table.entries⟩

/-- Takes the entry of a key away. -/
def erase (table : Table κ α) (key : κ) : Table κ α :=
  ⟨table.entries.filter fun entry => entry.1 ≠ key⟩

end Table

end LambdaArrow
