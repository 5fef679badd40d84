import LambdaArrow.Sandbox.FileTree

/-! Programs that only read files and print. -/

namespace LambdaArrow

/-- What a program has printed when it ends, and its exit code. -/
structure Printed where
  code : Nat
  stdout : ByteArray
  stderr : ByteArray

/-- A program: from the files it sees, its input and its arguments. -/
abbrev Tool := FileTree → ByteArray → List Text → Printed

namespace Printed

/-- Ends without output. -/
def silent (code : Nat) : Printed := ⟨code, ByteArray.empty, ByteArray.empty⟩

/-- Ends well with bytes on the ordinary stream. -/
def bytes (content : List UInt8) : Printed := ⟨0, ⟨content.toArray⟩, ByteArray.empty⟩

/-- Ends with a complaint. -/
def complaint (code : Nat) (text : Text) : Printed := ⟨code, ByteArray.empty, text.toBytes⟩

/-- Whether two ends are good becomes whether both are; their output comes in order. -/
def andThen (first second : Printed) : Printed :=
  ⟨if first.code = 0 then second.code else first.code, first.stdout ++ second.stdout,
    first.stderr ++ second.stderr⟩

end Printed

/-- The bytes of a text. -/
def Text.bytes (text : Text) : List UInt8 := text.flatMap String.utf8EncodeChar

end LambdaArrow
