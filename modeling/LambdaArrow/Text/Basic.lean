/-! Text is a list of characters, so that every scan below is a recursion on a list. Bytes appear
    only where a place in a text is counted in its UTF-8 form and where text meets a file. -/

namespace LambdaArrow

/-- Text, character by character. -/
abbrev Text := List Char

namespace Text

/-- Number of bytes of the UTF-8 form. -/
def byteLength : Text → Nat
  | [] => 0
  | c :: cs => c.utf8Size + byteLength cs

/-- The UTF-8 form. -/
def toBytes (text : Text) : ByteArray := (String.ofList text).toUTF8

/-- Text of a UTF-8 form; `none` when the bytes are not one. -/
def ofBytes? (bytes : ByteArray) : Option Text := (String.fromUTF8? bytes).map String.toList

/-- Decimal digits of a number. -/
def ofNat (n : Nat) : Text := Nat.toDigits 10 n

/-- Cuts a text at the first place where a nonempty `marker` stands: what is before it and what is
    after it. -/
def cut? (marker : Text) : Text → Option (Text × Text)
  | [] => none
  | c :: cs =>
    match marker.isPrefixOf? (c :: cs) with
    | some after => some ([], after)
    | none => (cut? marker cs).map fun (before, after) => (c :: before, after)

end Text

end LambdaArrow
