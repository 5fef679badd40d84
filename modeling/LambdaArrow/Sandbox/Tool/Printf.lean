import LambdaArrow.Sandbox.Tool.Escape

/-! `printf` prints its arguments by a format, which it starts again while arguments are left. -/

namespace LambdaArrow.Printf

/-- A place in a format that an argument fills. -/
structure Slot where
  flags : Text
  width : Nat
  places : Option Nat
  conversion : Char

/-- A format is text and slots in turn. -/
inductive Segment where
  | text (text : Text)
  | slot (slot : Slot)

/-- The number at the start of a text. -/
def leadingNumber (text : Text) : Nat := Escape.number 10 (text.takeWhile Char.isDigit)

/-- Characters that may stand before the width of a slot. -/
def isFlag (c : Char) : Bool := "-0 +#".toList.contains c

/-- The slot behind a percent sign, and the text behind the slot. -/
def slot? (text : Text) : Option (Slot × Text) :=
  let flags := text.takeWhile isFlag
  let afterFlags := text.dropWhile isFlag
  let width := leadingNumber afterFlags
  match afterFlags.dropWhile Char.isDigit with
  | [] => none
  | '.' :: rest =>
    match rest.dropWhile Char.isDigit with
    | [] => none
    | conversion :: rest' => some (⟨flags, width, some (leadingNumber rest), conversion⟩, rest')
  | conversion :: rest => some (⟨flags, width, none, conversion⟩, rest)

/-- The segments of a format, of at most `fuel` characters. -/
def segments : Nat → Text → List Segment
  | 0, _ => []
  | _, [] => []
  | fuel + 1, '%' :: '%' :: rest => .text ['%'] :: segments fuel rest
  | fuel + 1, '%' :: rest =>
    match slot? rest with
    | some (slot, rest) => .slot slot :: segments fuel rest
    | none => [.text ('%' :: rest)]
  | fuel + 1, c :: rest =>
    .text (c :: rest.takeWhile (· ≠ '%')) :: segments fuel (rest.dropWhile (· ≠ '%'))

/-- Makes bytes as wide as a slot asks for. -/
def pad (slot : Slot) (fill : Char) (bytes : List UInt8) : List UInt8 :=
  let missing := Text.bytes (List.replicate (slot.width - bytes.length) fill)
  if slot.flags.contains '-' then bytes ++ missing else missing ++ bytes

/-- The whole number that an argument writes; a quote stands for the character behind it. -/
def integer? (argument : Text) : Option Int :=
  match argument with
  | [] => some 0
  | '"' :: c :: _ => some c.toNat
  | '\'' :: c :: _ => some c.toNat
  | '-' :: digits => if digits.all Char.isDigit then (String.ofList digits).toNat?.map (- ·) else none
  | '0' :: 'x' :: digits =>
    if digits.all fun c => (Escape.hexValue? c).isSome then some (Escape.number 16 digits) else none
  | '0' :: digits => if digits.all Escape.isOctal then some (Escape.number 8 digits) else none
  | digits => if digits.all Char.isDigit then (String.ofList digits).toNat?.map (·) else none

/-- A whole number by a slot, without its width. -/
def integerText (slot : Slot) (value : Int) : Text :=
  let base := if slot.conversion = 'o' then 8 else if "xX".toList.contains slot.conversion then 16 else 10
  let magnitude := if base = 10 then value.natAbs else (value % 18446744073709551616).toNat
  let digits := Nat.toDigits base magnitude
  let digits := if slot.conversion = 'X' then digits.map Char.toUpper else digits
  let digits := List.replicate ((slot.places.getD 1) - digits.length) '0' ++ digits
  if base = 10 ∧ value < 0 then '-' :: digits
  else if base = 10 && slot.flags.contains '+' then '+' :: digits
  else digits

/-- What going through a format comes to: bytes, the arguments left, whether it ended early, the worst
    exit code, and complaints. -/
structure Filled where
  bytes : List UInt8
  left : List Text
  stopped : Bool
  code : Nat
  complaints : List Text

/-- Puts what came before in front. -/
def Filled.after (later : Filled) (bytes : List UInt8) (complaints : List Text) : Filled :=
  { later with
    bytes := bytes ++ later.bytes
    code := if complaints = [] then later.code else max 1 later.code
    complaints := complaints ++ later.complaints }

/-- A slot filled with an argument: its bytes, whether it ended early, and complaints. `none` for a slot
    that is not known. -/
def fillSlot? (slot : Slot) (argument : Text) : Option (List UInt8 × Bool × List Text) :=
  match slot.conversion with
  | 's' => some (pad slot ' ' (Text.bytes (slot.places.elim argument argument.take)), false, [])
  | 'c' => some (pad slot ' ' (Text.bytes (argument.take 1)), false, [])
  | 'b' =>
    let (bytes, stopped) := Escape.decode ⟨true, false⟩ argument
    some (pad slot ' ' bytes, stopped, [])
  | conversion =>
    if "diuoxX".toList.contains conversion then
      let zeros := slot.flags.contains '0' && !slot.flags.contains '-'
      let value := integer? argument
      let complaint := argument ++ ": expected numeric value".toList
      some (pad slot (if zeros then '0' else ' ') (Text.bytes (integerText slot (value.getD 0))), false,
        if value.isSome then [] else [complaint])
    else none

/-- Goes once through a format. -/
def fill : List Segment → List Text → Filled
  | [], arguments => ⟨[], arguments, false, 0, []⟩
  | .text text :: rest, arguments =>
    let (bytes, stopped) := Escape.decode ⟨false, false⟩ text
    if stopped then ⟨bytes, [], true, 0, []⟩ else (fill rest arguments).after bytes []
  | .slot slot :: rest, arguments =>
    match fillSlot? slot (arguments.headD []) with
    | none => ⟨[], [], true, 2, [['%', slot.conversion] ++ ": invalid directive".toList]⟩
    | some (bytes, stopped, complaints) =>
      if stopped then ⟨bytes, [], true, 0, complaints⟩
      else (fill rest arguments.tail).after bytes complaints

/-- Goes through a format until no argument is left, at most `rounds` times. -/
def fillAll (format : List Segment) : Nat → List Text → Filled
  | 0, _ => ⟨[], [], true, 0, []⟩
  | rounds + 1, arguments =>
    let filled := fill format arguments
    if filled.stopped ∨ filled.left = [] ∨ filled.left.length = arguments.length then filled
    else
      let later := (fillAll format rounds filled.left).after filled.bytes filled.complaints
      { later with code := max filled.code later.code }

/-- The program. -/
def tool : Tool := fun _ _ arguments =>
  match arguments with
  | [] => .complaint 2 "printf: usage: printf format [arg ...]\n".toList
  | format :: rest =>
    let filled := fillAll (segments format.length format) (rest.length + 1) rest
    let complaints : Text := filled.complaints.flatMap fun words =>
      "printf: ".toList ++ words ++ ['\n']
    ⟨filled.code, ⟨filled.bytes.toArray⟩, complaints.toBytes⟩

end LambdaArrow.Printf
