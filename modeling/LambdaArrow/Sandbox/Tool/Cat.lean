import LambdaArrow.Sandbox.Tool.Name

/-! `cat` prints files one after the other. Options number the lines, squeeze blank ones, or show what
    cannot be seen. -/

namespace LambdaArrow.Cat

/-- What the options ask for. -/
structure Style where
  number : Bool
  numberFilled : Bool
  squeeze : Bool
  ends : Bool
  tabs : Bool
  marks : Bool
  deriving DecidableEq

/-- Prints files as they are. -/
def Style.plain : Style := ⟨false, false, false, false, false, false⟩

/-- Takes in the option of a letter. -/
def Style.letter? (style : Style) (letter : Char) : Option Style :=
  match letter with
  | 'A' => some { style with marks := true, ends := true, tabs := true }
  | 'b' => some { style with numberFilled := true }
  | 'e' => some { style with marks := true, ends := true }
  | 'E' => some { style with ends := true }
  | 'n' => some { style with number := true }
  | 's' => some { style with squeeze := true }
  | 't' => some { style with marks := true, tabs := true }
  | 'T' => some { style with tabs := true }
  | 'u' => some style
  | 'v' => some { style with marks := true }
  | _ => none

/-- The letter of an option with a long name. -/
def longName? (name : Text) : Option Char :=
  [("show-all".toList, 'A'), ("number-nonblank".toList, 'b'), ("show-ends".toList, 'E'),
    ("number".toList, 'n'), ("squeeze-blank".toList, 's'), ("show-tabs".toList, 'T'),
    ("show-nonprinting".toList, 'v')].lookup name

/-- Takes in one-letter options, or tells the first one that is not known. -/
def Style.letters (style : Style) : Text → Except Char Style
  | [] => .ok style
  | letter :: rest =>
    match style.letter? letter with
    | some style => style.letters rest
    | none => .error letter

/-- What a wrong option is told. -/
def refusal (words : Text) : Text :=
  "cat: ".toList ++ words ++ "\nTry 'cat --help' for more information.\n".toList

/-- Options and names among the arguments; options may follow names. -/
def split (style : Style) (names : List Text) : List Text → Except Text (Style × List Text)
  | [] => .ok (style, names)
  | ['-', '-'] :: rest => .ok (style, names ++ rest)
  | ('-' :: '-' :: long) :: rest =>
    match (longName? long).bind style.letter? with
    | some style => split style names rest
    | none => .error (refusal ("unrecognized option '--".toList ++ long ++ ['\'']))
  | ('-' :: letter :: letters) :: rest =>
    match style.letters (letter :: letters) with
    | .ok style => split style names rest
    | .error wrong => .error (refusal ("invalid option -- '".toList ++ [wrong, '\'']))
  | name :: rest => split style (names ++ [name]) rest

/-- A byte below 128 so that it can be seen. -/
def showLow (byte : UInt8) : List UInt8 :=
  if byte < 32 then [94, byte + 64] else if byte = 127 then [94, 63] else [byte]

/-- A byte as a style shows it. -/
def showByte (style : Style) (byte : UInt8) : List UInt8 :=
  if byte = 9 then if style.tabs then [94, 73] else [9]
  else if !style.marks then [byte]
  else if byte < 128 then showLow byte
  else 77 :: 45 :: showLow (byte - 128)

/-- A line number in front of its line. -/
def lineNumber (n : Nat) : List UInt8 :=
  let digits := Text.ofNat n
  Text.bytes (List.replicate (6 - digits.length) ' ' ++ digits ++ ['\t'])

/-- Shows the pieces between line feeds. The last piece is not ended by one; `n` lines are numbered so
    far, and `blank` tells whether the line before was blank. -/
def showPieces (style : Style) (n : Nat) (blank : Bool) : List (List UInt8) → List UInt8
  | [] => []
  | piece :: rest =>
    if rest = [] ∧ piece = [] then []
    else if style.squeeze && blank && piece.isEmpty then showPieces style n true rest
    else
      let numbered := if style.numberFilled then !piece.isEmpty else style.number
      let front := if numbered then lineNumber (n + 1) else []
      let back := if rest = [] then [] else if style.ends then [36, 10] else [10]
      front ++ piece.flatMap (showByte style) ++ back ++
        showPieces style (if numbered then n + 1 else n) piece.isEmpty rest

/-- Shows bytes in a style. -/
def render (style : Style) (bytes : ByteArray) : ByteArray :=
  if style = .plain then bytes else ⟨(showPieces style 0 false (bytes.toList.splitOn 10)).toArray⟩

/-- The bytes of a file; a dash is the input. -/
def content (files : FileTree) (input : ByteArray) (name : Text) : Printed :=
  if name = ['-'] then ⟨0, input, ByteArray.empty⟩
  else
    match files.read name with
    | .ok bytes => ⟨0, bytes, ByteArray.empty⟩
    | .error fault =>
      .complaint 1 ("cat: ".toList ++ Name.quoted name ++ ": ".toList ++ fault.reason ++ ['\n'])

/-- The program. Without a name it prints its input. -/
def tool : Tool := fun files input arguments =>
  match split .plain [] arguments with
  | .error words => .complaint 1 words
  | .ok (style, names) =>
    let names := if names = [] then [['-']] else names
    let all := (names.map (content files input)).foldl Printed.andThen (Printed.silent 0)
    { all with stdout := render style all.stdout }

end LambdaArrow.Cat
