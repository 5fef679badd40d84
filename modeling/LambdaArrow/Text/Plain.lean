import LambdaArrow.Text.Basic

/-! Text without what only a terminal understands. Control characters are dropped unless they lay out the
    text, and so is a sequence that an escape character starts. A sequence is read character by character:

        escape ──▶ '[' parameters, up to a letter or sign from '@' on
               ──▶ ']' a command, up to a bell
               ──▶ 'P' 'X' '^' '_' a string, up to its end mark
               ──▶ blank or punctuation below '0', up to any later character
               ──▶ one other character

    A character that lays out the text is kept inside a sequence too. What follows it is text again, until a
    character is dropped: then the sequence goes on. -/

namespace LambdaArrow.Text

/-- How far a sequence for the terminal has been read. -/
inductive Sequence where
  | closed
  | escape
  | intermediate
  | parameters
  | command
  | string
  deriving DecidableEq

/-- Whether a control character lays out the text: tab, line feed, form feed, carriage return. -/
def isLayout (c : Char) : Bool := c = '\t' || c = '\n' || c = '\x0c' || c = '\r'

/-- Whether a character of plain text is kept. -/
def isPlain (c : Char) : Bool := isLayout c || (0x20 ≤ c.toNat && c.toNat ≠ 0x7F)

/-- Whether a character of plain text or of a sequence is kept. -/
def Sequence.keeps (sequence : Sequence) (c : Char) : Bool :=
  match sequence with
  | .closed => isPlain c
  | .escape | .intermediate | .parameters => isLayout c
  | .command | .string => false

/-- Where the character behind the escape leads. -/
def Sequence.opened (c : Char) : Sequence :=
  if c.toNat < 0x20 || 0x7F ≤ c.toNat then .escape
  else if c.toNat < 0x30 then .intermediate
  else if c = '[' then .parameters
  else if c = ']' then .command
  else if c = 'P' || c = 'X' || c = '^' || c = '_' then .string
  else .closed

/-- Where a dropped character leads. Cancel and substitute end any sequence, and escape starts another. -/
def Sequence.after (sequence : Sequence) (c : Char) : Sequence :=
  if c = '\x18' || c = '\x1a' then .closed
  else if c = '\x1b' then .escape
  else
    let closedFrom := fun (first : Nat) => if first ≤ c.toNat && c.toNat < 0x7F then .closed else sequence
    match sequence with
    | .closed => .closed
    | .escape => .opened c
    | .intermediate => closedFrom 0x30
    | .parameters => closedFrom 0x40
    | .command => if c = '\x07' then .closed else .command
    | .string => if (toBytes [c]).data.contains 0x9C then .closed else .string

/-- What is left of a text behind part of a sequence. `shown` tells that the last character was kept. -/
def plainAfter : Sequence → Bool → Text → Text
  | _, _, [] => []
  | sequence, shown, c :: cs =>
    if sequence.keeps c || (shown && isPlain c) then
      c :: plainAfter (if 0x80 ≤ c.toNat then .closed else sequence) true cs
    else plainAfter (sequence.after c) false cs

/-- The text without what only a terminal understands. -/
def plain (text : Text) : Text := plainAfter .closed true text

/-- The text with every line but the first set in by four blanks. -/
def hang (text : Text) : Text := text.flatMap fun c => if c = '\n' then "\n    ".toList else [c]

end LambdaArrow.Text
