import LambdaArrow.Proofs.Lines
import LambdaArrow.Session

/-! A label between its quotes. Who reads a quoted text goes through it character by character. A backslash
    stands for the character behind it, whichever it is, and the first quote that stands alone ends the text:

        plain    ── `\` ──▶ escaped
        plain    ── `"` ──▶ the end
        plain    ── any other character ──▶ plain
        escaped  ── any character ──▶ plain

    Escaped text never ends a quoted text and never escapes what follows it, so a label is read back as it is
    and the statement goes on behind the closing quote, whatever quotes and backslashes the label has. -/

namespace LambdaArrow

namespace Text

/-- Reads a quoted text behind its opening quote, or also behind a backslash that stands for the next character:
    its value, and what is behind its closing quote. -/
def readInside : Bool → Text → Option (Text × Text)
  | _, [] => none
  | true, c :: rest => (readInside false rest).map fun (value, after) => (c :: value, after)
  | false, c :: rest =>
    if c = '"' then some ([], rest)
    else if c = '\\' then readInside true rest
    else (readInside false rest).map fun (value, after) => (c :: value, after)

/-- Reads a quoted text from its opening quote on. -/
def readQuoted : Text → Option (Text × Text)
  | [] => none
  | c :: rest => if c = '"' then readInside false rest else none

/-! ### Escaped text -/

theorem escape_cons (c : Char) (text : Text) : escape (c :: text) = escapeChar c ++ escape text :=
  List.flatMap_cons

theorem escape_append (first second : Text) : escape (first ++ second) = escape first ++ escape second :=
  List.flatMap_append

/-- An escaped character is read as that character, and the reader is where it was. -/
theorem readInside_escapeChar (c : Char) (rest : Text) : readInside false (escapeChar c ++ rest) =
    (readInside false rest).map fun (value, after) => (c :: value, after) := by
  rw [escapeChar]
  split
  · simp [readInside]
  · rename_i hplain
    rw [not_or] at hplain
    simp [readInside, hplain]

/-- So is an escaped text, whatever follows it. -/
theorem readInside_escape (text rest : Text) : readInside false (escape text ++ rest) =
    (readInside false rest).map fun (value, after) => (text ++ value, after) := by
  induction text with
  | nil => simp [escape]
  | cons c text ih =>
    rw [escape_cons, List.append_assoc, readInside_escapeChar, ih, Option.map_map]
    rfl

theorem readQuoted_escape (text rest : Text) :
    readQuoted ('"' :: (escape text ++ '"' :: rest)) = some (text, rest) := by
  rw [readQuoted, if_pos rfl, readInside_escape]
  simp [readInside]

/-- Backslashes may be doubled first and quotes escaped then: none of the new backslashes is a quote. -/
theorem escape_eq_replace (text : Text) :
    escape text = replace '"' ['\\', '"'] (replace '\\' ['\\', '\\'] text) := by
  induction text with
  | nil => rfl
  | cons c text ih =>
    have hcons : ∀ old new, replace old new (c :: text) = replace old new [c] ++ replace old new text :=
      fun old new => replace_append old new [c] text
    rw [escape_cons, ih, hcons, replace_append]
    by_cases hslash : c = '\\' <;> by_cases hquote : c = '"' <;>
      simp [escapeChar, replace, hslash, hquote]

/-- In the other order a quote would be left alone behind two backslashes. -/
example : replace '\\' ['\\', '\\'] (replace '"' ['\\', '"'] ['"']) = ['\\', '\\', '"'] := by decide

end Text

/-! ### Labels -/

/-- CORRECT: a label compiles to a statement that prints a quoted text, and the session stays as it is. In the quoted
    text backslashes are doubled and then quotes are escaped. It is read back as `%c` and the label, and nothing
    but the color is behind its closing quote. -/
theorem Session.compile_label (session : Session) (text : Text) : ∃ rest,
    session.compile (.label text) =
      .ok (⟨some ⟨.statement, "console.log(".toList ++ rest⟩, session.definitions, []⟩, session) ∧
    rest = "\"%c".toList ++ Text.replace '"' ['\\', '"'] (Text.replace '\\' ['\\', '\\'] text) ++
      "\", \"color: blue\");".toList ∧
    Text.readQuoted rest = some ("%c".toList ++ text, ", \"color: blue\");".toList) := by
  refine ⟨'"' :: (Text.escape ("%c".toList ++ text) ++ "\", \"color: blue\");".toList), ?_, ?_, ?_⟩
  · rfl
  · rw [Text.escape_append, ← Text.escape_eq_replace]
    rfl
  · exact Text.readQuoted_escape ("%c".toList ++ text) _

end LambdaArrow
