import LambdaArrow.Proofs.Cutting
import LambdaArrow.Proofs.Lines
import LambdaArrow.Session

/-! Blanks around lines. A line is read only through its code and its comment, and those are the same with and
    without blanks around the line. So two programs come to the same if their lines are the same up to blanks
    at both ends, line by line:

        `A := $x.x   // a`          `    A := $x.x   // a  `
        ``                          `  `
        `#A`                        `\t#A`

    Carriage returns are blanks too. A line may end with any number of them. -/

namespace LambdaArrow

/-! ### Line ends -/

namespace Text

theorem trim_dropReturn (line : Text) : trim (dropReturn line) = trim line := by
  unfold dropReturn
  split
  · rename_i hlast
    obtain ⟨start, rfl⟩ := List.getLast?_eq_some_iff.1 hlast
    rw [List.dropLast_concat, trim_append_blanks (by simp; decide)]
  · rfl

/-- The text with a carriage return before every line feed. -/
def withReturns (text : Text) : Text := replace '\n' ['\r', '\n'] text

/-- With carriage returns in front of the line feeds the lines are the same up to blanks. -/
theorem map_trim_lines_withReturns (text : Text) :
    (lines (withReturns text)).map trim = (lines text).map trim := by
  induction text using line_induction with
  | last text h => rw [withReturns, replace_of_not_mem h]
  | ended piece rest h ih =>
    have hended : withReturns (piece ++ '\n' :: rest) = (piece ++ ['\r']) ++ '\n' :: withReturns rest := by
      have hfeed : replace '\n' ['\r', '\n'] ('\n' :: rest) = '\r' :: '\n' :: withReturns rest := rfl
      rw [withReturns, replace_append, replace_of_not_mem h, hfeed]
      simp
    have hreturn : '\n' ∉ piece ++ ['\r'] := by simp [h]
    rw [hended, lines_ended hreturn, lines_ended h, List.map_cons, List.map_cons, ih, trim_dropReturn,
      trim_dropReturn, trim_append_blanks (by simp; decide)]

end Text

/-! ### Entries -/

namespace CodeLine

theorem parts_dropReturn (line : Text) : parts (Text.dropReturn line) = parts line := by
  rw [← parts_trim, Text.trim_dropReturn, parts_trim]

/-- Entries are made of the parts of lines. -/
theorem collect_congr : ∀ {first second : List Text}, first.map parts = second.map parts →
    ∀ (number : Nat) (waiting : List Text), collect number waiting first = collect number waiting second
  | [], [], _, _, _ => rfl
  | [], _ :: _, h, _, _ => by simp at h
  | _ :: _, [], h, _, _ => by simp at h
  | line :: first, other :: second, h, number, waiting => by
    obtain ⟨hparts, hrest⟩ := List.cons.inj h
    have ih := collect_congr hrest
    rw [collect, collect, hparts]
    split <;> rw [ih]

/-- Blanks around the lines of a program do not matter to its entries. -/
theorem ofProgram_congr {first second : Text}
    (h : (Text.lines first).map Text.trim = (Text.lines second).map Text.trim) :
    ofProgram first = ofProgram second := by
  have hparts : ∀ lines : List Text, lines.map parts = (lines.map Text.trim).map parts := by
    simp [parts_trim]
  apply collect_congr
  rw [hparts, h, ← hparts]

end CodeLine

/-! ### Programs -/

/-- CORRECT: two programs with as many lines, equal line by line up to the blanks around them, come to the same
    in every session: text or failure, with its line and its words, definitions and log. In particular a
    program may have carriage returns before its line feeds. -/
theorem Session.compileProgram_blanks (session : Session) :
    (∀ first second : Text, (Text.lines first).map Text.trim = (Text.lines second).map Text.trim →
      session.compileProgram first = session.compileProgram second) ∧
    ∀ program : Text, session.compileProgram (Text.withReturns program) = session.compileProgram program := by
  have hblanks : ∀ first second : Text, (Text.lines first).map Text.trim = (Text.lines second).map Text.trim →
      session.compileProgram first = session.compileProgram second := by
    intro first second h
    rw [compileProgram, compileProgram, CodeLine.ofProgram_congr h]
  exact ⟨hblanks, fun program => hblanks _ _ (Text.map_trim_lines_withReturns program)⟩

/-- Blanks of several kinds, also on a line of their own: the failure is told on the same line, of the same
    name. -/
theorem Session.compileProgram_blanks_failing :
    (Text.lines "\u3000\r\n\tA:=B ".toList).map Text.trim = (Text.lines "\nA:=B".toList).map Text.trim ∧
    (start ⟨2025, .february, 24⟩).compileProgram "\u3000\r\n\tA:=B ".toList =
      (start ⟨2025, .february, 24⟩).compileProgram "\nA:=B".toList ∧
    ((start ⟨2025, .february, 24⟩).compileProgram "\u3000\r\n\tA:=B ".toList).program =
      .error (.onLine 2 (.unknownName "B".toList)) := by
  have hlines : (Text.lines "\u3000\r\n\tA:=B ".toList).map Text.trim =
      (Text.lines "\nA:=B".toList).map Text.trim := by cbv
  have hfails : ((start ⟨2025, .february, 24⟩).compileProgram "\nA:=B".toList).program =
      .error (.onLine 2 (.unknownName "B".toList)) := by cbv
  have hsame := (compileProgram_blanks (start ⟨2025, .february, 24⟩)).1 _ _ hlines
  refine ⟨hlines, hsame, ?_⟩
  rw [hsame]
  exact hfails

end LambdaArrow
