import LambdaArrow.Program
import LambdaArrow.Proofs.Lines

/-! Where the helpers stand. A program is written line by line, and the helpers are put out once, just before
    the first statement, or last if no statement comes:

        comment or definition ──▶ the line                         (helpers still to come)
                    statement ──▶ helpers, the line      ──▶ from here on every line as it is
               no more lines  ──▶ helpers, if still to come

    So the lines are cut in two at the first statement, with the helpers between the two parts. -/

namespace LambdaArrow.Program

/-- What has been written, and whether the helpers are among it. -/
structure Written where
  texts : List Text
  helped : Bool

namespace Written

/-- Writes one more line, behind the helpers if it is the first statement. -/
def add (written : Written) (line : Program.Line) : Written :=
  if !written.helped && line.kind = .statement then ⟨written.texts ++ helpers ++ [line.text], true⟩
  else ⟨written.texts ++ [line.text], written.helped⟩

/-- Writes the helpers, unless they are there. -/
def close (written : Written) : List Text :=
  if written.helped then written.texts else written.texts ++ helpers

/-- Behind the helpers every line is written as it is. -/
theorem foldl_add_helped : ∀ (lines : List Program.Line) (texts : List Text),
    lines.foldl add ⟨texts, true⟩ = ⟨texts ++ lines.map (·.text), true⟩
  | [], texts => by simp
  | line :: rest, texts => by
    have ih := foldl_add_helped rest (texts ++ [line.text])
    simp [add, ih]

/-- Before them the rest of the lines is still to get them. -/
theorem close_foldl_add : ∀ (lines : List Program.Line) (texts : List Text),
    (lines.foldl add ⟨texts, false⟩).close = texts ++ withHelpers lines
  | [], texts => by simp [close, withHelpers]
  | line :: rest, texts => by
    rw [List.foldl_cons, withHelpers]
    by_cases hstatement : line.kind = .statement
    · simp [add, hstatement, foldl_add_helped, close]
    · have ih := close_foldl_add rest (texts ++ [line.text])
      simp [add, hstatement, ih]

end Written

/-! ### Two parts -/

/-- The helpers stand between the lines before the first statement and the others. -/
theorem withHelpers_eq : ∀ lines : List Program.Line, withHelpers lines =
    (lines.takeWhile (·.kind ≠ .statement)).map (·.text) ++ helpers ++
      (lines.dropWhile (·.kind ≠ .statement)).map (·.text)
  | [] => by simp [withHelpers]
  | line :: rest => by
    have ih := withHelpers_eq rest
    by_cases hstatement : line.kind = .statement <;> simp [withHelpers, hstatement, ih]

/-- The helpers stand together, before some of the lines and behind the others. -/
theorem exists_withHelpers_eq (lines : List Program.Line) : ∃ before after,
    lines.map (·.text) = before ++ after ∧ withHelpers lines = before ++ helpers ++ after := by
  refine ⟨_, _, ?_, withHelpers_eq lines⟩
  rw [← List.map_append, List.takeWhile_append_dropWhile]

theorem foldl_push : ∀ (lines : List Program.Line) (program : Program),
    lines.foldl push program = ⟨program.date, program.lines ++ lines⟩
  | [], program => by simp
  | line :: rest, program => by
    rw [List.foldl_cons, foldl_push rest, push, List.append_assoc]
    rfl

/-- CORRECT: a program is its header, the lines that were pushed before the first statement, the two helpers and
    the other lines, as one pass over the lines writes them, with line feeds between them and one at the end.
    The lines before the helpers are the most that can stand together without a statement, and what comes
    behind the helpers, if anything, starts with one. -/
theorem render_foldl_push (date : Date) (lines : List Program.Line) :
    let before := lines.takeWhile (·.kind ≠ .statement)
    let after := lines.dropWhile (·.kind ≠ .statement)
    let texts := (empty date).header :: before.map (·.text) ++ [toNumber, toBoolean] ++ after.map (·.text)
    (lines.foldl push (empty date)).render = ['\n'].intercalate texts ++ ['\n'] ∧
    (lines.foldl Written.add ⟨[(empty date).header], false⟩).close = texts ∧
    lines = before ++ after ∧ (∀ line ∈ before, line.kind ≠ .statement) ∧
    (∀ line ∈ after.head?, line.kind = .statement) ∧
    ∀ other, other <+: lines → (∀ line ∈ other, line.kind ≠ .statement) → other <+: before := by
  intro before after texts
  have htexts : (empty date).header :: withHelpers lines = texts := by
    rw [withHelpers_eq]
    rfl
  refine ⟨?_, ?_, List.takeWhile_append_dropWhile.symm, ?_, ?_, ?_⟩
  · rw [foldl_push, ← htexts, ← Text.unlines_eq_intercalate (List.cons_ne_nil _ _)]
    rfl
  · rw [Written.close_foldl_add, ← htexts, List.singleton_append]
  · intro line hline
    simpa using List.mem_takeWhile_imp hline
  · intro line hline
    have hnot := List.head?_dropWhile_not (fun line : Program.Line => decide (line.kind ≠ .statement)) lines
    rw [Option.mem_def.1 hline] at hnot
    simpa using hnot
  · rintro other ⟨rest, rfl⟩ hother
    refine ⟨rest.takeWhile (·.kind ≠ .statement), ?_⟩
    rw [← List.takeWhile_append_of_pos (by simpa using hother)]

/-- A comment and a definition stand before the helpers; a definition behind the first statement stays there. -/
theorem render_foldl_push_mixed :
    ([⟨.comment, "// a".toList⟩, ⟨.definition, "const A = x;".toList⟩, ⟨.statement, "A;".toList⟩,
      ⟨.definition, "const B = A;".toList⟩, ⟨.statement, "B;".toList⟩].foldl push
        (empty ⟨2025, .april, 19⟩)).render =
      ['\n'].intercalate [(empty ⟨2025, .april, 19⟩).header, "// a".toList, "const A = x;".toList, toNumber,
        toBoolean, "A;".toList, "const B = A;".toList, "B;".toList] ++ ['\n'] ∧
    [⟨.comment, "// a".toList⟩] <+:
      [(⟨.comment, "// a".toList⟩ : Program.Line), ⟨.definition, "const A = x;".toList⟩] := by
  obtain ⟨hrender, -, -, -, -, hlongest⟩ := render_foldl_push ⟨2025, .april, 19⟩
    [⟨.comment, "// a".toList⟩, ⟨.definition, "const A = x;".toList⟩, ⟨.statement, "A;".toList⟩,
      ⟨.definition, "const B = A;".toList⟩, ⟨.statement, "B;".toList⟩]
  exact ⟨hrender, hlongest _ ⟨_, rfl⟩ (by simp)⟩

end LambdaArrow.Program
