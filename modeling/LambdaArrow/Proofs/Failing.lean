import LambdaArrow.Proofs.Causes
import LambdaArrow.Proofs.Lines
import LambdaArrow.Proofs.Pass

/-! What a program that fails tells and leaves behind. It fails at one line, which the failure names; the
    lines before that one compile, and what they define is what is defined afterwards. The cause is that of
    the line's directive, in words that stand unchanged behind the number of the line. -/

namespace LambdaArrow

namespace Pass

/-- Lines compile exactly when each does with the definitions that the lines before it leave. -/
theorem exists_output_eq_ok_iff {lines : List Text} {number : Nat} {definitions : Definitions} :
    (∃ done, (ofLines number lines definitions).output = .ok done) ↔
      ∀ before line after, lines = before ++ line :: after →
        ∃ compiled, (Directive.parse (CodeLine.parts line).1).compile
          (ofLines number before definitions).definitions = .ok compiled := by
  constructor
  · rintro ⟨done, hdone⟩ before line after rfl
    by_contra hfails
    -- then the line fails behind those before it, and so do all lines together
    rw [ofLines_append] at hdone
    cases hbefore : (ofLines number before definitions).output with
    | error error =>
      rw [andThen_of_error hbefore, hbefore] at hdone
      cases hdone
    | ok first =>
      rw [andThen_of_ok hbefore] at hdone
      cases hline : (Directive.parse (CodeLine.parts line).1).compile
          (ofLines number before definitions).definitions with
      | ok compiled => exact hfails ⟨compiled, hline⟩
      | error cause => simp [ofLines, ofLine_of_error hline, andThen, Except.map] at hdone
  · intro hlines
    cases houtput : (ofLines number lines definitions).output with
    | ok done => exact ⟨done, rfl⟩
    | error error =>
      obtain ⟨before, line, after, _, cause, heq, -, -, hfails, -⟩ := of_output_eq_error houtput
      obtain ⟨compiled, hcompiled⟩ := hlines before line after heq
      rw [hfails] at hcompiled
      cases hcompiled

/-- Lines whose failure, if there is one, comes behind a line have compiled that line and those before it. -/
theorem exists_compiled_of_failure_behind {lines : List Text} {definitions : Definitions} {index : Nat}
    {line : Text} (hline : lines[index]? = some line)
    (hrun : ∀ number cause, (ofLines 0 lines definitions).output = .error (.onLine number cause) →
      index + 1 < number) :
    ∃ done compiled, (ofLines 0 (lines.take index) definitions).output = .ok done ∧
      (Directive.parse (CodeLine.parts line).1).compile
        (ofLines 0 (lines.take index) definitions).definitions = .ok compiled := by
  -- the lines up to the failure, which hold the line
  have hstart : ∃ start done, start <+: lines ∧ start[index]? = some line ∧
      (ofLines 0 start definitions).output = .ok done := by
    cases houtput : (ofLines 0 lines definitions).output with
    | ok done => exact ⟨lines, done, List.prefix_rfl, hline, houtput⟩
    | error error =>
      obtain ⟨before, failing, after, done, cause, rfl, hdone, -, -, rfl⟩ := of_output_eq_error houtput
      have hlt : index < before.length := by
        have := hrun _ cause houtput
        omega
      rw [List.getElem?_append_left hlt] at hline
      exact ⟨before, done, List.prefix_append _ _, hline, hdone⟩
  obtain ⟨start, done, ⟨after, rfl⟩, hget, hdone⟩ := hstart
  obtain ⟨hlt, rfl⟩ := List.getElem?_eq_some_iff.1 hget
  rw [List.take_append_of_le_length hlt.le]
  have heach := exists_output_eq_ok_iff.1 ⟨done, hdone⟩
  obtain ⟨compiled, hcompiled⟩ := heach (start.take index) start[index] (start.drop (index + 1))
    (by rw [List.getElem_cons_drop, List.take_append_drop])
  obtain ⟨first, hfirst⟩ := exists_output_eq_ok_iff.2 fun before other rest heq =>
    heach before other (rest ++ start.drop index) (by
      rw [← List.cons_append, ← List.append_assoc, ← heq, List.take_append_drop])
  exact ⟨first, compiled, hfirst, hcompiled⟩

theorem ofProgram_firstLines (count : Nat) (program : Text) :
    ofProgram (Text.firstLines count program) = ofLines 0 ((Text.lines program).take count) := by
  rw [ofProgram, Text.lines_firstLines]

end Pass

namespace Session

variable {session : Session}

theorem exists_compile_eq_ok_iff {directive : Directive} :
    (∃ result, session.compile directive = .ok result) ↔
      ∃ compiled, directive.compile session.definitions = .ok compiled := by
  simp only [compile_eq_ok_iff]
  constructor
  · rintro ⟨_, compiled, hcompiled, -⟩
    exact ⟨compiled, hcompiled⟩
  · rintro ⟨compiled, hcompiled⟩
    exact ⟨_, compiled, hcompiled, rfl⟩

theorem exists_program_eq_ok_iff {program : Text} :
    (∃ done, (session.compileProgram program).program = .ok done) ↔
      ∃ lines, (Pass.ofProgram program session.definitions).output = .ok lines := by
  simp only [program_eq_ok_iff]
  constructor
  · rintro ⟨_, lines, hlines, -⟩
    exact ⟨lines, hlines⟩
  · rintro ⟨lines, hlines⟩
    exact ⟨_, lines, hlines, rfl⟩

/-- CORRECT: a program fails at the first line whose directive fails after the lines before it, and not
    otherwise. The failure names that line, gives the cause of its directive, and leaves what the lines
    before it have defined. -/
theorem compileProgram_failure (session : Session) (program : Text) :
    (∀ error, (session.compileProgram program).program = .error error →
      ∃ number line code cause,
        let before := session.compileProgram (Text.firstLines (number - 1) program)
        error = .onLine number cause ∧ cause.line? = none ∧
        1 ≤ number ∧ number ≤ (Text.lines program).length ∧
        (∃ done, before.program = .ok done) ∧
        (session.compileProgram program).session = before.session ∧
        (Text.lines program)[number - 1]? = some line ∧ CodeLine.IsCode line code ∧
        before.session.compile (Directive.parse (Text.trim code)) = .error cause ∧
        error.message = "line ".toList ++ Nat.toDigits 10 number ++ ": ".toList ++ cause.message) ∧
    ((∃ done, (session.compileProgram program).program = .ok done) ↔
      ∀ index line code, (Text.lines program)[index]? = some line → CodeLine.IsCode line code →
        ∃ result, (session.compileProgram (Text.firstLines index program)).session.compile
          (Directive.parse (Text.trim code)) = .ok result) := by
  constructor
  · intro error herror
    rw [program_eq_error_iff] at herror
    obtain ⟨before, line, after, done, cause, hlines, hdone, hdefinitions, hcause, rfl⟩ :=
      Pass.of_output_eq_error herror
    obtain ⟨code, hcode, hparts⟩ := CodeLine.exists_isCode line
    have hbefore : Pass.ofProgram (Text.firstLines before.length program) = Pass.ofLines 0 before := by
      rw [Pass.ofProgram_firstLines, hlines, List.take_left]
    refine ⟨before.length + 1, line, code, cause, ?_⟩
    simp only [Nat.add_sub_cancel, exists_program_eq_ok_iff, session_eq_pass, compile_eq_error_iff, hbefore]
    refine ⟨by rw [Nat.zero_add], Directive.line?_of_compile hcause, Nat.succ_pos _, ?_, ⟨done, hdone⟩, ?_,
      by simp [hlines], hcode, hparts ▸ hcause, by rw [Nat.zero_add]; rfl⟩
    · rw [hlines, List.length_append, List.length_cons]
      omega
    · rw [← hdefinitions]
      rfl
  · rw [exists_program_eq_ok_iff, Pass.ofProgram, Pass.exists_output_eq_ok_iff]
    simp only [exists_compile_eq_ok_iff, session_eq_pass, Pass.ofProgram_firstLines]
    constructor
    · intro hlines index line code hline hcode
      obtain ⟨hlt, hget⟩ := List.getElem?_eq_some_iff.1 hline
      rw [hcode.trim_eq]
      refine hlines _ line ((Text.lines program).drop (index + 1)) ?_
      rw [← hget, List.getElem_cons_drop, List.take_append_drop]
    · intro hlines before line after heq
      obtain ⟨code, hcode, hparts⟩ := CodeLine.exists_isCode line
      have hline := hlines before.length line code (by simp [heq]) hcode
      rwa [heq, List.take_left, ← hparts] at hline

/-- The third line fails behind a comment and a blank line, and `A` stays defined. -/
theorem compileProgram_failure_third_line :
    (∃ done, ((start ⟨2025, .february, 24⟩).compileProgram "A:=x//c\n\n".toList).program = .ok done) ∧
    ((start ⟨2025, .february, 24⟩).compileProgram "A:=x//c\n\n#B".toList).session =
      ((start ⟨2025, .february, 24⟩).compileProgram "A:=x//c\n\n".toList).session ∧
    ((start ⟨2025, .february, 24⟩).compileProgram "A:=x//c\n\n".toList).session.compile
      (Directive.parse "#B".toList) = .error (.unknownName "B".toList) := by
  have hfails : ((start ⟨2025, .february, 24⟩).compileProgram "A:=x//c\n\n#B".toList).program =
      .error (.onLine 3 (.unknownName "B".toList)) := by cbv
  obtain ⟨number, line, code, cause, herror, -, -, -, hbefore, hsession, hline, hcode, hcompile, -⟩ :=
    (compileProgram_failure _ _).1 _ hfails
  cases herror
  have hstart : Text.firstLines (3 - 1) "A:=x//c\n\n#B".toList = "A:=x//c\n\n".toList := by decide
  have hthird : line = "#B".toList :=
    Option.some.inj (hline.symm.trans (show (Text.lines "A:=x//c\n\n#B".toList)[2]? = _ by decide))
  have htrim : Text.trim code = "#B".toList := by
    rw [hcode.trim_eq, hthird]
    decide
  rw [hstart] at hbefore hsession hcompile
  rw [htrim] at hcompile
  exact ⟨hbefore, hsession, hcompile⟩

end Session

end LambdaArrow
