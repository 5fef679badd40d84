import LambdaArrow.Proofs.Indentation
import LambdaArrow.Proofs.Pass

/-! Programs joined by a line feed. The joined program comes to what the first one comes to and then, with
    the definitions it leaves, the second one, wherever the seam is: behind an unfinished line, behind a
    line feed or a carriage return, behind comments that still wait, or at an empty program. A failure
    of the second program is told as many lines further down as the first one has line feeds, and one. -/

namespace LambdaArrow

/-! ### The last line before the seam -/

namespace Pass

theorem ofLine_dropReturn (number : Nat) (line : Text) :
    ofLine number (Text.dropReturn line) = ofLine number line := by
  funext definitions
  rw [ofLine, ofLine, CodeLine.parts_dropReturn]

theorem ofLines_singleton (number : Nat) (line : Text) :
    ofLines number [line] = ofLine (number + 1) line := by
  funext definitions
  exact andThen_ofComments_nil _

/-- It does not matter to lines whether the last one is ended. -/
theorem ofLines_endedLines (number : Nat) (text : Text) :
    ofLines number (Text.endedLines text) = ofLines number (Text.lines text) := by
  obtain ⟨ended, last, hended, hlines⟩ := Text.exists_lines_eq text
  funext definitions
  rw [hended, hlines, ofLines_append, ofLines_append, ofLines_singleton, ofLine_dropReturn]
  split
  · rename_i hlast
    rw [hlast]
    rfl
  · rw [ofLines_singleton]

theorem ofProgram_append (first second : Text) (definitions : Definitions) :
    ofProgram (first ++ '\n' :: second) definitions =
      (ofProgram first definitions).andThen fun later =>
        (ofProgram second later).moved (first.count '\n' + 1) := by
  have hsecond : ofLines (0 + (first.count '\n' + 1)) (Text.lines second) =
      fun later => (ofProgram second later).moved (first.count '\n' + 1) :=
    funext (ofLines_moved _ _ 0)
  rw [ofProgram, Text.lines_append, ofLines_append, ofLines_endedLines, Text.length_endedLines, hsecond]
  rfl

end Pass

/-! ### Joined programs in a session -/

/-- CORRECT: a session that compiles two programs joined by a line feed compiles the first, and then the
    second if the first has not failed. -/
theorem Session.compileProgram_append (session : Session) (first second : Text) :
    let before := session.compileProgram first
    let after := before.session.compileProgram second
    let whole := session.compileProgram (first ++ '\n' :: second)
    (∀ error, before.program = .error error →
      whole.program = .error error ∧ whole.session = before.session) ∧
    ∀ done, before.program = .ok done →
      (∀ more, after.program = .ok more →
        whole.program = .ok ⟨session.date, done.lines ++ more.lines⟩ ∧ whole.session = after.session) ∧
      ∀ error, after.program = .error error → ∃ number cause, error = .onLine number cause ∧
        whole.program = .error (.onLine (number + (first.count '\n' + 1)) cause) ∧
        whole.session = after.session := by
  intro before after whole
  have hjoined := Pass.ofProgram_append first second session.definitions
  have hbefore : before.session = ⟨session.date, (Pass.ofProgram first session.definitions).definitions⟩ :=
    session_eq_pass session first
  have hwhole : whole.session =
      ⟨session.date, (Pass.ofProgram (first ++ '\n' :: second) session.definitions).definitions⟩ :=
    session_eq_pass session (first ++ '\n' :: second)
  refine ⟨fun error herror => ?_, fun done hdone => ?_⟩
  · -- nothing behind the failing line is compiled
    have hfirst := program_eq_error_iff.1 herror
    rw [Pass.andThen_of_error hfirst] at hjoined
    exact ⟨program_eq_error_iff.2 (by rw [hjoined, hfirst]), by rw [hwhole, hjoined, hbefore]⟩
  · obtain ⟨lines, hfirst, rfl⟩ := program_eq_ok_iff.1 hdone
    rw [Pass.andThen_of_ok hfirst] at hjoined
    have hafter : after.session =
        ⟨before.session.date, (Pass.ofProgram second before.session.definitions).definitions⟩ :=
      session_eq_pass before.session second
    have hsession : whole.session = after.session := by
      rw [hwhole, hjoined, hafter, hbefore]
      rfl
    refine ⟨fun more hmore => ⟨?_, hsession⟩, fun error herror => ?_⟩
    · obtain ⟨rest, hsecond, rfl⟩ := program_eq_ok_iff.1 hmore
      rw [hbefore] at hsecond
      refine program_eq_ok_iff.2 ⟨lines ++ rest, ?_, rfl⟩
      simp [hjoined, Pass.moved, hsecond, Except.map, Except.mapError]
    · have hsecond := program_eq_error_iff.1 herror
      obtain ⟨_, _, _, _, cause, _, _, _, _, rfl⟩ := Pass.of_output_eq_error hsecond
      rw [hbefore] at hsecond
      refine ⟨_, cause, rfl, program_eq_error_iff.2 ?_, hsession⟩
      simp [hjoined, Pass.moved, hsecond, Error.moved, Except.map, Except.mapError]

/-- At the seam a comment waits and a line ends with a carriage return. The program behind it compiles its
    first line, which uses the definition before the seam, and fails at the next. -/
theorem Session.compileProgram_append_waiting :
    ((Session.start ⟨2025, .february, 24⟩).compileProgram
        ("A:=x//a\r".toList ++ '\n' :: "#A".toList)).program =
      .ok ⟨⟨2025, .february, 24⟩, [⟨.definition, "const A = x;".toList⟩, ⟨.comment, "//a".toList⟩,
        ⟨.statement, "console.log(toNumber(A));".toList⟩]⟩ ∧
    ((Session.start ⟨2025, .february, 24⟩).compileProgram
        ("A:=x//a\r".toList ++ '\n' :: "#A\nB".toList)).program =
      .error (.onLine 3 (.unknownName "B".toList)) := by
  have hfirst : ((Session.start ⟨2025, .february, 24⟩).compileProgram "A:=x//a\r".toList).program =
      .ok ⟨⟨2025, .february, 24⟩,
        [⟨.definition, "const A = x;".toList⟩, ⟨.comment, "//a".toList⟩]⟩ := by cbv
  have hsession : ((Session.start ⟨2025, .february, 24⟩).compileProgram "A:=x//a\r".toList).session =
      ⟨⟨2025, .february, 24⟩, ⟨[("A".toList, "x".toList)]⟩⟩ := by cbv
  have hstatement : (Session.compileProgram ⟨⟨2025, .february, 24⟩, ⟨[("A".toList, "x".toList)]⟩⟩
      "#A".toList).program =
        .ok ⟨⟨2025, .february, 24⟩, [⟨.statement, "console.log(toNumber(A));".toList⟩]⟩ := by cbv
  have hfails : (Session.compileProgram ⟨⟨2025, .february, 24⟩, ⟨[("A".toList, "x".toList)]⟩⟩
      "#A\nB".toList).program = .error (.onLine 2 (.unknownName "B".toList)) := by cbv
  rw [← hsession] at hstatement hfails
  have hsucceeds := ((compileProgram_append _ _ "#A".toList).2 _ hfirst).1 _ hstatement
  obtain ⟨number, cause, hcause, hwhole, -⟩ :=
    ((compileProgram_append _ _ "#A\nB".toList).2 _ hfirst).2 _ hfails
  cases hcause
  exact ⟨hsucceeds.1, hwhole⟩

end LambdaArrow
