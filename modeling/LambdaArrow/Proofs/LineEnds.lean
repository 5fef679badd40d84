import LambdaArrow.Proofs.Comments
import LambdaArrow.Proofs.Layout

/-! Where a comment ends for who reads the compiled program. A line of the source ends at a line feed, but JavaScript
    ends a line at four characters: line feed, carriage return, and the two separators U+2028 and U+2029. A comment is
    put out as it is written, without the blanks at its end:

        `// a` U+2028         ──▶ `// a`, a comment to its end
        `// a` U+2028 `b`     ──▶ `// a` U+2028 `b`, where `b` is read as code

    All four are blanks. So a comment stays one exactly when each of them has only blanks behind it. -/

namespace LambdaArrow

/-! ### Characters that end a line -/

namespace Text

/-- The characters that end a line of JavaScript. -/
def endsLine (c : Char) : Bool := c = '\n' || c = '\r' || c = '\u2028' || c = '\u2029'

/-- What is skipped as a comment, from its mark on. -/
def skipped (text : Text) : Text := text.takeWhile fun c => !endsLine c

theorem isBlank_of_endsLine {c : Char} (h : endsLine c) : isBlank c := by
  simp only [endsLine, Bool.or_eq_true, decide_eq_true_eq] at h
  rcases h with ((rfl | rfl) | rfl) | rfl <;> decide

/-- A line is skipped to its line feed exactly when nothing else ends it. -/
theorem skipped_eq_iff (line after : Text) :
    skipped (line ++ '\n' :: after) = line ↔ ∀ c ∈ line, endsLine c = false := by
  constructor
  · intro h c hc
    rw [← h] at hc
    simpa using List.mem_takeWhile_imp hc
  · intro h
    have hfeed : endsLine '\n' = true := by decide
    rw [skipped, List.takeWhile_append_of_pos (by simpa using h)]
    simp [hfeed]

/-- Blanks of some kind are trimmed away exactly when only blanks are behind each of them. -/
theorem forall_mem_trimRight_iff {p : Char → Bool} (hp : ∀ c, p c → isBlank c) (text : Text) :
    (∀ c ∈ trimRight text, p c = false) ↔
      ∀ before c after, text = before ++ c :: after → p c → ∀ d ∈ after, isBlank d := by
  obtain ⟨right, htext, hright⟩ := exists_trimRight_eq text
  constructor
  · intro h before c after heq hc
    rw [htext, List.append_cons] at heq
    rcases List.append_eq_append_iff.1 heq with ⟨rest, -, hrest⟩ | ⟨rest, hstart, -⟩
    · exact fun d hd => hright d (hrest ▸ List.mem_append_right rest hd)
    · -- the character would be left after trimming
      have hclear := h c (by simp [hstart])
      rw [hc] at hclear
      cases hclear
  · intro h c hc
    by_contra hpc
    rw [Bool.not_eq_false] at hpc
    obtain ⟨before, after, hsplit⟩ := List.append_of_mem hc
    have heq : text = before ++ c :: (after ++ right) := by
      rw [htext, hsplit]
      simp
    have hblank : ∀ d ∈ c :: (after ++ right), isBlank d :=
      List.forall_mem_cons.2 ⟨hp c hpc, h before c _ heq hpc⟩
    -- then the character and all behind it would be trimmed
    have hshort := length_trimRight_le before
    rw [← trimRight_append_blanks hblank, ← heq, hsplit, List.length_append, List.length_cons] at hshort
    omega

end Text

/-! ### The comment of a line -/

namespace CodeLine

/-- A comment starts with its mark. -/
theorem commentMark_prefix {line comment : Text} (h : (parts line).2 = some comment) :
    commentMark <+: comment := by
  unfold parts at h
  split at h
  · cases h
    have hslash : Text.isBlank '/' = false := by decide
    rw [Text.trimRight_append (by simpa [commentMark] using hslash)]
    exact List.prefix_append _ _
  · cases h

/-- Without a mark nothing is behind the code of a line. -/
theorem IsCode.eq_nil {line code comment : Text} (h : IsCode line code) (hline : line = code ++ comment)
    (hmark : ¬ commentMark <:+: line) : comment = [] := by
  rcases h.stop with hcode | hcode
  · rw [hcode] at hline
    exact List.self_eq_append_right.1 hline
  · exact absurd ((List.infix_append_right ..).trans hcode.isInfix) hmark

/-- The comment of a line has none of the four characters exactly when each of them has only blanks behind it. -/
theorem endsLine_comment_iff (line : Text) :
    (∀ text ∈ (parts line).2, ∀ c ∈ text, Text.endsLine c = false) ↔
      ∀ code comment, IsCode line code → line = code ++ comment → ∀ before c after,
        comment = before ++ c :: after → Text.endsLine c → ∀ d ∈ after, Text.isBlank d := by
  obtain ⟨code, comment, hcode, hline, hparts⟩ := exists_parts_eq line
  have honly : (∀ other rest, IsCode line other → line = other ++ rest → ∀ before c after,
      rest = before ++ c :: after → Text.endsLine c → ∀ d ∈ after, Text.isBlank d) ↔
        ∀ before c after, comment = before ++ c :: after → Text.endsLine c → ∀ d ∈ after, Text.isBlank d := by
    constructor
    · intro h
      exact h code comment hcode hline
    · intro h other rest hother hrest
      obtain rfl := hother.unique hcode
      obtain rfl := List.append_cancel_left (hrest.symm.trans hline)
      exact h
  rw [honly, ← Text.forall_mem_trimRight_iff (fun _ => Text.isBlank_of_endsLine), hparts]
  by_cases hmark : commentMark <:+: line
  · simp [hmark]
  · simp [hmark, hcode.eq_nil hline hmark, Text.trimRight]

end CodeLine

/-! ### The comments of a program -/

/-- What a directive compiles to is no comment. -/
theorem Directive.kind_ne_comment {directive : Directive} {definitions : Definitions} {compiled : Compiled}
    (h : directive.compile definitions = .ok compiled) : ∀ line ∈ compiled.line, line.kind ≠ .comment := by
  have hstatement : ∀ {before expression after : Text},
      (compileStatement definitions before expression after).compiled = .ok compiled →
        ∀ line ∈ compiled.line, line.kind ≠ .comment := by
    intro before expression after hcompiled
    obtain ⟨term, -, rfl⟩ := compileStatement_eq_ok_iff.1 hcompiled
    simp
  cases directive with
  | define name expression =>
    obtain ⟨-, term, -, rfl⟩ := compileDefinition_eq_ok_iff.1 h
    simp
  | number expression => exact hstatement h
  | boolean expression => exact hstatement h
  | source expression => exact hstatement h
  | compute expression => exact hstatement h
  | label text => cases h; simp
  | nothing => cases h; simp

namespace Pass

/-- The comments among compiled lines are the comments of the source, in their order. -/
theorem comments_of_output : ∀ {lines : List Text} {number : Nat} {definitions : Definitions}
    {done : List Program.Line}, (ofLines number lines definitions).output = .ok done →
      (done.filter (·.kind = .comment)).map (·.text) = CodeLine.commentsOf lines
  | [], _, _, done, h => by
    cases h
    rfl
  | line :: rest, number, definitions, done, h => by
    obtain ⟨compiled, more, hline, hrest, rfl⟩ := of_output_cons h
    have hcode : compiled.line.toList.filter (·.kind = .comment) = [] := by
      rw [List.filter_eq_nil_iff]
      intro made hmade
      simpa using Directive.kind_ne_comment hline made (Option.mem_toList.1 hmade)
    rw [CodeLine.commentsOf_cons, ← comments_of_output hrest, lineOutput, List.filter_append, List.filter_append,
      hcode]
    cases (CodeLine.parts line).2 <;> simp

end Pass

namespace Program

/-- A line that is no statement is written behind the lines before it, and behind the helpers if one of these is a
    statement. -/
theorem exists_withHelpers_append {line : Program.Line} (hkind : line.kind ≠ .statement)
    (later : List Program.Line) : ∀ earlier : List Program.Line, ∃ before after,
      withHelpers (earlier ++ line :: later) = before ++ line.text :: after ∧
        (before = earlier.map (·.text) ∨ before = withHelpers earlier)
  | [] => ⟨[], withHelpers later, by simp [withHelpers, hkind], Or.inl rfl⟩
  | first :: earlier => by
    by_cases hstatement : first.kind = .statement
    · refine ⟨withHelpers (first :: earlier), later.map (·.text), ?_, Or.inr rfl⟩
      simp [withHelpers, hstatement]
    · obtain ⟨before, after, heq, hbefore⟩ := exists_withHelpers_append hkind later earlier
      refine ⟨first.text :: before, after, by simp [withHelpers, hstatement, heq], ?_⟩
      rcases hbefore with rfl | rfl
      · exact Or.inl rfl
      · right
        simp [withHelpers, hstatement]

end Program

namespace Session

/-- CORRECT: the comments of a compiled program are those of the source, in their order, each with its mark in front
    and without a line feed. In the text of the program a comment is skipped up to the line feed behind it exactly
    when none of the four characters is in it, and that holds for all comments exactly when in the source each of
    these characters has only blanks behind it in its comment. -/
theorem comments_skipped_iff (session : Session) (source : Text) (done : Program)
    (h : (session.compileProgram source).program = .ok done) :
    (done.lines.filter (·.kind = .comment)).map (·.text) = CodeLine.commentsOf (Text.lines source) ∧
    (∀ earlier line later, done.lines = earlier ++ line :: later → line.kind = .comment →
      CodeLine.commentMark <+: line.text ∧ '\n' ∉ line.text ∧
      ∃ before after, (before = earlier.map (·.text) ∨ before = Program.withHelpers earlier) ∧
        done.render = Text.unlines (done.header :: before) ++ (line.text ++ '\n' :: after) ∧
        (Text.skipped (line.text ++ '\n' :: after) = line.text ↔ ∀ c ∈ line.text, Text.endsLine c = false)) ∧
    ((∀ line ∈ done.lines, line.kind = .comment → ∀ c ∈ line.text, Text.endsLine c = false) ↔
      ∀ line ∈ Text.lines source, ∀ code comment, CodeLine.IsCode line code → line = code ++ comment →
        ∀ before c after, comment = before ++ c :: after → Text.endsLine c → ∀ d ∈ after, Text.isBlank d) := by
  obtain ⟨lines, hlines, rfl⟩ := program_eq_ok_iff.1 h
  have hcomments := Pass.comments_of_output hlines
  have hmem : ∀ text, (∃ line ∈ lines, line.kind = .comment ∧ line.text = text) ↔
      ∃ line ∈ Text.lines source, (CodeLine.parts line).2 = some text := by
    intro text
    rw [← List.mem_filterMap, ← CodeLine.commentsOf, ← hcomments]
    simp [and_assoc]
  refine ⟨hcomments, ?_, ?_⟩
  · intro earlier line later hsplit hkind
    change lines = earlier ++ line :: later at hsplit
    obtain ⟨origin, horigin, hparts⟩ := (hmem line.text).1 ⟨line, by simp [hsplit], hkind, rfl⟩
    have hown := Program.ownLine_of_parts (Text.not_mem_of_mem_lines horigin) hparts
    have hstatement : line.kind ≠ .statement := by simp [hkind]
    obtain ⟨before, after, heq, hbefore⟩ := Program.exists_withHelpers_append hstatement later earlier
    refine ⟨CodeLine.commentMark_prefix hparts, hown.oneLine, before, Text.unlines after, hbefore, ?_,
      Text.skipped_eq_iff line.text _⟩
    rw [Program.render, hsplit, heq]
    simp [Text.unlines]
  · have hlineOf : (∀ line ∈ lines, line.kind = .comment → ∀ c ∈ line.text, Text.endsLine c = false) ↔
        ∀ line ∈ Text.lines source, ∀ text ∈ (CodeLine.parts line).2, ∀ c ∈ text, Text.endsLine c = false := by
      constructor
      · intro hclear line hline text htext
        obtain ⟨made, hmade, hkind, rfl⟩ := (hmem text).2 ⟨line, hline, htext⟩
        exact hclear made hmade hkind
      · intro hclear made hmade hkind
        obtain ⟨line, hline, htext⟩ := (hmem made.text).1 ⟨made, hmade, hkind, rfl⟩
        exact hclear line hline _ htext
    rw [hlineOf]
    exact forall₂_congr fun line _ => CodeLine.endsLine_comment_iff line

/-- A separator at the end of a comment is trimmed with the blanks around it. -/
theorem comments_skipped_iff_separator_at_end :
    ∃ done, ((start ⟨2025, .february, 24⟩).compileProgram "A:=x // a \u2028 \n#A".toList).program = .ok done ∧
    done.lines = [⟨.definition, "const A = x;".toList⟩, ⟨.comment, "// a".toList⟩,
      ⟨.statement, "console.log(toNumber(A));".toList⟩] ∧
    (∃ before after, (before = ["const A = x;".toList] ∨
        before = Program.withHelpers [⟨.definition, "const A = x;".toList⟩]) ∧
      done.render = Text.unlines (done.header :: before) ++ ("// a".toList ++ '\n' :: after) ∧
      Text.skipped ("// a".toList ++ '\n' :: after) = "// a".toList) ∧
    ∀ line ∈ ["A:=x // a \u2028 ".toList, "#A".toList], ∀ code comment, CodeLine.IsCode line code →
      line = code ++ comment → ∀ before c after, comment = before ++ c :: after → Text.endsLine c →
        ∀ d ∈ after, Text.isBlank d := by
  have hdone : ((start ⟨2025, .february, 24⟩).compileProgram "A:=x // a \u2028 \n#A".toList).program =
      .ok ⟨⟨2025, .february, 24⟩, [⟨.definition, "const A = x;".toList⟩, ⟨.comment, "// a".toList⟩,
        ⟨.statement, "console.log(toNumber(A));".toList⟩]⟩ := by cbv
  have hlines : Text.lines "A:=x // a \u2028 \n#A".toList = ["A:=x // a \u2028 ".toList, "#A".toList] := by cbv
  have hclear : ∀ c ∈ "// a".toList, Text.endsLine c = false := by simp [Text.endsLine]
  obtain ⟨-, hcomment, hiff⟩ := comments_skipped_iff _ _ _ hdone
  obtain ⟨-, -, before, after, hbefore, hrender, hskipped⟩ := hcomment [_] ⟨.comment, "// a".toList⟩ [_] rfl rfl
  rw [hlines] at hiff
  exact ⟨_, hdone, rfl, ⟨before, after, hbefore, hrender, hskipped.2 hclear⟩, hiff.1 (by simpa using hclear)⟩

/-- A carriage return inside a comment is put out with it, and what is behind it is not skipped. -/
theorem comment_cut_at_return :
    ∃ done, ((start ⟨2025, .february, 24⟩).compileProgram "// note\rboom".toList).program = .ok done ∧
    done.lines = [⟨.comment, "// note\rboom".toList⟩] ∧
    ∃ after, done.render = Text.unlines [done.header] ++ ("// note\rboom".toList ++ '\n' :: after) ∧
      Text.skipped ("// note\rboom".toList ++ '\n' :: after) = "// note".toList := by
  have hdone : ((start ⟨2025, .february, 24⟩).compileProgram "// note\rboom".toList).program =
      .ok ⟨⟨2025, .february, 24⟩, [⟨.comment, "// note\rboom".toList⟩]⟩ := by cbv
  refine ⟨_, hdone, rfl, Text.unlines Program.helpers, ?_, ?_⟩
  · simp [Program.render, Program.withHelpers, Text.unlines]
  · simp [Text.skipped, Text.endsLine]

end Session

end LambdaArrow
