import LambdaArrow.Proofs.Failing
import LambdaArrow.Proofs.Writing
import LambdaArrow.Proofs.OneLine

/-! The lines of a compiled program, counted. Each line of the source gives its code, if it has any, and
    then its comment, if it has one; what all lines give stands in this order, with the helpers somewhere
    between:

        `A := x // a`      `const A = x;`   `// a`
        ``
        `A`                                         helpers   `A;`

    No part of it holds a line feed, so cutting the text at its line feeds gives back these lines. -/

namespace LambdaArrow

namespace Program

variable {program : Program}

/-- The pieces of a program's text, when its lines are lines of its own. -/
theorem exists_splitOn_render (h : ∀ line ∈ program.lines, OwnLine line.text) : ∃ before after,
    program.lines.map (·.text) = before ++ after ∧
      program.render.splitOn '\n' = program.header :: before ++ helperLines ++ after ++ [[]] := by
  obtain ⟨before, after, hlines, hhelpers⟩ := exists_withHelpers_eq program.lines
  have hown : ∀ line ∈ before ++ after, '\n' ∉ line := by
    rw [← hlines, List.forall_mem_map]
    exact fun line hline => (h line hline).oneLine
  have hbefore := Text.flatMap_splitOn fun line hline => hown line (List.mem_append_left after hline)
  have hafter := Text.flatMap_splitOn fun line hline => hown line (List.mem_append_right before hline)
  refine ⟨before, after, hlines, ?_⟩
  rw [render, Text.splitOn_unlines, hhelpers, List.flatMap_cons, List.flatMap_append, List.flatMap_append,
    hbefore, hafter, Text.splitOn_of_not_mem (ownLine_header program).oneLine]
  simp [helperLines]

/-- Such a text ends with one line feed. -/
theorem exists_render_eq (h : ∀ line ∈ program.lines, OwnLine line.text) :
    ∃ start last, program.render = start ++ [last, '\n'] ∧ last ≠ '\n' := by
  have hmem : ∀ text ∈ program.header :: withHelpers program.lines, ∃ last ∈ text.getLast?, last ≠ '\n' := by
    obtain ⟨before, after, hlines, hhelpers⟩ := exists_withHelpers_eq program.lines
    have hown : ∀ text ∈ before ++ after, OwnLine text := by
      rw [← hlines, List.forall_mem_map]
      exact h
    intro text htext
    simp only [hhelpers, List.mem_cons, List.mem_append] at htext
    rcases htext with rfl | (htext | htext) | htext
    · exact (ownLine_header program).exists_last
    · exact (hown text (List.mem_append_left after htext)).exists_last
    · exact exists_last_of_mem_helpers text htext
    · exact (hown text (List.mem_append_right before htext)).exists_last
  obtain ⟨texts, text, htexts⟩ :=
    (List.eq_nil_or_concat (program.header :: withHelpers program.lines)).resolve_left (List.cons_ne_nil _ _)
  rw [List.concat_eq_append] at htexts
  obtain ⟨last, hlast, hfeed⟩ := hmem text (by simp [htexts])
  obtain ⟨start, hstart⟩ := Text.exists_unlines_concat hlast texts
  exact ⟨start, last, by rw [render, htexts, hstart], hfeed⟩

end Program

/-! ### What each line gives -/

namespace Pass

/-- The output of lines is what each line gives with the definitions that the lines before it leave. -/
theorem exists_outputs : ∀ {lines : List Text} {number : Nat} {definitions : Definitions}
    {done : List Program.Line}, (ofLines number lines definitions).output = .ok done →
      ∃ outputs : List (List Program.Line), outputs.flatten = done ∧ outputs.length = lines.length ∧
        ∀ index line, lines[index]? = some line → ∃ compiled,
          (Directive.parse (CodeLine.parts line).1).compile
            (ofLines number (lines.take index) definitions).definitions = .ok compiled ∧
          outputs[index]? = some (lineOutput line compiled)
  | [], _, _, done, h => by
    cases h
    exact ⟨[], rfl, rfl, by simp⟩
  | line :: rest, number, definitions, done, h => by
    obtain ⟨compiled, more, hline, hrest, rfl⟩ := of_output_cons h
    obtain ⟨outputs, hflatten, hlength, houtputs⟩ := exists_outputs hrest
    refine ⟨lineOutput line compiled :: outputs, by simp [hflatten], by simp [hlength], ?_⟩
    intro index other hother
    cases index with
    | zero =>
      cases hother
      exact ⟨compiled, hline, rfl⟩
    | succ index =>
      -- the definitions before a later line are those behind the first one and the lines between
      have hbefore : (ofLines number ((line :: rest).take (index + 1)) definitions).definitions =
          (ofLines (number + 1) (rest.take index) compiled.definitions).definitions := by
        rw [List.take_succ_cons, definitions_ofLines_cons hline]
      rw [hbefore]
      exact houtputs index other hother

/-- A line without line feeds gives lines of the program's own. -/
theorem ownLine_of_mem_lineOutput {line : Text} {definitions : Definitions} {compiled : Compiled}
    (hline : '\n' ∉ line)
    (h : (Directive.parse (CodeLine.parts line).1).compile definitions = .ok compiled) :
    ∀ made ∈ lineOutput line compiled, Program.OwnLine made.text := by
  obtain ⟨code, comment, hcode, -, hparts⟩ := CodeLine.exists_parts_eq line
  intro made hmade
  rcases List.mem_append.1 hmade with hmade | hmade
  · have hwithin : (CodeLine.parts line).1 <:+: line := by
      rw [hparts]
      exact (Text.trim_within code).trans hcode.start.isInfix
    refine Directive.ownLine_of_compile (fun text htext hmem => hline ?_) h (Option.mem_toList.1 hmade)
    exact hwithin.subset ((Directive.within_of_mem_texts htext).subset hmem)
  · obtain ⟨text, htext, rfl⟩ := List.mem_map.1 hmade
    exact Program.ownLine_of_parts hline (Option.mem_toList.1 htext)

/-- So do lines without line feeds together. -/
theorem ownLine_of_output {lines : List Text} {number : Nat} {definitions : Definitions}
    {done : List Program.Line} (hlines : ∀ line ∈ lines, '\n' ∉ line)
    (h : (ofLines number lines definitions).output = .ok done) :
    ∀ made ∈ done, Program.OwnLine made.text := by
  obtain ⟨outputs, rfl, hlength, houtputs⟩ := exists_outputs h
  intro made hmade
  obtain ⟨output, houtput, hmade⟩ := List.mem_flatten.1 hmade
  obtain ⟨index, hindex, rfl⟩ := List.mem_iff_getElem.1 houtput
  have hline := List.getElem?_eq_getElem (hlength ▸ hindex)
  obtain ⟨compiled, hcompiled, hget⟩ := houtputs index _ hline
  rw [List.getElem?_eq_getElem hindex, Option.some.injEq] at hget
  rw [hget] at hmade
  exact ownLine_of_mem_lineOutput (hlines _ (List.getElem_mem _)) hcompiled made hmade

end Pass

namespace Session

/-- The output of a line in a session: one line that its code compiles to, unless the code is blank, and
    then what follows the code without the blanks at the end, if a comment mark stands in the line. -/
def Gives (session : Session) (line : Text) (output : List Text) : Prop :=
  ∃ code comment compiled later, CodeLine.IsCode line code ∧ line = code ++ comment ∧
    session.compile (Directive.parse (Text.trim code)) = .ok (compiled, later) ∧
    (compiled.line = none ↔ ∀ c ∈ code, Text.isBlank c) ∧
    output = (compiled.line.map (·.text)).toList ++
      if CodeLine.commentMark <:+: line then [Text.trimRight comment] else []

theorem gives_lineOutput {session : Session} {line : Text} {compiled : Compiled}
    (h : (Directive.parse (CodeLine.parts line).1).compile session.definitions = .ok compiled) :
    session.Gives line ((Pass.lineOutput line compiled).map (·.text)) := by
  obtain ⟨code, comment, hcode, hline, hparts⟩ := CodeLine.exists_parts_eq line
  rw [hparts] at h
  refine ⟨code, comment, compiled, _, hcode, hline, compile_eq_ok_iff.2 ⟨compiled, h, rfl⟩, ?_, ?_⟩
  · rw [Directive.line_eq_none_iff h, Directive.parse_eq_nothing_iff, (Text.trimmed_trim code).trim_eq,
      Text.trim_eq_nil_iff]
  · rw [Pass.lineOutput, hparts]
    split_ifs <;> cases compiled.line <;> rfl

/-- CORRECT: the text of a compiled program ends with one line feed. Cut at its line feeds it is the header,
    the six lines of the helpers in one place, and what the lines of the source give, in their order, each in
    the session that the lines before it leave; and no line but the helpers' own is one of theirs. -/
theorem splitOn_compileProgram (session : Session) (program js : Text)
    (h : (session.compileProgram program).text = .ok js) :
    (∃ start last, js = start ++ [last, '\n'] ∧ last ≠ '\n') ∧
    ∃ (before after : List Text) (outputs : List (List Text)),
      js.splitOn '\n' =
        (Program.empty session.date).header :: before ++ Program.helperLines ++ after ++ [[]] ∧
      Program.helperLines.length = 6 ∧
      (∀ line ∈ (Program.empty session.date).header :: (before ++ after), line ∉ Program.helperLines) ∧
      before ++ after = outputs.flatten ∧ outputs.length = (Text.lines program).length ∧
      ∀ index line, (Text.lines program)[index]? = some line → ∃ output, outputs[index]? = some output ∧
        (session.compileProgram (Text.firstLines index program)).session.Gives line output := by
  obtain ⟨done, hdone, rfl⟩ := text_eq_ok_iff.1 h
  have hpass : (Pass.ofLines 0 (Text.lines program) session.definitions).output = .ok done := by
    rw [← hdone]
    exact congrArg Pass.output (CodeLine.pass_compileAll_ofProgram program session.definitions).symm
  obtain ⟨outputs, hflatten, hlength, houtputs⟩ := Pass.exists_outputs hpass
  have hown : ∀ made ∈ (Program.mk session.date done).lines, Program.OwnLine made.text :=
    Pass.ownLine_of_output (fun _ => Text.not_mem_of_mem_lines) hpass
  obtain ⟨before, after, hlines, hsplit⟩ := Program.exists_splitOn_render hown
  refine ⟨Program.exists_render_eq hown, before, after, outputs.map (·.map (·.text)), hsplit, ?_, ?_, ?_, ?_,
    ?_⟩
  · rw [Program.helperLines_eq]
    rfl
  · rw [← hlines]
    intro line hline
    rcases List.mem_cons.1 hline with rfl | hline
    · exact (Program.ownLine_header _).not_mem_helperLines
    · obtain ⟨made, hmade, rfl⟩ := List.mem_map.1 hline
      exact (hown made hmade).not_mem_helperLines
  · rw [← hlines, ← hflatten, List.map_flatten]
  · rw [List.length_map, hlength]
  · intro index line hline
    obtain ⟨compiled, hcompiled, hget⟩ := houtputs index line hline
    refine ⟨_, by rw [List.getElem?_map, hget]; rfl, gives_lineOutput ?_⟩
    rw [session_eq_pass, Pass.ofProgram_firstLines]
    exact hcompiled

/-- Code with a comment behind it, a blank line and a statement: of the three lines the first gives two. -/
theorem splitOn_compileProgram_trailing_comment :
    ∃ js, ((start ⟨2025, .february, 24⟩).compileProgram "A:=x // c \n\n#A".toList).text = .ok js ∧
    ∃ (before after : List Text) (outputs : List (List Text)),
      js.splitOn '\n' = (Program.empty ⟨2025, .february, 24⟩).header :: before ++
        Program.helperLines ++ after ++ [[]] ∧
      before ++ after = outputs.flatten ∧ outputs.length = 3 ∧
      ∃ output, outputs[0]? = some output ∧
        (start ⟨2025, .february, 24⟩).Gives "A:=x // c ".toList output := by
  have hdone : (CodeLine.compileAll (start ⟨2025, .february, 24⟩).definitions
      (CodeLine.ofProgram "A:=x // c \n\n#A".toList)).output = .ok
        [⟨.definition, "const A = x;".toList⟩, ⟨.comment, "// c".toList⟩,
          ⟨.statement, "console.log(toNumber(A));".toList⟩] := by cbv
  have htext := text_eq_ok_iff.2 ⟨_, hdone, rfl⟩
  have hlines : Text.lines "A:=x // c \n\n#A".toList = ["A:=x // c ".toList, [], "#A".toList] := by cbv
  obtain ⟨-, before, after, outputs, hsplit, -, -, hflatten, hlength, hgives⟩ :=
    splitOn_compileProgram _ _ _ htext
  rw [hlines] at hlength hgives
  exact ⟨_, htext, before, after, outputs, hsplit, hflatten, hlength, hgives 0 _ rfl⟩

end Session

end LambdaArrow
