import LambdaArrow.Proofs.History

/-! Programs compiled with more definitions, and compiled again. A program that compiles does so alike where
    more names are known: every line gives the same output and makes the same definition. The definitions
    that it leaves are more in this sense, so it may be compiled a second time; and since it then inserts
    the same bodies in the same order, the table ends as before, also where it defines a name twice. -/

namespace LambdaArrow

theorem Term.parse_mono {fewer more : Definitions} (hnames : ∀ name ∈ fewer.keys, name ∈ more.keys)
    {text : Text} {term : Term} (h : parse fewer text = .ok term) : parse more text = .ok term := by
  rcases InStep.resolve hnames (Phrase.read .expression text) with hsame | ⟨error, herror, -⟩
  · exact hsame.symm.trans h
  · have hfails : parse fewer text = .error error := herror
    rw [hfails] at h
    cases h

namespace Directive

variable {fewer more : Definitions}

theorem compileStatement_mono (hnames : ∀ name ∈ fewer.keys, name ∈ more.keys)
    {before expression after : Text} {compiled : Compiled}
    (h : (compileStatement fewer before expression after).compiled = .ok compiled) :
    ∃ other, (compileStatement more before expression after).compiled = .ok other ∧
      other.line = compiled.line := by
  obtain ⟨term, hparse, rfl⟩ := compileStatement_eq_ok_iff.1 h
  exact ⟨_, compileStatement_eq_ok_iff.2 ⟨term, Term.parse_mono hnames hparse, rfl⟩, rfl⟩

/-- A directive that compiles gives the same line where more is known. -/
theorem compile_mono (hnames : ∀ name ∈ fewer.keys, name ∈ more.keys) {directive : Directive}
    {compiled : Compiled} (h : directive.compile fewer = .ok compiled) :
    ∃ other, directive.compile more = .ok other ∧ other.line = compiled.line := by
  cases directive with
  | define name expression =>
    obtain ⟨hcapital, term, hparse, hcompiled⟩ := compileDefinition_eq_ok_iff.1 h
    have hmore := Term.parse_mono hnames hparse
    exact ⟨_, compileDefinition_eq_ok_iff.2 ⟨hcapital, term, hmore, rfl⟩, by rw [hcompiled]⟩
  | number expression => exact compileStatement_mono hnames h
  | boolean expression => exact compileStatement_mono hnames h
  | source expression => exact compileStatement_mono hnames h
  | compute expression => exact compileStatement_mono hnames h
  | label text => cases h; exact ⟨_, rfl, rfl⟩
  | nothing => cases h; exact ⟨_, rfl, rfl⟩

/-- It also makes the same definition. -/
theorem made?_mono (hnames : ∀ name ∈ fewer.keys, name ∈ more.keys) {directive : Directive}
    {compiled : Compiled} (h : directive.compile fewer = .ok compiled) :
    directive.made? more = directive.made? fewer := by
  cases hname : directive.definedName? with
  | none => rw [made?_of_definedName?_eq_none hname, made?_of_definedName?_eq_none hname]
  | some name =>
    cases directive with
    | define name expression =>
      obtain ⟨other, hother, -⟩ := compile_mono hnames h
      obtain ⟨-, term, hparse, -⟩ := compileDefinition_eq_ok_iff.1 h
      rw [made?_define hother (Term.parse_mono hnames hparse), made?_define h hparse]
    | _ => simp [definedName?] at hname

/-- Where more was known before a directive, more is known after it. -/
theorem names_mono (hnames : ∀ name ∈ fewer.keys, name ∈ more.keys) {directive : Directive}
    {compiled other : Compiled} (h : directive.compile fewer = .ok compiled)
    (hother : directive.compile more = .ok other) :
    ∀ name ∈ compiled.definitions.keys, name ∈ other.definitions.keys := by
  intro name hname
  rw [(effect_of_compile h).known] at hname
  rw [(effect_of_compile hother).known]
  exact hname.imp_left (hnames name)

end Directive

namespace CodeLine

/-- Lines that compile give the same output and make the same definitions where more is known. -/
theorem compileAll_mono : ∀ (lines : List CodeLine) {fewer more : Definitions}
    {output : List Program.Line}, (∀ name ∈ fewer.keys, name ∈ more.keys) →
      (compileAll fewer lines).output = .ok output →
        (compileAll more lines).output = .ok output ∧ made more lines = made fewer lines
  | [], _, _, _, _, h => ⟨h, rfl⟩
  | line :: rest, fewer, more, output, hnames, h => by
    cases hline : line.compile fewer with
    | error error =>
      rw [compileAll_of_error hline] at h
      cases h
    | ok compiled =>
      have hdirective := compile_eq_ok_iff.1 hline
      obtain ⟨other, hother, hsame⟩ := Directive.compile_mono hnames hdirective
      have hmade := Directive.made?_mono hnames hdirective
      have hmore := compile_eq_ok_iff.2 hother
      have hnames' := Directive.names_mono hnames hdirective hother
      rw [compileAll_of_ok hline] at h
      rw [compileAll_of_ok hmore, made_of_ok hmore, made_of_ok hline, hmade, hsame]
      cases hrest : (compileAll compiled.definitions rest).output with
      | error error =>
        rw [hrest] at h
        cases h
      | ok later =>
        obtain ⟨hlater, hmadeLater⟩ := compileAll_mono rest hnames' hrest
        rw [hrest] at h
        rw [hlater, hmadeLater]
        exact ⟨h, rfl⟩

end CodeLine

namespace Session

theorem session_eq_insertAll (session : Session) (program : Text) :
    (session.compileProgram program).session =
      ⟨session.date, session.definitions.insertAll
        (CodeLine.made session.definitions (CodeLine.ofProgram program))⟩ := by
  rw [session_compileProgram, (CodeLine.grows_compileAll _ _).inserted]

/-- CORRECT: a program that compiles in a session compiles to the same text in every session of that day
    which knows the same names and more. Compiled again in its own session, it gives the same text and
    changes no definition. -/
theorem compileProgram_again (session : Session) (program js : Text)
    (h : (session.compileProgram program).text = .ok js) :
    (∀ larger : Session, larger.date = session.date →
      (∀ name ∈ session.definitions.keys, name ∈ larger.definitions.keys) →
        (larger.compileProgram program).text = .ok js) ∧
    ((session.compileProgram program).session.compileProgram program).text = .ok js ∧
    ((session.compileProgram program).session.compileProgram program).session =
      (session.compileProgram program).session := by
  obtain ⟨lines, hlines, hjs⟩ := text_eq_ok_iff.1 h
  have hlarger : ∀ larger : Session, larger.date = session.date →
      (∀ name ∈ session.definitions.keys, name ∈ larger.definitions.keys) →
        (larger.compileProgram program).text = .ok js := by
    intro larger hdate hnames
    obtain ⟨houtput, -⟩ := CodeLine.compileAll_mono _ hnames hlines
    exact text_eq_ok_iff.2 ⟨lines, houtput, hdate ▸ hjs⟩
  have hsession := session_eq_insertAll session program
  have hnames : ∀ name ∈ session.definitions.keys,
      name ∈ (session.compileProgram program).session.definitions.keys := by
    rw [hsession]
    exact fun name hname => (Table.keys_prefix_insertAll _ _).subset hname
  refine ⟨hlarger, hlarger _ (by rw [hsession]) hnames, ?_⟩
  -- the second run makes the definitions of the first once more
  obtain ⟨-, hmade⟩ := CodeLine.compileAll_mono _ hnames hlines
  rw [session_eq_insertAll (session.compileProgram program).session, hmade, hsession,
    Table.insertAll_insertAll]

/-- The program defines `A` twice. It compiles alike where `A` is already defined, and leaves the last body
    however often it is compiled. -/
theorem compileProgram_again_redefined :
    (compileProgram ⟨⟨2025, .february, 24⟩, ⟨[("A".toList, "z".toList)]⟩⟩ "A:=x\nA:=y".toList).text =
      .ok (Program.render ⟨⟨2025, .february, 24⟩,
        [⟨.definition, "const A = x;".toList⟩, ⟨.definition, "const A = y;".toList⟩]⟩) ∧
    (compileProgram ⟨⟨2025, .february, 24⟩, ⟨[("A".toList, "y".toList)]⟩⟩ "A:=x\nA:=y".toList).session =
      ⟨⟨2025, .february, 24⟩, ⟨[("A".toList, "y".toList)]⟩⟩ := by
  have htext : ((start ⟨2025, .february, 24⟩).compileProgram "A:=x\nA:=y".toList).text =
      .ok (Program.render ⟨⟨2025, .february, 24⟩,
        [⟨.definition, "const A = x;".toList⟩, ⟨.definition, "const A = y;".toList⟩]⟩) :=
    text_eq_ok_iff.2 ⟨_, by cbv, rfl⟩
  have hsession : ((start ⟨2025, .february, 24⟩).compileProgram "A:=x\nA:=y".toList).session =
      ⟨⟨2025, .february, 24⟩, ⟨[("A".toList, "y".toList)]⟩⟩ := by cbv
  obtain ⟨hlarger, -, hsame⟩ := compileProgram_again _ _ _ htext
  refine ⟨hlarger ⟨⟨2025, .february, 24⟩, ⟨[("A".toList, "z".toList)]⟩⟩ rfl ?_, ?_⟩
  · exact fun name hname => absurd hname List.not_mem_nil
  · rwa [hsession] at hsame

end Session

end LambdaArrow
