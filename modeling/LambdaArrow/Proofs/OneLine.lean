import LambdaArrow.Proofs.Directives
import LambdaArrow.Proofs.Lines
import LambdaArrow.Proofs.Run
import LambdaArrow.Proofs.Words

/-! Code compiles to one line. A line of a program has no line feed, so neither has what its directive is
    made of, nor a name that is taken from there, nor what is written around them. The line ends with a
    semicolon and does not start with a blank, and a comment starts with a slash: that tells both from the
    lines of the helpers. -/

namespace LambdaArrow

namespace Program

/-- The lines of the helpers. -/
def helperLines : List Text := helpers.flatMap (·.splitOn '\n')

theorem helperLines_eq : helperLines =
    ["function toNumber(church) \x7b".toList, "  return church(n => n + 1)(0);".toList, "\x7d".toList,
      "function toBoolean(church) \x7b".toList, "  return church(\"True\")(\"False\");".toList,
      "\x7d".toList] := by
  cbv

/-- A line of the program's own: without a line feed, and a comment or a statement that is not set in. -/
structure OwnLine (text : Text) : Prop where
  oneLine : '\n' ∉ text
  apart : text.head? = some '/' ∨
    (text.getLast? = some ';' ∧ ∃ c ∈ text.head?, Text.isBlank c = false)

/-- The helpers have no such line: what ends with a semicolon there is set in. -/
theorem OwnLine.not_mem_helperLines {text : Text} (h : OwnLine text) : text ∉ helperLines := by
  intro hmem
  have hslash : ∀ line ∈ helperLines, line.head? ≠ some '/' := by
    simp [helperLines_eq]
  have hblank : ∀ line ∈ helperLines, line.getLast? = some ';' →
      ∀ c ∈ line.head?, Text.isBlank c = true := by
    have hspace : Text.isBlank ' ' = true := by decide
    simp [helperLines_eq, hspace]
  rcases h.apart with hhead | ⟨hlast, c, hc, hstart⟩
  · exact hslash text hmem hhead
  · rw [hblank text hmem hlast c hc] at hstart
    cases hstart

/-- It ends with a character that is no line feed. -/
theorem OwnLine.exists_last {text : Text} (h : OwnLine text) : ∃ last ∈ text.getLast?, last ≠ '\n' := by
  have hne : text ≠ [] := by
    rintro rfl
    simpa using h.apart
  refine ⟨text.getLast hne, List.getLast?_eq_some_getLast hne, ?_⟩
  intro hlast
  exact h.oneLine (hlast ▸ List.getLast_mem hne)

theorem exists_last_of_mem_helpers : ∀ text ∈ helpers, ∃ last ∈ text.getLast?, last ≠ '\n' := by
  have hnumber : toNumber.getLast? = some '\x7d' := by cbv
  have hboolean : toBoolean.getLast? = some '\x7d' := by cbv
  simp [helpers, hnumber, hboolean]

end Program

/-! ### The header and comments -/

theorem Text.not_mem_ofNat (n : Nat) : '\n' ∉ Text.ofNat n := by
  intro hmem
  have hdigit := Nat.isDigit_of_mem_toDigits (by decide) (by decide) hmem
  exact absurd hdigit (by decide)

theorem Date.not_mem_toText (date : Date) : '\n' ∉ date.toText := by
  have hmonth : '\n' ∉ date.month.name := by
    cases date.month <;> decide
  have hyear : '\n' ∉ yearText date.year := by
    have hdigits := Text.not_mem_ofNat date.year.natAbs
    unfold yearText
    split_ifs <;> simp [hdigits]
  simp [toText, hmonth, Text.not_mem_ofNat, hyear]

namespace Program

theorem ownLine_header (program : Program) : OwnLine program.header := by
  have hheader : program.header =
      "// Compiled on ".toList ++ program.date.toText ++ " from λ calculus".toList := rfl
  have hline : '\n' ∉ program.header := by
    rw [hheader]
    simp [Date.not_mem_toText]
  have hhead : program.header.head? = some '/' := by
    rw [hheader]
    simp
  exact ⟨hline, Or.inl hhead⟩

/-- A comment of a line is a line of its own. -/
theorem ownLine_of_parts {line comment : Text} (hline : '\n' ∉ line)
    (h : (CodeLine.parts line).2 = some comment) : OwnLine comment := by
  unfold CodeLine.parts at h
  split at h
  · rename_i code after hcut
    cases h
    obtain ⟨heq, -⟩ := Text.of_cut?_eq_some hcut
    have hstart := Text.trimRight_start (CodeLine.commentMark ++ after)
    refine ⟨fun hmem => hline ?_, Or.inl (Text.head?_trimRight (by decide) _)⟩
    rw [heq, List.append_assoc]
    exact List.mem_append_right code (hstart.subset hmem)
  · cases h

end Program

/-! ### Terms -/

namespace Term

theorem not_mem_arrow : ∀ {term : Term}, (term.EveryName fun name => '\n' ∉ name) → '\n' ∉ term.arrow
  | .var name, h => by
    have hname : name.isLower = true := h
    rw [arrow, List.mem_singleton]
    rintro rfl
    exact absurd hname (by decide)
  | .ref _, h => h
  | .abs param body, h => by
    have hparam : '\n' ≠ param := by
      rintro rfl
      exact absurd h.1 (by decide)
    have hbody := not_mem_arrow h.2
    simp [arrow, parens, hparam, hbody]
  | .app function argument, h => by
    have hfunction := not_mem_arrow h.1
    have hargument := not_mem_arrow h.2
    rw [arrow]
    split <;> simp [parens, hfunction, hargument]

theorem exists_arrow_eq_cons : ∀ {term : Term},
    (term.EveryName fun name => ∃ c cs, name = c :: cs ∧ Text.isBlank c = false) →
      ∃ c cs, term.arrow = c :: cs ∧ Text.isBlank c = false
  | .var name, h => ⟨name, [], rfl, Text.isBlank_of_isLower h⟩
  | .ref _, h => h
  | .abs _ _, _ => ⟨'(', _, rfl, by decide⟩
  | .app function argument, h => by
    obtain ⟨c, cs, hfunction, hc⟩ := exists_arrow_eq_cons h.1
    rw [arrow]
    split
    · exact ⟨'(', _, rfl, by decide⟩
    · exact ⟨c, cs ++ parens argument.arrow, by rw [hfunction]; rfl, hc⟩

/-- The arrows of a parsed expression are as free of line feeds as the expression, and start at once. -/
theorem arrow_of_parse {definitions : Definitions} {text : Text} {term : Term}
    (h : parse definitions text = .ok term) :
    ('\n' ∉ text → '\n' ∉ term.arrow) ∧ ∃ c cs, term.arrow = c :: cs ∧ Text.isBlank c = false := by
  have hnames := everyName_of_parse h
  constructor
  · intro hline
    exact not_mem_arrow (hnames.mono fun name hname (hmem : '\n' ∈ name) => hline (hname.within.subset hmem))
  · exact exists_arrow_eq_cons (hnames.mono fun name hname => hname.start)

end Term

/-! ### Directives -/

namespace Directive

variable {definitions : Definitions} {compiled : Compiled}

/-- Every directive compiles to a line, but for the one that asks for nothing. -/
theorem line_eq_none_iff {directive : Directive} (h : directive.compile definitions = .ok compiled) :
    compiled.line = none ↔ directive = .nothing := by
  have hstatement : ∀ {before expression after : Text},
      (compileStatement definitions before expression after).compiled = .ok compiled → compiled.line ≠ none := by
    intro before expression after hcompile
    obtain ⟨term, -, rfl⟩ := compileStatement_eq_ok_iff.1 hcompile
    simp
  cases directive with
  | define name expression =>
    obtain ⟨-, term, -, rfl⟩ := compileDefinition_eq_ok_iff.1 h
    simp
  | number expression => simp [hstatement h]
  | boolean expression => simp [hstatement h]
  | source expression => simp [hstatement h]
  | compute expression => simp [hstatement h]
  | label text => cases h; simp
  | nothing => cases h; simp

theorem ownLine_of_compileStatement {before expression after : Text} {line : Program.Line}
    (hbefore : '\n' ∉ before ∧ ∀ c ∈ before.head?, Text.isBlank c = false)
    (hafter : '\n' ∉ after ∧ after.getLast? = some ';') (hexpression : '\n' ∉ expression)
    (h : (compileStatement definitions before expression after).compiled = .ok compiled)
    (hline : compiled.line = some line) : Program.OwnLine line.text := by
  obtain ⟨term, hparse, rfl⟩ := compileStatement_eq_ok_iff.1 h
  cases hline
  obtain ⟨harrow, c, cs, hcons, hc⟩ := Term.arrow_of_parse hparse
  refine ⟨by simp [hbefore.1, harrow hexpression, hafter.1], Or.inr ⟨?_, ?_⟩⟩
  · simp [List.getLast?_append, hafter.2]
  · rw [hcons]
    cases before with
    | nil => exact ⟨c, rfl, hc⟩
    | cons d ds => exact ⟨d, rfl, hbefore.2 d rfl⟩

theorem ownLine_of_compileDefinition {name expression : Text} {line : Program.Line}
    (hname : '\n' ∉ name) (hexpression : '\n' ∉ expression)
    (h : (compileDefinition definitions name expression).compiled = .ok compiled)
    (hline : compiled.line = some line) : Program.OwnLine line.text := by
  obtain ⟨-, term, hparse, rfl⟩ := compileDefinition_eq_ok_iff.1 h
  cases hline
  have harrow := (Term.arrow_of_parse hparse).1 hexpression
  refine ⟨by simp [hname, harrow], Or.inr ⟨?_, 'c', rfl, by decide⟩⟩
  rw [List.getLast?_append]
  rfl

theorem ownLine_labelStatement {text : Text} (h : '\n' ∉ text) :
    Program.OwnLine (labelStatement text) := by
  have hescape : '\n' ∉ Text.escape text := by
    intro hmem
    obtain ⟨c, hc, hmem⟩ := List.mem_flatMap.1 hmem
    rw [Text.escapeChar] at hmem
    split at hmem
    · rcases List.mem_cons.1 hmem with hslash | hmem
      · cases hslash
      · exact h (List.mem_singleton.1 hmem ▸ hc)
    · exact h (List.mem_singleton.1 hmem ▸ hc)
  have hlabel : labelStatement text =
      "console.log(\"%c".toList ++ Text.escape text ++ "\", \"color: blue\");".toList := rfl
  have hline : '\n' ∉ labelStatement text := by
    rw [hlabel]
    simp [hescape]
  have hlast : (labelStatement text).getLast? = some ';' := by
    rw [hlabel, List.getLast?_append]
    simp
  have hhead : (labelStatement text).head? = some 'c' := by
    rw [hlabel]
    simp
  exact ⟨hline, Or.inr ⟨hlast, 'c', hhead, by decide⟩⟩

/-- A directive without line feeds compiles to a line of the program's own. -/
theorem ownLine_of_compile {directive : Directive} {line : Program.Line}
    (htexts : ∀ text ∈ directive.texts, '\n' ∉ text)
    (h : directive.compile definitions = .ok compiled) (hline : compiled.line = some line) :
    Program.OwnLine line.text := by
  have hstart : Text.isBlank 'c' = false := by decide
  cases directive with
  | define name expression =>
    exact ownLine_of_compileDefinition (htexts name (by simp [texts])) (htexts expression (by simp [texts]))
      h hline
  | number expression =>
    exact ownLine_of_compileStatement (by simp [hstart]) (by simp) (htexts expression (by simp [texts])) h hline
  | boolean expression =>
    exact ownLine_of_compileStatement (by simp [hstart]) (by simp) (htexts expression (by simp [texts])) h hline
  | source expression =>
    exact ownLine_of_compileStatement (by simp [hstart]) (by simp) (htexts expression (by simp [texts])) h hline
  | compute expression =>
    exact ownLine_of_compileStatement (by simp) (by simp) (htexts expression (by simp [texts])) h hline
  | label text =>
    cases h
    cases hline
    exact ownLine_labelStatement (htexts text (by simp [texts]))
  | nothing =>
    cases h
    cases hline

end Directive

end LambdaArrow
