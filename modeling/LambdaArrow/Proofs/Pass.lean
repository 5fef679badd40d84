import LambdaArrow.Proofs.Cutting
import LambdaArrow.Proofs.Run

/-! A program, line by line. Comments wait for the code behind them and are put out in front of it, which
    is where they stand anyway. So lines may be compiled one at a time, each giving its code and then its
    comment, and a program comes to the same:

        entries      `[// a, // b] Zero := $fa.a`   `[// c] One := $fa.f a`
        lines        `// a`   `// b`   `Zero := $fa.a // c`   `One := $fa.f a`

    Passes over lines are put one behind the other, up to the first that fails. -/

namespace LambdaArrow

/-- What lines come to, without the log: their output or the first failure, and the definitions after
    them. -/
structure Pass where
  output : Except Error (List Program.Line)
  definitions : Definitions

/-- The same failure, reported `count` lines further down. -/
def Error.moved (count : Nat) : Error → Error
  | .onLine number cause => .onLine (number + count) cause
  | error => error

namespace Pass

/-- Goes on with more lines, unless a line has failed. -/
def andThen (pass : Pass) (next : Definitions → Pass) : Pass :=
  match pass.output with
  | .error _ => pass
  | .ok lines =>
    ⟨(next pass.definitions).output.map (lines ++ ·), (next pass.definitions).definitions⟩

/-- The same pass, made `count` lines further down. -/
def moved (count : Nat) (pass : Pass) : Pass :=
  ⟨pass.output.mapError (Error.moved count), pass.definitions⟩

/-- Comments alone. -/
def ofComments (comments : List Text) (definitions : Definitions) : Pass :=
  ⟨.ok (comments.map (⟨.comment, ·⟩)), definitions⟩

/-- The code of line `number`. -/
def ofCode (number : Nat) (code : Text) (definitions : Definitions) : Pass :=
  match (Directive.parse code).compile definitions with
  | .error cause => ⟨.error (.onLine number cause), definitions⟩
  | .ok compiled => ⟨.ok compiled.line.toList, compiled.definitions⟩

/-- Line `number`: its code, then its comment. -/
def ofLine (number : Nat) (line : Text) (definitions : Definitions) : Pass :=
  (ofCode number (CodeLine.parts line).1 definitions).andThen (ofComments (CodeLine.parts line).2.toList)

/-- The lines behind line `number`, one after the other. -/
def ofLines (number : Nat) : List Text → Definitions → Pass
  | [], definitions => ofComments [] definitions
  | line :: rest, definitions => (ofLine (number + 1) line definitions).andThen (ofLines (number + 1) rest)

/-- The lines of a program. -/
def ofProgram (program : Text) : Definitions → Pass := ofLines 0 (Text.lines program)

/-! ### Passes one behind the other -/

theorem andThen_of_error {pass : Pass} {error : Error} (h : pass.output = .error error)
    (next : Definitions → Pass) : pass.andThen next = pass := by
  simp [andThen, h]

theorem andThen_of_ok {pass : Pass} {lines : List Program.Line} (h : pass.output = .ok lines)
    (next : Definitions → Pass) : pass.andThen next =
      ⟨(next pass.definitions).output.map (lines ++ ·), (next pass.definitions).definitions⟩ := by
  simp [andThen, h]

theorem ofComments_andThen (comments : List Text) (definitions : Definitions)
    (next : Definitions → Pass) : (ofComments comments definitions).andThen next =
      ⟨(next definitions).output.map (comments.map (⟨.comment, ·⟩) ++ ·), (next definitions).definitions⟩ :=
  rfl

theorem ofComments_nil_andThen (definitions : Definitions) (next : Definitions → Pass) :
    (ofComments [] definitions).andThen next = next definitions := by
  rw [ofComments_andThen]
  cases next definitions with
  | mk output later => cases output <;> rfl

theorem andThen_ofComments_nil (pass : Pass) : pass.andThen (ofComments []) = pass := by
  obtain ⟨output, definitions⟩ := pass
  cases output with
  | error error => rfl
  | ok lines => simp [andThen, ofComments, Except.map]

theorem andThen_assoc (pass : Pass) (next last : Definitions → Pass) :
    (pass.andThen next).andThen last = pass.andThen fun definitions => (next definitions).andThen last := by
  cases hpass : pass.output with
  | error error => rw [andThen_of_error hpass, andThen_of_error hpass, andThen_of_error hpass]
  | ok lines =>
    rw [andThen_of_ok hpass, andThen_of_ok hpass]
    cases hnext : (next pass.definitions).output with
    | error error => simp [andThen, hnext, Except.map]
    | ok more =>
      cases hlast : (last (next pass.definitions).definitions).output <;>
        simp [andThen, hnext, hlast, Except.map]

theorem ofComments_append (first second : List Text) (definitions : Definitions) :
    ofComments (first ++ second) definitions =
      (ofComments first definitions).andThen (ofComments second) := by
  simp [andThen, ofComments, Except.map]

/-- Lines put together are compiled one part after the other. -/
theorem ofLines_append : ∀ (first second : List Text) (number : Nat) (definitions : Definitions),
    ofLines number (first ++ second) definitions =
      (ofLines number first definitions).andThen (ofLines (number + first.length) second)
  | [], second, number, definitions => (ofComments_nil_andThen definitions (ofLines number second)).symm
  | line :: first, second, number, definitions => by
    have ih := funext (ofLines_append first second (number + 1))
    have hnumber : number + (line :: first).length = number + 1 + first.length := by
      rw [List.length_cons]
      omega
    rw [List.cons_append, ofLines, ofLines, andThen_assoc, ih, hnumber]

/-! ### Passes further down -/

theorem moved_andThen (count : Nat) (pass : Pass) (next : Definitions → Pass) :
    (pass.andThen next).moved count = (pass.moved count).andThen fun later => (next later).moved count := by
  cases hpass : pass.output with
  | error error => simp [andThen, moved, hpass, Except.mapError]
  | ok lines =>
    cases hnext : (next pass.definitions).output <;>
      simp [andThen, moved, hpass, hnext, Except.map, Except.mapError]

theorem ofCode_moved (count number : Nat) (code : Text) (definitions : Definitions) :
    ofCode (number + count) code definitions = (ofCode number code definitions).moved count := by
  unfold ofCode
  cases (Directive.parse code).compile definitions <;> rfl

theorem ofLine_moved (count number : Nat) (line : Text) (definitions : Definitions) :
    ofLine (number + count) line definitions = (ofLine number line definitions).moved count := by
  rw [ofLine, ofLine, moved_andThen, ofCode_moved]
  rfl

/-- Where lines stand matters only to the number of a failure. -/
theorem ofLines_moved (count : Nat) : ∀ (lines : List Text) (number : Nat) (definitions : Definitions),
    ofLines (number + count) lines definitions = (ofLines number lines definitions).moved count
  | [], _, _ => rfl
  | line :: rest, number, definitions => by
    have ih := funext (ofLines_moved count rest (number + 1))
    have hnumber : number + count + 1 = number + 1 + count := by omega
    rw [ofLines, ofLines, moved_andThen, ← ofLine_moved, hnumber, ih]

/-! ### How lines end -/

/-- What a line puts out: its compiled code, then its comment. -/
def lineOutput (line : Text) (compiled : Compiled) : List Program.Line :=
  compiled.line.toList ++ (CodeLine.parts line).2.toList.map (⟨.comment, ·⟩)

theorem ofLine_of_ok {line : Text} {definitions : Definitions} {compiled : Compiled}
    (h : (Directive.parse (CodeLine.parts line).1).compile definitions = .ok compiled) (number : Nat) :
    ofLine number line definitions = ⟨.ok (lineOutput line compiled), compiled.definitions⟩ := by
  simp [ofLine, ofCode, h, andThen, ofComments, Except.map, lineOutput]

theorem ofLine_of_error {line : Text} {definitions : Definitions} {cause : Error}
    (h : (Directive.parse (CodeLine.parts line).1).compile definitions = .error cause) (number : Nat) :
    ofLine number line definitions = ⟨.error (.onLine number cause), definitions⟩ := by
  simp [ofLine, ofCode, h, andThen]

/-- Behind a line that compiles, lines go on with the definitions that it leaves. -/
theorem definitions_ofLines_cons {line : Text} {definitions : Definitions} {compiled : Compiled}
    (h : (Directive.parse (CodeLine.parts line).1).compile definitions = .ok compiled) (rest : List Text)
    (number : Nat) : (ofLines number (line :: rest) definitions).definitions =
      (ofLines (number + 1) rest compiled.definitions).definitions := by
  rw [ofLines, ofLine_of_ok h]
  rfl

/-- Lines that are compiled: what the first gives, and the output of the others. -/
theorem of_output_cons {line : Text} {rest : List Text} {number : Nat} {definitions : Definitions}
    {done : List Program.Line} (h : (ofLines number (line :: rest) definitions).output = .ok done) :
    ∃ compiled more, (Directive.parse (CodeLine.parts line).1).compile definitions = .ok compiled ∧
      (ofLines (number + 1) rest compiled.definitions).output = .ok more ∧
      done = lineOutput line compiled ++ more := by
  cases hline : (Directive.parse (CodeLine.parts line).1).compile definitions with
  | error cause =>
    rw [ofLines, ofLine_of_error hline] at h
    cases h
  | ok compiled =>
    rw [ofLines, ofLine_of_ok hline] at h
    cases hrest : (ofLines (number + 1) rest compiled.definitions).output with
    | error error => simp [andThen, hrest, Except.map] at h
    | ok more => exact ⟨compiled, more, rfl, hrest, by simpa [andThen, hrest, Except.map] using h.symm⟩

/-- Lines that fail do so at one line, with the definitions that the lines before it have left, and it is
    that line that the failure tells. -/
theorem of_output_eq_error : ∀ {lines : List Text} {number : Nat} {definitions : Definitions}
    {error : Error}, (ofLines number lines definitions).output = .error error →
      ∃ before line after done cause, lines = before ++ line :: after ∧
        (ofLines number before definitions).output = .ok done ∧
        (ofLines number lines definitions).definitions = (ofLines number before definitions).definitions ∧
        (Directive.parse (CodeLine.parts line).1).compile (ofLines number before definitions).definitions =
          .error cause ∧
        error = .onLine (number + before.length + 1) cause
  | [], _, _, _, h => by simp [ofLines, ofComments] at h
  | line :: rest, number, definitions, error, h => by
    cases hline : (Directive.parse (CodeLine.parts line).1).compile definitions with
    | error cause =>
      have hfails := ofLine_of_error hline (number + 1)
      rw [ofLines, hfails] at h ⊢
      cases h
      exact ⟨[], line, rest, [], cause, rfl, rfl, rfl, hline, rfl⟩
    | ok compiled =>
      have hfirst := ofLine_of_ok hline (number + 1)
      rw [ofLines, hfirst] at h
      cases hrest : (ofLines (number + 1) rest compiled.definitions).output with
      | ok more => simp [andThen, hrest, Except.map] at h
      | error other =>
        have hother : other = error := by simpa [andThen, hrest, Except.map] using h
        obtain ⟨before, failing, after, done, cause, rfl, hdone, hlater, hfailing, rfl⟩ :=
          of_output_eq_error hrest
        have hbefore : ofLines number (line :: before) definitions =
            ⟨.ok (lineOutput line compiled ++ done),
              (ofLines (number + 1) before compiled.definitions).definitions⟩ := by
          simp [ofLines, hfirst, andThen, hdone, Except.map]
        refine ⟨line :: before, failing, after, _, cause, rfl, by rw [hbefore], ?_, ?_, ?_⟩
        · rw [hbefore, definitions_ofLines_cons hline]
          exact hlater
        · rw [hbefore]
          exact hfailing
        · rw [← hother, List.length_cons]
          congr 1
          omega

end Pass

/-! ### Entries and lines come to the same -/

/-- A compilation without its log. -/
def Compilation.pass (compilation : Compilation) : Pass := ⟨compilation.output, compilation.definitions⟩

namespace CodeLine

open Pass

theorem pass_compileAll_cons (entry : CodeLine) (rest : List CodeLine) (definitions : Definitions) :
    (compileAll definitions (entry :: rest)).pass =
      ((ofComments entry.comments definitions).andThen (ofCode entry.number entry.text)).andThen
        fun later => (compileAll later rest).pass := by
  rw [ofComments_andThen, ofCode]
  cases hcode : (Directive.parse entry.text).compile definitions with
  | error cause =>
    have hentry : entry.compile definitions = .error (.onLine entry.number cause) := by
      rw [compile, hcode]
      rfl
    rw [compileAll_of_error hentry]
    rfl
  | ok compiled =>
    rw [compileAll_of_ok (compile_eq_ok_iff.2 hcode)]
    rfl

theorem ofCode_nil (number : Nat) : ofCode number [] = ofComments [] := rfl

/-- Comments on their own, and the entries behind them. -/
theorem pass_compileAll_alone (number : Nat) (comments : List Text) (rest : List CodeLine)
    (definitions : Definitions) : (compileAll definitions (alone number comments ++ rest)).pass =
      (ofComments comments definitions).andThen fun later => (compileAll later rest).pass := by
  unfold alone
  split
  · rename_i hnil
    rw [hnil, ofComments_nil_andThen]
    rfl
  · rw [List.singleton_append, pass_compileAll_cons, ofCode_nil, andThen_ofComments_nil]

theorem ofLine_of_blank {number : Nat} {line : Text} {comment : Option Text}
    (h : parts line = ([], comment)) : ofLine number line = ofComments comment.toList := by
  funext definitions
  rw [ofLine, h, ofCode_nil, ofComments_nil_andThen]

/-- The entries of lines come to what the lines come to, behind the comments that wait. -/
theorem pass_compileAll_collect : ∀ (lines : List Text) (number : Nat) (waiting : List Text)
    (definitions : Definitions), (compileAll definitions (collect number waiting lines)).pass =
      (ofComments waiting definitions).andThen (ofLines number lines)
  | [], number, waiting, definitions => by
    have halone := pass_compileAll_alone number waiting [] definitions
    rw [List.append_nil] at halone
    exact halone
  | line :: rest, number, waiting, definitions => by
    have ih := pass_compileAll_collect rest (number + 1)
    rcases hparts : parts line with ⟨code, comment⟩
    cases code with
    | nil =>
      cases comment with
      | some comment =>
        simp only [collect, hparts]
        rw [ih, ofComments_append, andThen_assoc]
        simp only [ofLines, ofLine_of_blank hparts, Option.toList]
      | none =>
        simp only [collect, hparts]
        rw [pass_compileAll_alone]
        simp only [ih, ofLines, ofLine_of_blank hparts, Option.toList]
    | cons c cs =>
      simp only [collect, hparts]
      rw [pass_compileAll_cons, andThen_assoc]
      simp only [ih, ofLines, ofLine, hparts, andThen_assoc]

theorem pass_compileAll_ofProgram (program : Text) (definitions : Definitions) :
    (compileAll definitions (ofProgram program)).pass = Pass.ofProgram program definitions := by
  rw [ofProgram, pass_compileAll_collect, ofComments_nil_andThen]
  rfl

end CodeLine

/-! ### Programs in a session -/

namespace Session

variable {session : Session} {program : Text}

theorem program_eq_pass (session : Session) (program : Text) :
    (session.compileProgram program).program =
      (Pass.ofProgram program session.definitions).output.map (Program.mk session.date) := by
  rw [program_compileProgram, ← CodeLine.pass_compileAll_ofProgram]
  rfl

theorem session_eq_pass (session : Session) (program : Text) :
    (session.compileProgram program).session =
      ⟨session.date, (Pass.ofProgram program session.definitions).definitions⟩ := by
  rw [session_compileProgram, ← CodeLine.pass_compileAll_ofProgram]
  rfl

theorem program_eq_error_iff {error : Error} :
    (session.compileProgram program).program = .error error ↔
      (Pass.ofProgram program session.definitions).output = .error error := by
  rw [program_eq_pass]
  cases (Pass.ofProgram program session.definitions).output <;> simp [Except.map]

theorem program_eq_ok_iff {done : Program} :
    (session.compileProgram program).program = .ok done ↔
      ∃ lines, (Pass.ofProgram program session.definitions).output = .ok lines ∧
        done = ⟨session.date, lines⟩ := by
  rw [program_eq_pass]
  cases (Pass.ofProgram program session.definitions).output <;> simp [Except.map, eq_comm]

end Session

end LambdaArrow
