import LambdaArrow.Proofs.Keys
import LambdaArrow.Session

/-! What a directive does to the definitions. One that compiles an expression has parsed it with the
    definitions made before; one that defines a name adds that name; no other adds any. A directive that fails
    has changed nothing, since a name is defined when nothing can fail any more:

        name ─▶ expression ─▶ define
          │         │
          ▼         ▼
        fails     fails        with the definitions as they were

    A run of lines hands the definitions on from each line to the next, up to the first that fails. -/

namespace LambdaArrow

namespace Directive

/-- The expression that a directive compiles, if it compiles one. -/
def expression? : Directive → Option Text
  | .define _ expression => some expression
  | .number expression => some expression
  | .boolean expression => some expression
  | .source expression => some expression
  | .compute expression => some expression
  | .label _ => none
  | .nothing => none

/-- The name that a directive defines, if it defines one. -/
def definedName? : Directive → Option Text
  | .define name _ => some name
  | _ => none

variable {definitions : Definitions} {compiled : Compiled}

/-! ### One directive -/

theorem compile_eq_ok_iff {expression body : Text} : definitions.compile expression = .ok body ↔
    ∃ term, Term.parse definitions expression = .ok term ∧ body = term.arrow := by
  unfold Definitions.compile
  cases Term.parse definitions expression with
  | error error => exact ⟨fun h => (by cases h), fun ⟨_, h, _⟩ => (by cases h)⟩
  | ok term =>
    constructor
    · intro h
      exact ⟨term, rfl, (Except.ok.inj h).symm⟩
    · rintro ⟨other, h, rfl⟩
      cases h
      rfl

theorem compileDefinition_eq_ok_iff {name expression : Text} :
    (compileDefinition definitions name expression).compiled = .ok compiled ↔
      isDefinable name ∧ ∃ term, Term.parse definitions expression = .ok term ∧
        compiled = ⟨some ⟨.definition, "const ".toList ++ name ++ " = ".toList ++ term.arrow ++ [';']⟩,
          definitions.insert name term.arrow, [defined definitions name]⟩ := by
  unfold compileDefinition
  cases hname : isDefinable name with
  | false => exact ⟨fun h => (by cases h), fun ⟨h, _⟩ => (by cases h)⟩
  | true =>
    cases hbody : definitions.compile expression with
    | error error =>
      refine ⟨fun h => (by cases h), fun ⟨_, term, hparse, _⟩ => ?_⟩
      rw [compile_eq_ok_iff.2 ⟨term, hparse, rfl⟩] at hbody
      cases hbody
    | ok body =>
      obtain ⟨term, hparse, rfl⟩ := compile_eq_ok_iff.1 hbody
      constructor
      · intro h
        exact ⟨rfl, term, hparse, (Except.ok.inj h).symm⟩
      · rintro ⟨-, other, hother, rfl⟩
        rw [hparse] at hother
        cases hother
        rfl

theorem compileStatement_eq_ok_iff {before expression after : Text} :
    (compileStatement definitions before expression after).compiled = .ok compiled ↔
      ∃ term, Term.parse definitions expression = .ok term ∧
        compiled = ⟨some ⟨.statement, before ++ term.arrow ++ after⟩, definitions, []⟩ := by
  unfold compileStatement
  cases hbody : definitions.compile expression with
  | error error =>
    refine ⟨fun h => (by cases h), fun ⟨term, hparse, _⟩ => ?_⟩
    rw [compile_eq_ok_iff.2 ⟨term, hparse, rfl⟩] at hbody
    cases hbody
  | ok body =>
    obtain ⟨term, hparse, rfl⟩ := compile_eq_ok_iff.1 hbody
    constructor
    · intro h
      exact ⟨term, hparse, (Except.ok.inj h).symm⟩
    · rintro ⟨other, hother, rfl⟩
      rw [hparse] at hother
      cases hother
      rfl

/-- A directive that compiles hands back what it has compiled. -/
theorem outcome_of_ok {directive : Directive} (h : directive.compile definitions = .ok compiled) :
    directive.outcome definitions = ⟨.ok compiled.line, compiled.definitions, compiled.log⟩ := by
  rw [compile] at h
  generalize directive.outcome definitions = outcome at h ⊢
  obtain ⟨line, after, log⟩ := outcome
  cases line with
  | error error => cases h
  | ok line =>
    cases h
    rfl

/-- A statement that fails leaves the definitions as they are. -/
theorem compileStatement_of_error {before expression after : Text} {error : Error}
    (h : (compileStatement definitions before expression after).compiled = .error error) :
    compileStatement definitions before expression after = ⟨.error error, definitions, []⟩ := by
  unfold compileStatement at h ⊢
  cases hbody : definitions.compile expression with
  | error cause =>
    rw [hbody] at h
    cases h
    rfl
  | ok body =>
    rw [hbody] at h
    cases h

/-- So does a definition, whether its name or its expression is at fault. -/
theorem compileDefinition_of_error {name expression : Text} {error : Error}
    (h : (compileDefinition definitions name expression).compiled = .error error) :
    compileDefinition definitions name expression = ⟨.error error, definitions, []⟩ := by
  unfold compileDefinition at h ⊢
  cases hname : isDefinable name with
  | false =>
    rw [hname] at h
    cases h
    rfl
  | true =>
    cases hbody : definitions.compile expression with
    | error cause =>
      rw [hname, hbody] at h
      cases h
      rfl
    | ok body =>
      rw [hname, hbody] at h
      cases h

/-- A directive that fails hands back the definitions as they were, and has nothing in its log. -/
theorem outcome_of_error {directive : Directive} {error : Error}
    (h : directive.compile definitions = .error error) :
    directive.outcome definitions = ⟨.error error, definitions, []⟩ := by
  cases directive with
  | define name expression => exact compileDefinition_of_error h
  | number expression => exact compileStatement_of_error h
  | boolean expression => exact compileStatement_of_error h
  | source expression => exact compileStatement_of_error h
  | compute expression => exact compileStatement_of_error h
  | label text => cases h
  | nothing => cases h

/-- What a directive that compiles has parsed, and which names are known behind it. -/
structure Effect (definitions : Definitions) (directive : Directive) (compiled : Compiled) : Prop where
  parsed : ∀ expression, directive.expression? = some expression →
    ∃ term, Term.parse definitions expression = .ok term
  known : ∀ name, name ∈ compiled.definitions.keys ↔
    name ∈ definitions.keys ∨ directive.definedName? = some name

theorem Effect.ofStatement {directive : Directive} {before expression after : Text}
    (hexpression : directive.expression? = some expression) (hname : directive.definedName? = none)
    (h : (compileStatement definitions before expression after).compiled = .ok compiled) :
    Effect definitions directive compiled := by
  obtain ⟨term, hparse, rfl⟩ := compileStatement_eq_ok_iff.1 h
  refine ⟨fun other hother => ?_, fun name => ?_⟩
  · rw [hexpression] at hother
    cases hother
    exact ⟨term, hparse⟩
  · rw [hname]
    exact ⟨Or.inl, fun hmem => hmem.resolve_right (by simp)⟩

/-- A directive that compiles no expression and defines no name leaves the definitions as they are. -/
theorem Effect.ofIdle {directive : Directive} (hexpression : directive.expression? = none)
    (hname : directive.definedName? = none) (h : compiled.definitions = definitions) :
    Effect definitions directive compiled := by
  refine ⟨fun expression heq => ?_, fun name => ?_⟩
  · rw [hexpression] at heq
    cases heq
  · rw [h, hname]
    exact ⟨Or.inl, fun hmem => hmem.resolve_right (by simp)⟩

theorem effect_of_compile {directive : Directive} (h : directive.compile definitions = .ok compiled) :
    Effect definitions directive compiled := by
  cases directive with
  | define name expression =>
    obtain ⟨-, term, hparse, rfl⟩ := compileDefinition_eq_ok_iff.1 h
    refine ⟨fun other hother => ?_, fun other => ?_⟩
    · cases hother
      exact ⟨term, hparse⟩
    · rw [Table.mem_keys_insert, definedName?, Option.some_inj, @eq_comm _ other]
  | number expression => exact .ofStatement rfl rfl h
  | boolean expression => exact .ofStatement rfl rfl h
  | source expression => exact .ofStatement rfl rfl h
  | compute expression => exact .ofStatement rfl rfl h
  | label text =>
    cases h
    exact .ofIdle rfl rfl rfl
  | nothing =>
    cases h
    exact .ofIdle rfl rfl rfl

end Directive

namespace CodeLine

/-! ### One line after the other -/

/-- Compiles the code of a line; a failure tells the line. -/
def compile (definitions : Definitions) (line : CodeLine) : Except Error Compiled :=
  ((Directive.parse line.text).compile definitions).mapError (.onLine line.number)

variable {definitions : Definitions} {line : CodeLine}

theorem compile_eq_ok_iff {compiled : Compiled} :
    line.compile definitions = .ok compiled ↔
      (Directive.parse line.text).compile definitions = .ok compiled := by
  unfold compile
  cases (Directive.parse line.text).compile definitions <;> simp [Except.mapError]

/-- A run goes on behind a line that compiles, with the definitions that the line leaves. -/
theorem compileAll_of_ok {compiled : Compiled} (h : line.compile definitions = .ok compiled)
    (rest : List CodeLine) : compileAll definitions (line :: rest) =
      ⟨(compileAll compiled.definitions rest).output.map (line.output compiled.line ++ ·),
        (compileAll compiled.definitions rest).definitions,
        line.visited :: compiled.log ++ (compileAll compiled.definitions rest).log⟩ := by
  rw [compileAll, Directive.outcome_of_ok (compile_eq_ok_iff.1 h)]

/-- A run ends at a line that fails, with the definitions that were there. -/
theorem compileAll_of_error {error : Error} (h : line.compile definitions = .error error)
    (rest : List CodeLine) :
    compileAll definitions (line :: rest) = ⟨.error error, definitions, [line.visited]⟩ := by
  cases hcause : (Directive.parse line.text).compile definitions with
  | error cause =>
    rw [compile, hcause] at h
    cases h
    rw [compileAll, Directive.outcome_of_error hcause]
  | ok compiled =>
    rw [compile, hcause] at h
    cases h

end CodeLine

/-! ### Sessions -/

namespace Session

variable {session : Session} {directive : Directive}

theorem program_compileProgram (session : Session) (source : Text) :
    (session.compileProgram source).program =
      (CodeLine.compileAll session.definitions (CodeLine.ofProgram source)).output.map
        (Program.mk session.date) := by
  rw [compileProgram]
  cases (CodeLine.compileAll session.definitions (CodeLine.ofProgram source)).output <;> rfl

theorem text_eq_ok_iff {session : Session} {program js : Text} :
    (session.compileProgram program).text = .ok js ↔
      ∃ lines, (CodeLine.compileAll session.definitions (CodeLine.ofProgram program)).output = .ok lines ∧
        Program.render ⟨session.date, lines⟩ = js := by
  rw [Outcome.text, program_compileProgram]
  cases (CodeLine.compileAll session.definitions (CodeLine.ofProgram program)).output <;> simp [Except.map]

theorem session_compileProgram (session : Session) (source : Text) :
    (session.compileProgram source).session =
      ⟨session.date, (CodeLine.compileAll session.definitions (CodeLine.ofProgram source)).definitions⟩ := by
  rw [compileProgram]
  cases (CodeLine.compileAll session.definitions (CodeLine.ofProgram source)).output <;> rfl

theorem compile_eq_error_iff {error : Error} :
    session.compile directive = .error error ↔ directive.compile session.definitions = .error error := by
  change Except.map _ (directive.compile session.definitions) = _ ↔ _
  cases directive.compile session.definitions <;> simp [Except.map]

theorem compile_eq_ok_iff {result : Compiled × Session} :
    session.compile directive = .ok result ↔ ∃ compiled,
      directive.compile session.definitions = .ok compiled ∧
        result = (compiled, ⟨session.date, compiled.definitions⟩) := by
  unfold compile attempt
  cases hdirective : directive.compile session.definitions with
  | error error => simp [Directive.outcome_of_error hdirective, Directive.Outcome.compiled, Except.map]
  | ok compiled => simp [Directive.outcome_of_ok hdirective, Directive.Outcome.compiled, Except.map, eq_comm]

end Session

end LambdaArrow
