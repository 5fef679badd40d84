import LambdaArrow.Proofs.Insertions
import LambdaArrow.Proofs.Scope

/-! The definitions of a session and how they came about. A session is asked for programs, single directives
    and expressions, in any order and with any outcome. Its history is the definitions that have succeeded;
    its table is what inserting them one after the other leaves:

        history      `A ↦ x`   `B ↦ A`   `A ↦ B`
        table        `A ↦ B`   `B ↦ A`

    Each step, be it a directive, the lines of a program or a request, says what it adds to the history. All
    that holds of the table follows from that. -/

namespace LambdaArrow

/-! ### Definitions that succeed -/

/-- The definition that a directive makes, if it is one and succeeds: the name and the body compiled
    for it. -/
def Directive.made? (definitions : Definitions) (directive : Directive) : Option (Text × Text) :=
  match directive, directive.compile definitions with
  | .define name expression, .ok _ => (definitions.compile expression).toOption.map (name, ·)
  | _, _ => none

/-- The definitions that lines make, up to the first line that fails. -/
def CodeLine.made (definitions : Definitions) : List CodeLine → List (Text × Text)
  | [] => []
  | line :: rest =>
    match line.compile definitions with
    | .error _ => []
    | .ok compiled => ((Directive.parse line.text).made? definitions).toList ++ made compiled.definitions rest

namespace Definitions

/-- A definition that is in order where `names` are known: its own name starts with a capital letter, and
    its body is that of a term in scope. -/
structure Admits (names : List Text) (made : Text × Text) : Prop where
  capital : Directive.isDefinable made.1
  body : ∃ term : Term, made.2 = term.arrow ∧ term.Scoped names

theorem Admits.mono {names more : List Text} {made : Text × Text} (h : Admits names made)
    (hsub : ∀ name ∈ names, name ∈ more) : Admits more made := by
  obtain ⟨term, hbody, hscoped⟩ := h.body
  exact ⟨h.capital, term, hbody, (Term.scoped_mono hsub term).1 hscoped⟩

/-- What was made leads from one table to another, and is in order there. -/
structure Grows (before : Definitions) (made : List (Text × Text)) (after : Definitions) : Prop where
  inserted : after = before.insertAll made
  admitted : ∀ entry ∈ made, Admits after.keys entry

variable {before between after : Definitions} {made more : List (Text × Text)}

theorem Grows.refl (definitions : Definitions) : Grows definitions [] definitions :=
  ⟨rfl, fun _ h => absurd h List.not_mem_nil⟩

theorem Grows.keys_extend (h : Grows before made after) : before.keys <+: after.keys := by
  rw [h.inserted]
  exact Table.keys_prefix_insertAll made before

theorem Grows.trans (hfirst : Grows before made between) (hsecond : Grows between more after) :
    Grows before (made ++ more) after := by
  refine ⟨?_, fun entry hentry => ?_⟩
  · rw [Table.insertAll_append, ← hfirst.inserted, hsecond.inserted]
  · rcases List.mem_append.1 hentry with hmade | hmore
    · exact (hfirst.admitted entry hmade).mono fun name hname => hsecond.keys_extend.subset hname
    · exact hsecond.admitted entry hmore

end Definitions

open Definitions (Grows Admits)

/-! ### One directive -/

namespace Directive

variable {definitions : Definitions} {directive : Directive} {compiled : Compiled}

theorem made?_of_definedName?_eq_none (h : directive.definedName? = none) :
    directive.made? definitions = none := by
  cases directive <;> first | rfl | simp [definedName?] at h

theorem made?_of_error {error : Error} (h : directive.compile definitions = .error error) :
    directive.made? definitions = none := by
  cases directive <;> simp [made?, h]

theorem definitions_of_compileStatement {before expression after : Text}
    (h : (compileStatement definitions before expression after).compiled = .ok compiled) :
    compiled.definitions = definitions := by
  obtain ⟨term, -, rfl⟩ := compileStatement_eq_ok_iff.1 h
  rfl

/-- Only a definition changes the definitions. -/
theorem definitions_of_definedName?_eq_none (hname : directive.definedName? = none)
    (h : directive.compile definitions = .ok compiled) : compiled.definitions = definitions := by
  cases directive with
  | define name expression => simp [definedName?] at hname
  | number expression => exact definitions_of_compileStatement h
  | boolean expression => exact definitions_of_compileStatement h
  | source expression => exact definitions_of_compileStatement h
  | compute expression => exact definitions_of_compileStatement h
  | label text => cases h; rfl
  | nothing => cases h; rfl

theorem made?_define {name expression : Text} {term : Term}
    (h : (define name expression).compile definitions = .ok compiled)
    (hparse : Term.parse definitions expression = .ok term) :
    (define name expression).made? definitions = some (name, term.arrow) := by
  have hbody : definitions.compile expression = .ok term.arrow := compile_eq_ok_iff.2 ⟨term, hparse, rfl⟩
  simp [made?, h, hbody, Except.toOption]

theorem grows_of_compile (h : directive.compile definitions = .ok compiled) :
    Grows definitions (directive.made? definitions).toList compiled.definitions := by
  cases hname : directive.definedName? with
  | none =>
    rw [made?_of_definedName?_eq_none hname, definitions_of_definedName?_eq_none hname h]
    exact .refl definitions
  | some name =>
    cases directive with
    | define name expression =>
      obtain ⟨hcapital, term, hparse, hcompiled⟩ := compileDefinition_eq_ok_iff.1 h
      rw [made?_define h hparse, hcompiled]
      refine ⟨rfl, fun entry hentry => ?_⟩
      obtain rfl := List.mem_singleton.1 hentry
      have hscoped := Term.scoped_of_parse hparse
      refine Admits.mono ⟨hcapital, term, rfl, hscoped⟩ fun other hother => ?_
      exact Table.mem_keys_insert.2 (Or.inl hother)
    | _ => simp [definedName?] at hname

end Directive

/-! ### The lines of a program -/

namespace CodeLine

theorem made_of_ok {definitions : Definitions} {line : CodeLine} {compiled : Compiled}
    (h : line.compile definitions = .ok compiled) (rest : List CodeLine) :
    made definitions (line :: rest) =
      ((Directive.parse line.text).made? definitions).toList ++ made compiled.definitions rest := by
  rw [made, h]

theorem made_of_error {definitions : Definitions} {line : CodeLine} {error : Error}
    (h : line.compile definitions = .error error) (rest : List CodeLine) :
    made definitions (line :: rest) = [] := by
  rw [made, h]

theorem grows_compileAll : ∀ (lines : List CodeLine) (definitions : Definitions),
    Grows definitions (made definitions lines) (compileAll definitions lines).definitions
  | [], definitions => .refl definitions
  | line :: rest, definitions => by
    cases hline : line.compile definitions with
    | error error =>
      rw [made_of_error hline, compileAll_of_error hline]
      exact .refl definitions
    | ok compiled =>
      rw [made_of_ok hline, compileAll_of_ok hline]
      exact (Directive.grows_of_compile (compile_eq_ok_iff.1 hline)).trans
        (grows_compileAll rest compiled.definitions)

end CodeLine

/-! ### Requests to a session -/

/-- What a session may be asked for: to compile a program, to compile what one directive asks for (to define
    a name, to print an expression in one of three ways or a label, to compute an expression), or to compile
    an expression alone. -/
inductive Request where
  | program (source : Text)
  | directive (directive : Directive)
  | expression (expression : Text)

namespace Session

/-- The session after a request. -/
def after (session : Session) : Request → Session
  | .program source => (session.compileProgram source).session
  | .directive directive => (session.attempt directive).2
  | .expression _ => session

/-- The definitions that a request makes, in order. -/
def made (session : Session) : Request → List (Text × Text)
  | .program source => CodeLine.made session.definitions (CodeLine.ofProgram source)
  | .directive directive => (directive.made? session.definitions).toList
  | .expression _ => []

/-- The session after requests made one after the other. -/
def afterAll (session : Session) (requests : List Request) : Session := requests.foldl after session

/-- The definitions that requests make, in order. -/
def history (session : Session) : List Request → List (Text × Text)
  | [] => []
  | request :: rest => session.made request ++ (session.after request).history rest

/-- A directive that fails hands the session back as it was. -/
theorem after_of_error {session : Session} {directive : Directive} {error : Error}
    (h : directive.compile session.definitions = .error error) :
    session.after (.directive directive) = session := by
  rw [after, attempt, Directive.outcome_of_error h]

theorem after_of_ok {session : Session} {directive : Directive} {compiled : Compiled}
    (h : directive.compile session.definitions = .ok compiled) :
    session.after (.directive directive) = ⟨session.date, compiled.definitions⟩ := by
  rw [after, attempt, Directive.outcome_of_ok h]

theorem grows_after (session : Session) (request : Request) :
    Grows session.definitions (session.made request) (session.after request).definitions := by
  cases request with
  | program source =>
    rw [after, session_compileProgram]
    exact CodeLine.grows_compileAll (CodeLine.ofProgram source) session.definitions
  | directive directive =>
    cases hdirective : directive.compile session.definitions with
    | error error =>
      rw [after_of_error hdirective, made, Directive.made?_of_error hdirective]
      exact .refl session.definitions
    | ok compiled =>
      rw [after_of_ok hdirective, made]
      exact Directive.grows_of_compile hdirective
  | expression expression => exact .refl session.definitions

theorem grows_afterAll : ∀ (requests : List Request) (session : Session),
    Grows session.definitions (session.history requests) (session.afterAll requests).definitions
  | [], session => .refl session.definitions
  | request :: rest, session => (session.grows_after request).trans (grows_afterAll rest _)

end Session

/-! ### What a table tells of its history -/

theorem Directive.exists_capital_of_isDefinable {name : Text} (h : isDefinable name) :
    ∃ c rest, name = c :: rest ∧ 'A' ≤ c ∧ c ≤ 'Z' := by
  cases name with
  | nil => simp [isDefinable] at h
  | cons c rest =>
    simp only [isDefinable, List.head?_cons, Option.any_some, Char.isUpper, decide_eq_true_eq,
      ge_iff_le] at h
    exact ⟨c, rest, rfl, h.1, h.2⟩

theorem Definitions.Grows.mem_made_of_mem_entries {made : List (Text × Text)} {definitions : Definitions}
    (h : Grows Table.empty made definitions) {name body : Text} (hmem : (name, body) ∈ definitions.entries) :
    (name, body) ∈ made := by
  rw [h.inserted, Table.mem_entries_insertAll_empty] at hmem
  obtain ⟨earlier, later, rfl, -⟩ := hmem
  exact List.mem_append_right earlier List.mem_cons_self

/-- CORRECT: after any requests, the table of a session has the names of the definitions that succeeded, once
    each and in the order of their first success, with the bodies of their last; names start with a capital
    letter, and bodies use known names outside abstractions. The next request keeps the names in their places,
    and changes nothing if it is for one directive that fails or for no definition at all. -/
theorem Session.definitions_afterAll (date : Date) (requests : List Request) :
    let session := (start date).afterAll requests
    let history := (start date).history requests
    let definitions := session.definitions
    definitions.keys = (history.map (·.1)).eraseDups ∧ definitions.keys.Nodup ∧
    (∀ name body, (name, body) ∈ definitions.entries ↔ Table.Latest history name body) ∧
    (∀ name ∈ definitions.keys, ∃ c rest, name = c :: rest ∧ 'A' ≤ c ∧ c ≤ 'Z') ∧
    (∀ name body, (name, body) ∈ definitions.entries → ∃ term : Term, body = term.arrow ∧
      ∀ path other, term.at? path = some (.ref other) → Term.Step.body ∉ path →
        other ∈ definitions.keys) ∧
    (∀ request, definitions.keys <+: (session.after request).definitions.keys) ∧
    (∀ directive error, session.compile directive = .error error →
      (session.after (.directive directive)).definitions = definitions) ∧
    (∀ directive, directive.definedName? = none →
      (session.after (.directive directive)).definitions = definitions) ∧
    ∀ expression, (session.after (.expression expression)).definitions = definitions := by
  intro session history definitions
  have hgrows : Grows Table.empty history definitions := grows_afterAll requests (start date)
  have hadmits : ∀ name body, (name, body) ∈ definitions.entries → Admits definitions.keys (name, body) :=
    fun name body hmem => hgrows.admitted _ (hgrows.mem_made_of_mem_entries hmem)
  refine ⟨?_, ?_, ?_, ?_, ?_, fun request => (session.grows_after request).keys_extend, ?_, ?_, fun _ => rfl⟩
  · rw [hgrows.inserted, Table.keys_insertAll_empty]
  · rw [hgrows.inserted]
    exact Table.nodup_keys_insertAll history List.nodup_nil
  · intro name body
    rw [hgrows.inserted, Table.mem_entries_insertAll_empty]
  · intro name hname
    obtain ⟨⟨other, body⟩, hmem, rfl⟩ := List.mem_map.1 hname
    exact Directive.exists_capital_of_isDefinable (hadmits other body hmem).capital
  · intro name body hmem
    obtain ⟨term, hbody, hscoped⟩ := (hadmits name body hmem).body
    exact ⟨term, hbody, fun path other hat hpath => hscoped.mem_of_at? hat hpath⟩
  · intro directive error herror
    rw [after_of_error (compile_eq_error_iff.1 herror)]
  · intro directive hname
    cases hdirective : directive.compile session.definitions with
    | error error => rw [after_of_error hdirective]
    | ok compiled =>
      rw [after_of_ok hdirective]
      exact Directive.definitions_of_definedName?_eq_none hname hdirective

/-- A program that fails at its third line, a redefinition that uses a later name, and a directive that
    fails. -/
theorem Session.definitions_afterAll_redefined :
    let session := (start ⟨2025, .february, 24⟩).afterAll
      [.program "A:=x\nB:=A\nC:=D".toList, .directive (.define "A".toList "B".toList)]
    session.definitions.keys = ["A".toList, "B".toList] ∧
    ("A".toList, "B".toList) ∈ session.definitions.entries ∧
    (session.after (.directive (.define "c".toList "x".toList))).definitions = session.definitions := by
  have hhistory : (start ⟨2025, .february, 24⟩).history
      [.program "A:=x\nB:=A\nC:=D".toList, .directive (.define "A".toList "B".toList)] =
        [("A".toList, "x".toList), ("B".toList, "A".toList), ("A".toList, "B".toList)] := by cbv
  intro session
  obtain ⟨hkeys, -, hentries, -, -, -, hfails, -⟩ := definitions_afterAll ⟨2025, .february, 24⟩
    [.program "A:=x\nB:=A\nC:=D".toList, .directive (.define "A".toList "B".toList)]
  refine ⟨?_, (hentries _ _).2 ?_, hfails _ (.invalidDefinitionName "c".toList) rfl⟩
  · rw [hkeys, hhistory]
    decide
  · rw [hhistory]
    exact ⟨[("A".toList, "x".toList), ("B".toList, "A".toList)], [], rfl, List.not_mem_nil⟩

end LambdaArrow
