import LambdaArrow.Proofs.Failing

/-! Which names a term of a program may use. Outside abstractions every name must have been defined on
    an earlier line. In the body of an abstraction a word is taken as written, but what stands there in
    parentheses is checked again, until the next abstraction inside it. So a name without a definition
    is found only on the spine of a body, as its head or as one of its arguments:

        $x.Later x Later      the two uses of `Later` need no definition
        $x.x (Later x)        this one does

    Reading decides the role of every word, and looking names up does the rest. The names known at a line are
    those that the lines before it define, so what holds of the table holds of the text above the line. -/

namespace LambdaArrow

namespace Term

/-- Whether a term is a reference. -/
def isRef : Term → Bool
  | .ref _ => true
  | _ => false

mutual

/-- Every name that is checked is among `names`. -/
def Scoped (names : List Text) : Term → Prop
  | .var _ => True
  | .ref name => name ∈ names
  | .abs _ body => body.ScopedBody names
  | .app function argument => function.Scoped names ∧ argument.Scoped names

/-- The same in the body of an abstraction, whose spine is not checked. -/
def ScopedBody (names : List Text) : Term → Prop
  | .var _ => True
  | .ref _ => True
  | .abs _ body => body.ScopedBody names
  | .app function argument =>
    function.ScopedBody names ∧ (argument.isRef ∨ argument.Scoped names)

end

/-- What is in scope anywhere is in scope in a body. -/
theorem Scoped.body {names : List Text} {term : Term} (h : term.Scoped names) :
    term.ScopedBody names := by
  induction term with
  | var name => exact trivial
  | ref name => exact trivial
  | abs param body ih => exact h
  | app function argument ihf iha => exact ⟨ihf h.1, Or.inr h.2⟩

/-- More names keep a term in scope. -/
theorem scoped_mono {names more : List Text} (hsub : ∀ name ∈ names, name ∈ more) (term : Term) :
    (term.Scoped names → term.Scoped more) ∧ (term.ScopedBody names → term.ScopedBody more) := by
  induction term with
  | var name => exact ⟨id, id⟩
  | ref name => exact ⟨hsub name, id⟩
  | abs param body ih => exact ⟨ih.2, ih.2⟩
  | app function argument ihf iha =>
    exact ⟨fun h => ⟨ihf.1 h.1, iha.1 h.2⟩, fun h => ⟨ihf.2 h.1, h.2.imp_right iha.1⟩⟩

/-! ### Where a name stands -/

/-- One step down into a term. -/
inductive Step where
  | body
  | function
  | argument
  deriving DecidableEq

/-- The part of a term that a path leads to. -/
def at? : List Step → Term → Option Term
  | [], term => some term
  | .body :: path, .abs _ body => body.at? path
  | .function :: path, .app function _ => function.at? path
  | .argument :: path, .app _ argument => argument.at? path
  | _ :: _, _ => none

/-- The head of a spine, or one of its arguments. -/
def OnSpine (path : List Step) : Prop :=
  ∃ count, path = List.replicate count .function ∨
    path = List.replicate count .function ++ [.argument]

/-- A place on the spine of the body of an abstraction. -/
def OnBodySpine (path : List Step) : Prop :=
  ∃ outer inner, path = outer ++ .body :: inner ∧ OnSpine inner

theorem OnBodySpine.cons {path : List Step} (h : OnBodySpine path) (step : Step) :
    OnBodySpine (step :: path) := by
  obtain ⟨outer, inner, rfl, hinner⟩ := h
  exact ⟨step :: outer, inner, rfl, hinner⟩

theorem OnSpine.function {path : List Step} (h : OnSpine path) : OnSpine (.function :: path) := by
  obtain ⟨count, rfl | rfl⟩ := h
  · exact ⟨count + 1, Or.inl rfl⟩
  · exact ⟨count + 1, Or.inr rfl⟩

/-- One step into the body of an abstraction, from where the rest is on its spine or further in. -/
theorem onBodySpine_body {path : List Step} (h : OnSpine path ∨ OnBodySpine path) :
    OnBodySpine (.body :: path) := by
  rcases h with h | h
  · exact ⟨[], path, rfl, h⟩
  · exact h.cons .body

/-- In a term in scope, a name that is not among `names` stands on the spine of a body. -/
theorem Scoped.onBodySpine {names : List Text} {name : Text} (hname : name ∉ names) (term : Term) :
    (∀ path, term.Scoped names → term.at? path = some (.ref name) → OnBodySpine path) ∧
      ∀ path, term.ScopedBody names → term.at? path = some (.ref name) →
        OnSpine path ∨ OnBodySpine path := by
  induction term with
  | var other =>
    have hnone : ∀ path, (var other).at? path ≠ some (.ref name) := by
      intro path
      cases path with
      | nil => exact fun h => by cases h
      | cons step path => cases step <;> exact fun h => by cases h
    exact ⟨fun path _ h => absurd h (hnone path), fun path _ h => absurd h (hnone path)⟩
  | ref other =>
    refine ⟨fun path hscoped h => ?_, fun path _ h => ?_⟩
    · cases path with
      | nil =>
        cases h
        exact absurd hscoped hname
      | cons step path => cases step <;> cases h
    · cases path with
      | nil => exact Or.inl ⟨0, Or.inl rfl⟩
      | cons step path => cases step <;> cases h
  | abs param body ih =>
    have hbody : ∀ path, body.ScopedBody names → (abs param body).at? path = some (.ref name) →
        OnBodySpine path := by
      intro path hscoped h
      cases path with
      | nil => cases h
      | cons step path =>
        cases step with
        | body => exact onBodySpine_body (ih.2 path hscoped h)
        | function => cases h
        | argument => cases h
    exact ⟨hbody, fun path hscoped h => Or.inr (hbody path hscoped h)⟩
  | app function argument ihf iha =>
    refine ⟨fun path hscoped h => ?_, fun path hscoped h => ?_⟩
    · cases path with
      | nil => cases h
      | cons step path =>
        cases step with
        | body => cases h
        | function => exact (ihf.1 path hscoped.1 h).cons .function
        | argument => exact (iha.1 path hscoped.2 h).cons .argument
    · cases path with
      | nil => cases h
      | cons step path =>
        cases step with
        | body => cases h
        | function =>
          rcases ihf.2 path hscoped.1 h with hspine | hspine
          · exact Or.inl hspine.function
          · exact Or.inr (hspine.cons .function)
        | argument =>
          rcases hscoped.2 with href | hargument
          · -- a reference has no parts, so the path ends here
            cases argument with
            | ref other =>
              cases path with
              | nil => exact Or.inl ⟨0, Or.inr rfl⟩
              | cons step path => cases step <;> cases h
            | _ => cases href
          · exact Or.inr ((iha.1 path hargument h).cons .argument)

/-- A name that stands in no body at all is in scope. -/
theorem Scoped.mem_of_at? {names : List Text} {term : Term} (h : term.Scoped names) {path : List Step}
    {name : Text} (hat : term.at? path = some (.ref name)) (hpath : Step.body ∉ path) : name ∈ names := by
  by_contra hname
  obtain ⟨outer, inner, rfl, -⟩ := (Scoped.onBodySpine hname term).1 path h hat
  exact hpath (List.mem_append_right outer List.mem_cons_self)

end Term

namespace Phrase

/-! ### The role of every word -/

mutual

/-- Every word outside the bodies of abstractions has a role in which it is checked. -/
def Strict : Phrase → Prop
  | .word role _ => role ≠ .verbatim
  | .lambda _ body => body.Loose
  | .apply function argument => function.Strict ∧ argument.Strict
  | .fault _ => True

/-- The same in the body of an abstraction, where the words of the spine may be taken as written. -/
def Loose : Phrase → Prop
  | .word _ _ => True
  | .lambda _ body => body.Loose
  | .apply function argument =>
    function.Loose ∧ ((∃ text, argument = .word .verbatim text) ∨ argument.Strict)
  | .fault _ => True

end

theorem Strict.loose {phrase : Phrase} (h : phrase.Strict) : phrase.Loose := by
  induction phrase with
  | word role text => exact trivial
  | lambda param body ih => exact h
  | apply function argument ihf iha => exact ⟨ihf h.1, Or.inr h.2⟩
  | fault error => exact trivial

theorem strict_fault (error : Error) : (fault error).Strict := trivial

/-- What a text read at a place is. -/
def FitsPlace : Place → Phrase → Prop
  | .expression, phrase => phrase.Strict
  | .body, phrase => phrase.Loose

/-- What a token read in a role is: a word that is taken as written is that word, all else is checked. -/
def FitsRole (role : Role) (phrase : Phrase) : Prop :=
  (role = .verbatim ∧ ∃ text, phrase = .word .verbatim text) ∨ phrase.Strict

theorem FitsRole.word (role : Role) (text : Text) : FitsRole role (.word role text) := by
  cases role with
  | verbatim => exact Or.inl ⟨rfl, text, rfl⟩
  | head => exact Or.inr (show Role.head ≠ .verbatim by decide)
  | argument => exact Or.inr (show Role.argument ≠ .verbatim by decide)

theorem fitsPlace_of_strict {phrase : Phrase} (h : phrase.Strict) (place : Place) :
    FitsPlace place phrase := by
  cases place with
  | expression => exact h
  | body => exact h.loose

theorem fitsPlace_first {place : Place} {phrase : Phrase} (h : FitsRole place.first phrase) :
    FitsPlace place phrase := by
  rcases h with ⟨hrole, text, rfl⟩ | h
  · cases place with
    | expression => cases hrole
    | body => exact trivial
  · exact fitsPlace_of_strict h place

theorem fitsPlace_apply {place : Place} {function argument : Phrase}
    (hfunction : FitsPlace place function) (hargument : FitsRole place.later argument) :
    FitsPlace place (.apply function argument) := by
  cases place with
  | expression => exact ⟨hfunction, hargument.resolve_left (fun h => by cases h.1)⟩
  | body => exact ⟨hfunction, hargument.imp_left And.right⟩

theorem fitsPlace_foldl {place : Place} : ∀ {arguments : List Phrase} {function : Phrase},
    FitsPlace place function → (∀ argument ∈ arguments, FitsRole place.later argument) →
      FitsPlace place (arguments.foldl .apply function)
  | [], _, hfunction, _ => hfunction
  | argument :: arguments, function, hfunction, harguments => by
    have happly := fitsPlace_apply hfunction (harguments argument List.mem_cons_self)
    rw [List.foldl_cons]
    exact fitsPlace_foldl happly (fun other hother => harguments other (List.mem_cons_of_mem _ hother))

/-- A literal has a parameter, so its body is under an abstraction. -/
theorem strict_foldr {params : Text} {body : Phrase} (hparams : params ≠ []) (hbody : body.Loose) :
    (params.foldr lambda body).Strict := by
  obtain ⟨param, rest, rfl⟩ := List.exists_cons_of_ne_nil hparams
  have hloose : ∀ letters : Text, (letters.foldr lambda body).Loose := by
    intro letters
    induction letters with
    | nil => exact hbody
    | cons letter letters ih => exact ih
  exact hloose rest

/-- Reading gives every word the role of its place. -/
theorem fits_read :
    (∀ (place : Place) (text : Text), FitsPlace place (read place text)) ∧
      (∀ (role : Role) (token : Token), FitsRole role (readToken role token)) ∧
      ∀ rest : Text, (readLiteral rest).Strict := by
  refine read.mutual_induct _ _ _ ?_ ?_ ?_ ?_ ?_ ?_ ?_ ?_ ?_ ?_
  · intro place text rest htrim ih
    rw [read_of_dollar htrim]
    exact fitsPlace_of_strict ih place
  · intro place text inside hdollar hunwrap ih
    rw [read_of_unwrap hdollar hunwrap]
    exact ih
  · intro place text error hdollar hunwrap htokens
    rw [read_of_error hdollar hunwrap htokens]
    exact fitsPlace_of_strict (strict_fault _) place
  · intro place text hdollar hunwrap htokens
    rw [read_of_nil hdollar hunwrap htokens]
    exact fitsPlace_of_strict (strict_fault _) place
  · intro place text first later hdollar hunwrap htokens ihfirst ihlater
    rw [read_of_tokens hdollar hunwrap htokens]
    refine fitsPlace_foldl (fitsPlace_first ihfirst) (fun argument hargument => ?_)
    obtain ⟨token, htoken, rfl⟩ := List.mem_map.1 hargument
    exact ihlater ⟨token, htoken⟩
  · intro role token hkind ih
    rw [readToken_of_group hkind]
    exact Or.inr ih
  · intro role token hkind ih
    rw [readToken_of_lambda hkind]
    exact Or.inr ih
  · intro role token hkind
    rw [readToken_of_word hkind]
    exact .word role token.text
  · intro rest error hread
    rw [readLiteral_of_error hread]
    exact trivial
  · intro rest literal hread ih
    rw [readLiteral_of_ok hread]
    exact strict_foldr (Literal.params_ne_nil hread) ih

/-! ### Looking the words up -/

theorem scoped_word {definitions : Definitions} {role : Role} {text : Text} {term : Term}
    (h : role.resolve definitions text = .ok term) :
    (role = .verbatim ∧ term.isRef) ∨ term.Scoped definitions.keys := by
  rw [Role.resolve] at h
  cases hletter : letter? text with
  | some name =>
    rw [hletter] at h
    cases h
    exact Or.inr trivial
  | none =>
    rw [hletter] at h
    obtain ⟨error, -, hrefer⟩ := role.exists_refer text
    rw [hrefer] at h
    by_cases hknown : role = .verbatim ∨ text ∈ definitions.keys
    · rw [if_pos hknown] at h
      cases h
      rcases hknown with hrole | hmem
      · exact Or.inl ⟨hrole, rfl⟩
      · exact Or.inr hmem
    · rw [if_neg hknown] at h
      cases h

/-- The names of a phrase, once looked up, are in scope. -/
theorem scoped_resolve {definitions : Definitions} (phrase : Phrase) : ∀ {term : Term},
    phrase.resolve definitions = .ok term →
      (phrase.Strict → term.Scoped definitions.keys) ∧
        (phrase.Loose → term.ScopedBody definitions.keys) := by
  induction phrase with
  | word role text =>
    intro term h
    rcases scoped_word h with ⟨hrole, href⟩ | hscoped
    · refine ⟨fun hstrict => absurd hrole hstrict, fun _ => ?_⟩
      cases term with
      | ref name => exact trivial
      | _ => cases href
    · exact ⟨fun _ => hscoped, fun _ => hscoped.body⟩
  | lambda param body ih =>
    intro term h
    obtain ⟨inner, hbody, rfl⟩ := of_resolve_lambda h
    exact ⟨(ih hbody).2, (ih hbody).2⟩
  | apply function argument ihf iha =>
    intro term h
    obtain ⟨f, a, hfunction, hargument, rfl⟩ := of_resolve_apply h
    refine ⟨fun hstrict => ⟨(ihf hfunction).1 hstrict.1, (iha hargument).1 hstrict.2⟩, ?_⟩
    rintro ⟨hloose, ⟨text, rfl⟩ | hstrict⟩
    · refine ⟨(ihf hfunction).2 hloose, ?_⟩
      exact (scoped_word hargument).imp_left And.right
    · exact ⟨(ihf hfunction).2 hloose, Or.inr ((iha hargument).1 hstrict)⟩
  | fault error =>
    intro term h
    cases h

end Phrase

/-- A term that has been parsed is in scope of the definitions. -/
theorem Term.scoped_of_parse {definitions : Definitions} {text : Text} {term : Term}
    (h : Term.parse definitions text = .ok term) : term.Scoped definitions.keys :=
  (Phrase.scoped_resolve _ h).1 (Phrase.fits_read.1 .expression text)

/-! ### The lines of a program -/

/-- The names that lines define. -/
def CodeLine.definedNames (lines : List Text) : List Text :=
  lines.filterMap fun line => (Directive.parse (parts line).1).definedName?

/-- Behind lines that compile, the names known are those known before and those that the lines define. -/
theorem Pass.mem_keys_ofLines : ∀ {lines : List Text} {number : Nat} {definitions : Definitions}
    {done : List Program.Line}, (ofLines number lines definitions).output = .ok done → ∀ name,
      name ∈ (ofLines number lines definitions).definitions.keys ↔
        name ∈ definitions.keys ∨ name ∈ CodeLine.definedNames lines
  | [], _, _, _, _, _ => ⟨Or.inl, fun h => h.resolve_right List.not_mem_nil⟩
  | line :: rest, number, definitions, done, h, name => by
    obtain ⟨compiled, more, hline, hrest, -⟩ := of_output_cons h
    rw [definitions_ofLines_cons hline, mem_keys_ofLines hrest, (Directive.effect_of_compile hline).known,
      or_assoc, CodeLine.definedNames, CodeLine.definedNames, List.filterMap_cons]
    cases (Directive.parse (CodeLine.parts line).1).definedName? <;> simp [eq_comm]

/-- CORRECT: a line that a program's run gets past uses only names that the lines before it define, but for
    the spines of bodies. It makes no difference whether a later line fails. -/
theorem Session.scoped_compileProgram (date : Date) (program : Text) (index : Nat)
    (line code expression : Text) (hline : (Text.lines program)[index]? = some line)
    (hcode : CodeLine.IsCode line code)
    (hexpression : (Directive.parse (Text.trim code)).expression? = some expression)
    (hrun : ∀ number cause, ((start date).compileProgram program).program = .error (.onLine number cause) →
      index + 1 < number) :
    let before := ((start date).compileProgram (Text.firstLines index program)).session
    let names := CodeLine.definedNames ((Text.lines program).take index)
    (∀ name, name ∈ before.definitions.keys ↔ name ∈ names) ∧
    (∃ result, before.compile (Directive.parse (Text.trim code)) = .ok result) ∧
    ∃ term, Term.parse before.definitions expression = .ok term ∧ term.Scoped names ∧
      ∀ path name, term.at? path = some (.ref name) →
        (Term.Step.body ∉ path → name ∈ names) ∧ (name ∉ names → Term.OnBodySpine path) := by
  intro before names
  have hfails : ∀ number cause, (Pass.ofLines 0 (Text.lines program) Table.empty).output =
      .error (.onLine number cause) → index + 1 < number :=
    fun number cause h => hrun number cause (program_eq_error_iff.2 h)
  obtain ⟨done, compiled, hdone, hcompiled⟩ := Pass.exists_compiled_of_failure_behind hline hfails
  have hbefore : before.definitions =
      (Pass.ofLines 0 ((Text.lines program).take index) Table.empty).definitions := by
    rw [← Pass.ofProgram_firstLines]
    exact congrArg Session.definitions (session_eq_pass (start date) (Text.firstLines index program))
  rw [← hbefore, ← hcode.trim_eq] at hcompiled
  have hknown : ∀ name, name ∈ before.definitions.keys ↔ name ∈ names := by
    intro name
    rw [hbefore, Pass.mem_keys_ofLines hdone]
    exact ⟨fun h => h.resolve_left List.not_mem_nil, Or.inr⟩
  obtain ⟨term, hparse⟩ := (Directive.effect_of_compile hcompiled).parsed expression hexpression
  have hscoped : term.Scoped names :=
    (Term.scoped_mono (fun name => (hknown name).1) term).1 (Term.scoped_of_parse hparse)
  refine ⟨hknown, exists_compile_eq_ok_iff.2 ⟨compiled, hcompiled⟩, term, hparse, hscoped, ?_⟩
  intro path name hat
  exact ⟨hscoped.mem_of_at? hat, fun hname => (Term.Scoped.onBodySpine hname term).1 path hscoped hat⟩

/-- The second line uses `A` from the first, and `L` in a body without a definition; the third fails. -/
theorem Session.scoped_compileProgram_before_failure :
    ((start ⟨2025, .february, 24⟩).compileProgram "A:=$x.x\n#A $y.L//c\n?".toList).program =
      .error (.onLine 3 (.emptyExpression [])) ∧
    ∃ term, Term.parse ⟨[("A".toList, "(x) => x".toList)]⟩ "A $y.L".toList = .ok term ∧
      term.Scoped ["A".toList] ∧
      ∀ path name, term.at? path = some (.ref name) →
        (Term.Step.body ∉ path → name ∈ ["A".toList]) ∧
        (name ∉ ["A".toList] → Term.OnBodySpine path) := by
  have hfails : ((start ⟨2025, .february, 24⟩).compileProgram "A:=$x.x\n#A $y.L//c\n?".toList).program =
      .error (.onLine 3 (.emptyExpression [])) := by cbv
  refine ⟨hfails, ?_⟩
  obtain ⟨code, hcode, hparts⟩ := CodeLine.exists_isCode "#A $y.L//c".toList
  have hexpression : (Directive.parse (Text.trim code)).expression? = some "A $y.L".toList := by
    rw [← hparts]
    decide
  obtain ⟨-, -, hscoped⟩ := scoped_compileProgram ⟨2025, .february, 24⟩ "A:=$x.x\n#A $y.L//c\n?".toList 1
    "#A $y.L//c".toList code "A $y.L".toList (by decide) hcode hexpression (by
      intro number cause h
      rw [hfails] at h
      cases h
      decide)
  have hbefore : ((start ⟨2025, .february, 24⟩).compileProgram
      (Text.firstLines 1 "A:=$x.x\n#A $y.L//c\n?".toList)).session.definitions =
        ⟨[("A".toList, "(x) => x".toList)]⟩ := by cbv
  have hnames : CodeLine.definedNames ((Text.lines "A:=$x.x\n#A $y.L//c\n?".toList).take 1) =
      ["A".toList] := by cbv
  rw [hbefore, hnames] at hscoped
  exact hscoped

end LambdaArrow
