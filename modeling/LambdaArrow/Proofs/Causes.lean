import LambdaArrow.Proofs.Literals
import LambdaArrow.Proofs.Lookup
import LambdaArrow.Proofs.Reader
import LambdaArrow.Session

/-! What can go wrong when an expression is parsed: a parenthesis is not balanced, a literal is malformed,
    an expression is empty, or a name is not known. The parameters of a literal are letters from the
    start, and lines are not yet spoken of. -/

namespace LambdaArrow

/-- The failures of parsing. -/
inductive Error.OfParsing : Error → Prop where
  | unbalanced (text : Text) (fault : Balance.Fault) : OfParsing (.ofFault text fault)
  | malformed (expression reason : Text) : OfParsing (.malformedLambda expression reason)
  | empty (expression : Text) : OfParsing (.emptyExpression expression)
  | unknownName (name : Text) : OfParsing (.unknownName name)
  | unknownArgument (name : Text) : OfParsing (.unknownArgument name)

theorem Error.OfParsing.line?_eq {error : Error} (h : error.OfParsing) : error.line? = none := by
  cases h <;> rfl

theorem Token.ofParsing_of_ofText {text : Text} {error : Error} (h : ofText text = .error error) :
    error.OfParsing := by
  unfold ofText at h
  split at h
  · cases h
    exact .unbalanced _ _
  · cases h

namespace Literal

theorem ofParsing_of_read {rest : Text} {error : Error} (h : read rest = .error error) :
    error.OfParsing := by
  simp only [read] at h
  split at h
  · cases h
    exact .malformed _ _
  · split at h
    · cases h
      exact .malformed _ _
    · split at h
      · cases h
        exact .empty _
      · cases h

theorem isLower_of_mem_params {rest : Text} {literal : Literal} (h : read rest = .ok literal) :
    ∀ param ∈ literal.params, param.isLower := by
  obtain ⟨piece, pieces, -, -, -, -, rfl⟩ := of_read_eq_ok h
  intro param hparam
  obtain ⟨group, hgroup, hmem⟩ := List.mem_flatten.1 hparam
  exact isLower_of_isGroup (List.mem_takeWhile_imp hgroup) param hmem

end Literal

theorem Role.ofParsing_of_resolve {definitions : Definitions} {role : Role} {text : Text} {error : Error}
    (h : role.resolve definitions text = .error error) : error.OfParsing := by
  rw [resolve] at h
  cases hletter : letter? text with
  | some name => simp [hletter] at h
  | none =>
    obtain ⟨other, hother, hrefer⟩ := role.exists_refer text
    simp only [hletter, hrefer] at h
    split at h
    · cases h
    · cases h
      rcases hother with rfl | rfl
      · exact .unknownName text
      · exact .unknownArgument text

namespace Phrase

/-- Every parameter is a letter, and every fault is a failure of parsing. -/
def Regular : Phrase → Prop
  | .word _ _ => True
  | .lambda param body => param.isLower ∧ body.Regular
  | .apply function argument => function.Regular ∧ argument.Regular
  | .fault error => error.OfParsing

theorem Regular.foldl : ∀ {arguments : List Phrase} {function : Phrase}, function.Regular →
    (∀ argument ∈ arguments, argument.Regular) → (arguments.foldl apply function).Regular
  | [], _, hfunction, _ => hfunction
  | argument :: arguments, function, hfunction, harguments => by
    have happly : (apply function argument).Regular := ⟨hfunction, harguments argument List.mem_cons_self⟩
    exact happly.foldl fun other hother => harguments other (List.mem_cons_of_mem _ hother)

theorem Regular.foldr {body : Phrase} (hbody : body.Regular) : ∀ {params : Text},
    (∀ param ∈ params, param.isLower) → (params.foldr lambda body).Regular
  | [], _ => hbody
  | param :: _, hparams =>
    ⟨hparams param List.mem_cons_self,
      hbody.foldr fun other hother => hparams other (List.mem_cons_of_mem _ hother)⟩

theorem regular_read :
    (∀ (place : Place) (text : Text), (read place text).Regular) ∧
      (∀ (role : Role) (token : Token), (readToken role token).Regular) ∧
      ∀ rest : Text, (readLiteral rest).Regular := by
  refine read.mutual_induct _ _ _ ?_ ?_ ?_ ?_ ?_ ?_ ?_ ?_ ?_ ?_
  · intro place text rest htrim ih
    rwa [read_of_dollar htrim]
  · intro place text inside hdollar hunwrap ih
    rwa [read_of_unwrap hdollar hunwrap]
  · intro place text error hdollar hunwrap htokens
    rw [read_of_error hdollar hunwrap htokens]
    exact Token.ofParsing_of_ofText htokens
  · intro place text hdollar hunwrap htokens
    rw [read_of_nil hdollar hunwrap htokens]
    exact .empty _
  · intro place text first later hdollar hunwrap htokens ihfirst ihlater
    rw [read_of_tokens hdollar hunwrap htokens]
    refine ihfirst.foldl fun argument hargument => ?_
    obtain ⟨token, htoken, rfl⟩ := List.mem_map.1 hargument
    exact ihlater ⟨token, htoken⟩
  · intro role token hkind ih
    rwa [readToken_of_group hkind]
  · intro role token hkind ih
    rwa [readToken_of_lambda hkind]
  · intro role token hkind
    rw [readToken_of_word hkind]
    exact trivial
  · intro rest error hread
    rw [readLiteral_of_error hread]
    exact Literal.ofParsing_of_read hread
  · intro rest literal hread ih
    rw [readLiteral_of_ok hread]
    exact ih.foldr (Literal.isLower_of_mem_params hread)

/-- Looking names up in a regular phrase adds only failures at names. -/
theorem Regular.ofParsing_of_resolve {definitions : Definitions} {error : Error} (phrase : Phrase) :
    phrase.Regular → phrase.resolve definitions = .error error → error.OfParsing := by
  induction phrase with
  | word role text =>
    intro _ h
    exact Role.ofParsing_of_resolve h
  | lambda param body ih =>
    rintro ⟨hparam, hbody⟩ h
    rw [resolve] at h
    cases hresolve : body.resolve definitions with
    | error other => exact ih hbody (by rw [hresolve] at h ⊢; exact h)
    | ok term => simp [hresolve, hparam, bind, Except.bind] at h
  | apply function argument ihf iha =>
    rintro ⟨hfunction, hargument⟩ h
    rw [resolve] at h
    cases hf : function.resolve definitions with
    | error other => exact ihf hfunction (by rw [hf] at h ⊢; exact h)
    | ok f =>
      cases ha : argument.resolve definitions with
      | error other => exact iha hargument (by rw [hf, ha] at h; rw [ha]; exact h)
      | ok a => simp [hf, ha, bind, Except.bind, pure, Except.pure] at h
  | fault other =>
    intro hfault h
    cases h
    exact hfault

end Phrase

theorem Term.ofParsing_of_parse {definitions : Definitions} {text : Text} {error : Error}
    (h : parse definitions text = .error error) : error.OfParsing :=
  Phrase.Regular.ofParsing_of_resolve _ (Phrase.regular_read.1 .expression text) h

/-! ### Directives that fail -/

theorem Definitions.ofParsing_of_compile {definitions : Definitions} {expression : Text} {error : Error}
    (h : definitions.compile expression = .error error) : error.OfParsing := by
  unfold compile at h
  cases hparse : Term.parse definitions expression with
  | error other =>
    rw [hparse] at h
    cases h
    exact Term.ofParsing_of_parse hparse
  | ok term => simp [hparse, Except.map] at h

namespace Directive

variable {definitions : Definitions} {error : Error}

theorem ofParsing_of_compileStatement {before expression after : Text}
    (h : (compileStatement definitions before expression after).compiled = .error error) : error.OfParsing := by
  unfold compileStatement at h
  cases hbody : definitions.compile expression with
  | error other =>
    rw [hbody] at h
    cases h
    exact Definitions.ofParsing_of_compile hbody
  | ok body =>
    rw [hbody] at h
    cases h

theorem of_compileDefinition_eq_error {name expression : Text}
    (h : (compileDefinition definitions name expression).compiled = .error error) :
    error = .invalidDefinitionName name ∨ error.OfParsing := by
  unfold compileDefinition at h
  cases hname : isDefinable name with
  | false =>
    rw [hname] at h
    exact Or.inl (Except.error.inj h).symm
  | true =>
    cases hbody : definitions.compile expression with
    | error other =>
      rw [hname, hbody] at h
      cases h
      exact Or.inr (Definitions.ofParsing_of_compile hbody)
    | ok body =>
      rw [hname, hbody] at h
      cases h

/-- A directive fails without telling a line. -/
theorem line?_of_compile {directive : Directive} (h : directive.compile definitions = .error error) :
    error.line? = none := by
  cases directive with
  | define name expression =>
    rcases of_compileDefinition_eq_error h with rfl | hparsing
    · rfl
    · exact hparsing.line?_eq
  | number expression => exact (ofParsing_of_compileStatement h).line?_eq
  | boolean expression => exact (ofParsing_of_compileStatement h).line?_eq
  | source expression => exact (ofParsing_of_compileStatement h).line?_eq
  | compute expression => exact (ofParsing_of_compileStatement h).line?_eq
  | label text => cases h
  | nothing => cases h

end Directive

end LambdaArrow
