import LambdaArrow.Proofs.Level
import LambdaArrow.Proofs.Literals
import LambdaArrow.Proofs.Trimming
import LambdaArrow.Term.Parser

/-! What the readers do with each kind of text, as equations: a token by its kind, a literal by what
    its parameters and body are, and a spine token by token from the left. Outer parentheses are found
    by the level: a text that is balanced before its end has none. The three parsers are the reader at one
    of its two places, with the names looked up. -/

namespace LambdaArrow

/-! ### Outer parentheses -/

theorem unwrap?_of_head {text : Text} (h : text.head? ≠ some '(') : unwrap? text = none := by
  cases text with
  | nil => rfl
  | cons c cs =>
    rw [unwrap?, if_neg]
    rintro ⟨rfl, -⟩
    exact h rfl

/-- A text that is balanced before its end has no pair of parentheses around the whole. -/
theorem unwrap?_append {first rest : Text} (hbalanced : Balance.Balanced first) (hfirst : first ≠ [])
    (hrest : rest ≠ []) : unwrap? (first ++ rest) = none := by
  obtain ⟨c, cs, rfl⟩ := List.exists_cons_of_ne_nil hfirst
  rw [List.cons_append, unwrap?, if_neg]
  rintro ⟨rfl, -, hopen⟩
  rw [List.dropLast_append_of_ne_nil hrest, Balance.staysOpen_of_balanced hbalanced] at hopen
  cases hopen

theorem Place.unwrap?_eq_none {text : Text} (h : LambdaArrow.unwrap? text = none) (place : Place) :
    place.unwrap? text = none := by
  cases place with
  | expression => exact h
  | body => rfl

namespace Phrase

/-! ### Tokens and literals -/

theorem readToken_of_group {token : Token} (h : token.kind = .group) (role : Role) :
    readToken role token = read .expression token.inside := by
  rw [readToken]
  split <;> simp_all

theorem readToken_of_lambda {token : Token} (h : token.kind = .lambda) (role : Role) :
    readToken role token = readLiteral token.text.tail := by
  rw [readToken]
  split <;> simp_all

theorem readToken_of_word {token : Token} (h : token.kind = .word) (role : Role) :
    readToken role token = .word role token.text := by
  rw [readToken]
  split <;> simp_all

theorem readLiteral_of_ok {rest : Text} {literal : Literal} (h : Literal.read rest = .ok literal) :
    readLiteral rest = literal.params.foldr .lambda (read .body literal.body) := by
  rw [readLiteral]
  split <;> simp_all

theorem readLiteral_of_error {rest : Text} {error : Error} (h : Literal.read rest = .error error) :
    readLiteral rest = .fault error := by
  rw [readLiteral]
  split <;> simp_all

/-- A letter in front of a literal is one abstraction around it. -/
theorem readLiteral_cons {param : Char} {rest : Text} {literal : Literal} (hparam : param.isLower)
    (h : Literal.read rest = .ok literal) :
    readLiteral (param :: rest) = .lambda param (readLiteral rest) := by
  rw [readLiteral_of_ok (Literal.read_cons hparam h), readLiteral_of_ok h]
  rfl

/-! ### Blanks around a text -/

theorem read_trim (place : Place) (text : Text) : read place text.trim = read place text := by
  have htrim : text.trim.trim = text.trim := (Text.trimmed_trim text).trim_eq
  by_cases hstart : ∃ rest, text.trim = '$' :: rest
  · obtain ⟨rest, hrest⟩ := hstart
    rw [read_of_dollar hrest, read_of_dollar (htrim.trans hrest)]
  · have hdollar : ∀ rest, text.trim ≠ '$' :: rest := fun rest hrest => hstart ⟨rest, hrest⟩
    have hdollar' : ∀ rest, text.trim.trim ≠ '$' :: rest := htrim.symm ▸ hdollar
    rcases hunwrap : place.unwrap? text.trim with _ | inside
    · have hunwrap' : place.unwrap? text.trim.trim = none := htrim.symm ▸ hunwrap
      rcases htokens : Token.ofText text.trim with error | _ | ⟨first, later⟩
      · rw [read_of_error hdollar hunwrap htokens, read_of_error hdollar' hunwrap' (htrim.symm ▸ htokens)]
      · rw [read_of_nil hdollar hunwrap htokens, read_of_nil hdollar' hunwrap' (htrim.symm ▸ htokens), htrim]
      · rw [read_of_tokens hdollar hunwrap htokens, read_of_tokens hdollar' hunwrap' (htrim.symm ▸ htokens)]
    · rw [read_of_unwrap hdollar hunwrap, read_of_unwrap hdollar' (htrim.symm ▸ hunwrap)]

/-! ### Spines -/

/-- The last token is the argument of all before it. -/
theorem spine_concat (place : Place) (first last : Token) (later : List Token) :
    spine place first (later ++ [last]) =
      .apply (spine place first later) (readToken place.later last) := by
  rw [spine, List.map_append, List.foldl_append]
  rfl

/-! ### Looking up names -/

variable {definitions : Definitions}

theorem resolve_apply_ok {function argument : Phrase} {f a : Term}
    (hfunction : function.resolve definitions = .ok f)
    (hargument : argument.resolve definitions = .ok a) :
    (apply function argument).resolve definitions = .ok (.app f a) := by
  rw [resolve, hfunction, hargument]
  rfl

theorem resolve_lambda_ok {param : Char} {body : Phrase} {b : Term} (hparam : param.isLower)
    (hbody : body.resolve definitions = .ok b) :
    (lambda param body).resolve definitions = .ok (.abs param b) := by
  rw [resolve, hbody]
  show (if param.isLower then _ else _) = _
  rw [if_pos hparam]

theorem of_resolve_apply {function argument : Phrase} {term : Term}
    (h : (apply function argument).resolve definitions = .ok term) :
    ∃ f a, function.resolve definitions = .ok f ∧ argument.resolve definitions = .ok a ∧
      term = .app f a := by
  rw [resolve] at h
  cases hfunction : function.resolve definitions with
  | error error => rw [hfunction] at h; cases h
  | ok f =>
    cases hargument : argument.resolve definitions with
    | error error => rw [hfunction, hargument] at h; cases h
    | ok a =>
      rw [hfunction, hargument] at h
      exact ⟨f, a, rfl, rfl, (Except.ok.inj h).symm⟩

theorem of_resolve_lambda {param : Char} {body : Phrase} {term : Term}
    (h : (lambda param body).resolve definitions = .ok term) :
    ∃ b, body.resolve definitions = .ok b ∧ term = .abs param b := by
  rw [resolve] at h
  cases hbody : body.resolve definitions with
  | error error => rw [hbody] at h; cases h
  | ok b =>
    rw [hbody] at h
    change (if param.isLower then _ else _) = _ at h
    split at h
    · exact ⟨b, rfl, (Except.ok.inj h).symm⟩
    · cases h

end Phrase

/-! ### The three parsers -/

namespace Term

/-- The three ways to parse a text: as an expression, as a literal, and as a lambda body. -/
def parsers : List (Definitions → Text → Except Error Term) := [parse, parseLiteral, parseBody]

/-- A text that is no literal is an expression, and a literal is one too. -/
theorem parseLiteral_eq_parse (definitions : Definitions) (text : Text) :
    parseLiteral definitions text = parse definitions text := by
  unfold parseLiteral
  split
  · rename_i rest hrest
    rw [parse, Phrase.read_of_dollar hrest]
  · rw [parse, parse, Phrase.read_trim]

/-- Each parser reads the text at some place and looks its names up. -/
theorem exists_place {parser : Definitions → Text → Except Error Term} (h : parser ∈ parsers) :
    ∃ place : Place, ∀ definitions text, parser definitions text =
      (Phrase.read place text).resolve definitions := by
  simp only [parsers, List.mem_cons, List.not_mem_nil, or_false] at h
  rcases h with rfl | rfl | rfl
  · exact ⟨.expression, fun _ _ => rfl⟩
  · exact ⟨.expression, parseLiteral_eq_parse⟩
  · exact ⟨.body, fun _ _ => rfl⟩

end Term

end LambdaArrow
