import LambdaArrow.Literal
import LambdaArrow.Phrase
import LambdaArrow.Token

/-! Reading the shape of an expression. A text that starts with a dollar sign is one literal to its
    end; an expression in parentheses is what is inside them; anything else is its tokens, each
    applied to the next from the left. Every step reads a shorter text, or hands the same text from
    an expression to its token or from a token to its literal. -/

namespace LambdaArrow

/-- Where a text stands: in an expression, whose names must be defined, or in a lambda body. -/
inductive Place where
  | expression
  | body
  deriving DecidableEq

/-- The role of a first word. -/
def Place.first : Place → Role
  | .expression => .head
  | .body => .verbatim

/-- The role of a later word. -/
def Place.later : Place → Role
  | .expression => .argument
  | .body => .verbatim

/-- Whether a parenthesis opened before a text is still open behind it, with `depth` more opened
    since. -/
def staysOpen : Nat → Text → Bool
  | _, [] => true
  | depth, c :: cs =>
    if c = '(' then staysOpen (depth + 1) cs
    else if c = ')' then
      match depth with
      | 0 => false
      | depth + 1 => staysOpen depth cs
    else staysOpen depth cs

/-- The trimmed inside of a text whose first parenthesis is closed by its last character. -/
def unwrap? : Text → Option Text
  | [] => none
  | c :: cs =>
    if c = '(' ∧ cs.getLast? = some ')' ∧ staysOpen 0 cs.dropLast then
      some (Text.trim cs.dropLast)
    else none

/-- Only an expression has outer parentheses to take off; in a lambda body they are a group. -/
def Place.unwrap? : Place → Text → Option Text
  | .expression, text => LambdaArrow.unwrap? text
  | .body, _ => none

theorem length_unwrap?_lt {text inside : Text} (h : unwrap? text = some inside) :
    inside.length < text.length := by
  unfold unwrap? at h
  split at h
  · cases h
  · split at h
    · cases h
      rename_i cs _
      have := Text.length_trim_le cs.dropLast
      simp only [List.length_dropLast, List.length_cons] at this ⊢
      omega
    · cases h

theorem Place.length_unwrap?_lt {place : Place} {text inside : Text}
    (h : place.unwrap? text = some inside) : inside.length < text.length := by
  cases place with
  | expression => exact LambdaArrow.length_unwrap?_lt h
  | body => cases h

mutual

/-- Reads a text that stands at `place`. -/
def Phrase.read (place : Place) (text : Text) : Phrase :=
  match _htrim : text.trim with
  | '$' :: rest => Phrase.readLiteral rest
  | trimmed =>
    match _hunwrap : place.unwrap? trimmed with
    | some inside => Phrase.read place inside
    | none =>
      match _htokens : Token.ofText trimmed with
      | .error error => .fault error
      | .ok [] => .fault (.emptyExpression trimmed)
      | .ok (first :: later) =>
        (later.attach.map fun token => Phrase.readToken place.later token.1).foldl .apply
          (Phrase.readToken place.first first)
termination_by (text.length, 2)
decreasing_by
  all_goals have hlength := Text.length_trim_le text
  all_goals rw [_htrim] at hlength
  · simp only [List.length_cons] at hlength
    simp only [Prod.lex_def]
    omega
  · have := Place.length_unwrap?_lt _hunwrap
    simp only [Prod.lex_def]
    omega
  · have := Token.length_le_of_mem_ofText _htokens List.mem_cons_self
    simp only [Prod.lex_def]
    omega
  · have := Token.length_le_of_mem_ofText _htokens (List.mem_cons_of_mem _ token.2)
    simp only [Prod.lex_def]
    omega

/-- Reads a literal, from the text behind its dollar sign. -/
def Phrase.readLiteral (rest : Text) : Phrase :=
  match _hread : Literal.read rest with
  | .error error => .fault error
  | .ok literal => literal.params.foldr .lambda (Phrase.read .body literal.body)
termination_by (rest.length + 1, 0)
decreasing_by
  have := Literal.length_body_le _hread
  simp only [Prod.lex_def]
  omega

/-- Reads a token: the inside of a group, a literal, or a word in its role. -/
def Phrase.readToken (role : Role) (token : Token) : Phrase :=
  match _hkind : token.kind with
  | .group => Phrase.read .expression token.inside
  | .lambda => Phrase.readLiteral token.text.tail
  | .word => .word role token.text
termination_by (token.text.length, 1)
decreasing_by
  · have := Token.length_inside_lt _hkind
    simp only [Prod.lex_def]
    omega
  · have := Token.length_tail_lt _hkind
    simp only [Prod.lex_def]
    omega

end

/-! ### The readers, one step at a time -/

/-- Tokens read at a place, each applied to the next from the left. -/
def Phrase.spine (place : Place) (first : Token) (later : List Token) : Phrase :=
  (later.map (Phrase.readToken place.later)).foldl .apply (Phrase.readToken place.first first)

theorem Phrase.read_of_dollar {place : Place} {text rest : Text} (h : text.trim = '$' :: rest) :
    Phrase.read place text = Phrase.readLiteral rest := by
  rw [Phrase.read]
  split
  · simp_all
  · simp_all

theorem Phrase.read_of_unwrap {place : Place} {text inside : Text}
    (hdollar : ∀ rest, text.trim ≠ '$' :: rest) (h : place.unwrap? text.trim = some inside) :
    Phrase.read place text = Phrase.read place inside := by
  rw [Phrase.read]
  split
  · simp_all
  · split <;> simp_all

theorem Phrase.read_of_error {place : Place} {text : Text} {error : Error}
    (hdollar : ∀ rest, text.trim ≠ '$' :: rest) (hunwrap : place.unwrap? text.trim = none)
    (h : Token.ofText text.trim = .error error) : Phrase.read place text = .fault error := by
  rw [Phrase.read]
  split
  · simp_all
  · split
    · simp_all
    · split <;> simp_all

theorem Phrase.read_of_nil {place : Place} {text : Text}
    (hdollar : ∀ rest, text.trim ≠ '$' :: rest) (hunwrap : place.unwrap? text.trim = none)
    (h : Token.ofText text.trim = .ok []) :
    Phrase.read place text = .fault (.emptyExpression text.trim) := by
  rw [Phrase.read]
  split
  · simp_all
  · split
    · simp_all
    · split <;> simp_all

theorem Phrase.read_of_tokens {place : Place} {text : Text} {first : Token} {later : List Token}
    (hdollar : ∀ rest, text.trim ≠ '$' :: rest) (hunwrap : place.unwrap? text.trim = none)
    (h : Token.ofText text.trim = .ok (first :: later)) :
    Phrase.read place text = Phrase.spine place first later := by
  rw [Phrase.read]
  split
  · simp_all
  · split
    · simp_all
    · split
      · simp_all
      · simp_all
      · simp_all [Phrase.spine]

end LambdaArrow
