import LambdaArrow.Proofs.Parentheses

/-! Outer parentheses need no rule of their own. A text in parentheses is one group, and a group is read
    from its inside, so a plain reader that knows only tokens comes to the same. The two differ on texts
    that are not balanced: `((a)` is unwrapped, although its first parenthesis is never closed, and has no
    tokens. But then what is inside is not balanced either, and both readers fail:

        (f a)     ──▶ f a         one group, unwrapped
        (f) (a)   ──▶ `(f)` `(a)` two groups, not unwrapped
        ((a)      ──▶ (a          fails, like the plain reader -/

namespace LambdaArrow

open Balance

/-! ### The plain reader -/

mutual

/-- Reads a text that stands at `place`, through its tokens even when it is in parentheses. -/
def Phrase.readPlain (place : Place) (text : Text) : Phrase :=
  match _htrim : text.trim with
  | '$' :: rest => Phrase.readPlainLiteral rest
  | trimmed =>
    match _htokens : Token.ofText trimmed with
    | .error error => .fault error
    | .ok [] => .fault (.emptyExpression trimmed)
    | .ok (first :: later) =>
      (later.attach.map fun token => Phrase.readPlainToken place.later token.1).foldl .apply
        (Phrase.readPlainToken place.first first)
termination_by (text.length, 2)
decreasing_by
  all_goals have hlength := Text.length_trim_le text
  all_goals rw [_htrim] at hlength
  · simp only [List.length_cons] at hlength
    simp only [Prod.lex_def]
    omega
  · have := Token.length_le_of_mem_ofText _htokens List.mem_cons_self
    simp only [Prod.lex_def]
    omega
  · have := Token.length_le_of_mem_ofText _htokens (List.mem_cons_of_mem _ token.2)
    simp only [Prod.lex_def]
    omega

/-- Reads a literal, from the text behind its dollar sign. -/
def Phrase.readPlainLiteral (rest : Text) : Phrase :=
  match _hread : Literal.read rest with
  | .error error => .fault error
  | .ok literal => literal.params.foldr .lambda (Phrase.readPlain .body literal.body)
termination_by (rest.length + 1, 0)
decreasing_by
  have := Literal.length_body_le _hread
  simp only [Prod.lex_def]
  omega

/-- Reads a token: the inside of a group, a literal, or a word in its role. -/
def Phrase.readPlainToken (role : Role) (token : Token) : Phrase :=
  match _hkind : token.kind with
  | .group => Phrase.readPlain .expression token.inside
  | .lambda => Phrase.readPlainLiteral token.text.tail
  | .word => .word role token.text
termination_by (token.text.length, 1)
decreasing_by
  · have := Token.length_inside_lt _hkind
    simp only [Prod.lex_def]
    omega
  · have := Token.length_tail_lt _hkind
    simp only [Prod.lex_def]
    omega

end

/-- Parses an expression with the plain reader. -/
def Term.parsePlain (definitions : Definitions) (text : Text) : Except Error Term :=
  (Phrase.readPlain .expression text).resolve definitions

namespace Phrase

/-! ### The plain reader, one step at a time -/

/-- Tokens read plainly at a place, each applied to the next from the left. -/
def plainSpine (place : Place) (first : Token) (later : List Token) : Phrase :=
  (later.map (readPlainToken place.later)).foldl .apply (readPlainToken place.first first)

theorem readPlain_of_dollar {place : Place} {text rest : Text} (h : text.trim = '$' :: rest) :
    readPlain place text = readPlainLiteral rest := by
  rw [readPlain]
  split <;> simp_all

theorem readPlain_of_error {place : Place} {text : Text} {error : Error}
    (hdollar : ∀ rest, text.trim ≠ '$' :: rest) (h : Token.ofText text.trim = .error error) :
    readPlain place text = .fault error := by
  rw [readPlain]
  split
  · simp_all
  · split <;> simp_all

theorem readPlain_of_nil {place : Place} {text : Text} (hdollar : ∀ rest, text.trim ≠ '$' :: rest)
    (h : Token.ofText text.trim = .ok []) :
    readPlain place text = .fault (.emptyExpression text.trim) := by
  rw [readPlain]
  split
  · simp_all
  · split <;> simp_all

theorem readPlain_of_tokens {place : Place} {text : Text} {first : Token} {later : List Token}
    (hdollar : ∀ rest, text.trim ≠ '$' :: rest) (h : Token.ofText text.trim = .ok (first :: later)) :
    readPlain place text = plainSpine place first later := by
  rw [readPlain]
  split
  · simp_all
  · split
    · simp_all
    · simp_all
    · simp_all [plainSpine]

theorem readPlainToken_of_group {token : Token} (h : token.kind = .group) (role : Role) :
    readPlainToken role token = readPlain .expression token.inside := by
  rw [readPlainToken]
  split <;> simp_all

theorem readPlainToken_of_lambda {token : Token} (h : token.kind = .lambda) (role : Role) :
    readPlainToken role token = readPlainLiteral token.text.tail := by
  rw [readPlainToken]
  split <;> simp_all

theorem readPlainToken_of_word {token : Token} (h : token.kind = .word) (role : Role) :
    readPlainToken role token = .word role token.text := by
  rw [readPlainToken]
  split <;> simp_all

theorem readPlainLiteral_of_ok {rest : Text} {literal : Literal} (h : Literal.read rest = .ok literal) :
    readPlainLiteral rest = literal.params.foldr .lambda (readPlain .body literal.body) := by
  rw [readPlainLiteral]
  split <;> simp_all

theorem readPlainLiteral_of_error {rest : Text} {error : Error} (h : Literal.read rest = .error error) :
    readPlainLiteral rest = .fault error := by
  rw [readPlainLiteral]
  split <;> simp_all

/-! ### Phrases that stand for the same terms -/

/-- With any definitions, one stands for a term exactly when the other does. -/
def SameTerms (first second : Phrase) : Prop :=
  ∀ definitions term, first.resolve definitions = .ok term ↔ second.resolve definitions = .ok term

theorem SameTerms.of_eq {first second : Phrase} (h : first = second) : SameTerms first second := by
  intro definitions term
  rw [h]

theorem SameTerms.symm {first second : Phrase} (h : SameTerms first second) : SameTerms second first :=
  fun definitions term => (h definitions term).symm

theorem SameTerms.apply {f f' a a' : Phrase} (hf : SameTerms f f') (ha : SameTerms a a') :
    SameTerms (.apply f a) (.apply f' a') := by
  -- one direction for any four phrases, so that the other is the same with the sides exchanged
  have honly : ∀ {f f' a a' : Phrase}, SameTerms f f' → SameTerms a a' → ∀ definitions term,
      (Phrase.apply f a).resolve definitions = .ok term →
        (Phrase.apply f' a').resolve definitions = .ok term := by
    intro f f' a a' hf ha definitions term h
    obtain ⟨function, argument, hfunction, hargument, rfl⟩ := of_resolve_apply h
    exact resolve_apply_ok ((hf _ _).1 hfunction) ((ha _ _).1 hargument)
  exact fun definitions term => ⟨honly hf ha definitions term, honly hf.symm ha.symm definitions term⟩

theorem SameTerms.lambda {body body' : Phrase} (h : SameTerms body body') (param : Char) :
    SameTerms (.lambda param body) (.lambda param body') := by
  have honly : ∀ {body body' : Phrase}, SameTerms body body' → ∀ definitions term,
      (Phrase.lambda param body).resolve definitions = .ok term →
        (Phrase.lambda param body').resolve definitions = .ok term := by
    intro body body' h definitions term hterm
    have hparam := isLower_of_resolve_lambda hterm
    obtain ⟨inner, hinner, rfl⟩ := of_resolve_lambda hterm
    exact resolve_lambda_ok hparam ((h _ _).1 hinner)
  exact fun definitions term => ⟨honly h definitions term, honly h.symm definitions term⟩

theorem SameTerms.foldl {read read' : Token → Phrase} : ∀ {tokens : List Token} {f f' : Phrase},
    SameTerms f f' → (∀ token ∈ tokens, SameTerms (read token) (read' token)) →
      SameTerms ((tokens.map read).foldl .apply f) ((tokens.map read').foldl .apply f')
  | [], _, _, hf, _ => hf
  | token :: _, _, _, hf, htokens =>
    (hf.apply (htokens token List.mem_cons_self)).foldl fun other hother =>
      htokens other (List.mem_cons_of_mem _ hother)

theorem SameTerms.foldr {body body' : Phrase} (h : SameTerms body body') (params : Text) :
    SameTerms (params.foldr .lambda body) (params.foldr .lambda body') := by
  induction params with
  | nil => exact h
  | cons param params ih => exact ih.lambda param

end Phrase

/-! ### Texts in parentheses are single groups -/

namespace Token

/-- The text that a group stands for, by what it has inside. -/
theorem ofText_parens {inner : Text} (h : Balanced inner) :
    ofText (Term.parens inner) = .ok [⟨Term.parens inner, 0⟩] := by
  rw [ofText_of_balanced h.parens, split_eq, (Solid.parens h).splitFrom]

/-- A group in front of a text is its first token. -/
theorem exists_split_parens_append {inner : Text} (h : Balanced inner) (rest : Text) :
    ∃ next, split (Term.parens inner ++ rest) = ⟨Term.parens inner, 0⟩ :: splitFrom next rest := by
  obtain ⟨next, hnext⟩ := pieces_inside inner (')' :: rest) 0 (0 + '('.utf8Size) 0 h
  refine ⟨next + ')'.utf8Size, ?_⟩
  have hpieces : pieces 0 0 (Term.parens inner ++ rest) =
      (Term.parens inner, splitFrom (next + ')'.utf8Size) rest) := by
    rw [Term.parens, List.append_assoc, List.cons_append, pieces_opening, List.singleton_append, hnext,
      pieces_closing_outer]
    rfl
  rw [split_eq, splitFrom, hpieces]
  exact if_neg (List.cons_ne_nil _ _)

/-- A text that is one group starts with its parenthesis. -/
theorem exists_cons_of_split_eq_group {text : Text} {token : Token} (htrimmed : Text.Trimmed text)
    (hbalanced : Balanced text) (hsplit : split text = [token]) (hkind : token.kind = .group) :
    ∃ cs, text = '(' :: cs := by
  cases text with
  | nil => cases hsplit
  | cons c cs =>
    by_cases hopening : c = '('
    · exact ⟨cs, by rw [hopening]⟩
    · -- then the token starts with another character
      exfalso
      have hclosing : c ≠ ')' := by
        rintro rfl
        simp [Balance.Balanced] at hbalanced
      have hblank : ¬(Text.isBlank c ∧ 0 = 0) := by simp [htrimmed.1 c rfl]
      rw [split_eq, splitFrom, pieces_other hopening hclosing hblank, push,
        if_neg (List.cons_ne_nil _ _)] at hsplit
      obtain ⟨rfl, -⟩ := List.cons.inj hsplit
      simp [kind, hopening] at hkind
      split at hkind <;> cases hkind

/-- A trimmed text with tokens is unwrapped exactly when its only token is a group, to what is inside. -/
theorem unwrap?_eq_some_iff_group {text : Text} {tokens : List Token} (htrimmed : Text.Trimmed text)
    (htokens : ofText text = .ok tokens) (inside : Text) : unwrap? text = some inside ↔
      ∃ token, tokens = [token] ∧ token.kind = .group ∧ inside = token.inside := by
  obtain ⟨hbalanced, rfl⟩ := balanced_of_ofText htokens
  constructor
  · intro h
    obtain ⟨inner, rfl, hopen, rfl⟩ := unwrap?_eq_some_iff.1 h
    have hinner := (balanced_parens_iff hopen).1 hbalanced
    refine ⟨⟨Term.parens inner, 0⟩, ?_, kind_parens _ _, (inside_parens _ _).symm⟩
    rw [split_eq, (Solid.parens hinner).splitFrom]
  · rintro ⟨token, hsplit, hkind, rfl⟩
    obtain ⟨cs, rfl⟩ := exists_cons_of_split_eq_group htrimmed hbalanced hsplit hkind
    have hcs : level 1 cs = some 0 := by rwa [Balance.Balanced, level_opening] at hbalanced
    obtain ⟨inner, rest, rfl, hinner⟩ := exists_closing_of_level_succ hcs le_rfl
    have htext : '(' :: (inner ++ ')' :: rest) = Term.parens inner ++ rest := by simp [Term.parens]
    obtain ⟨next, hnext⟩ := exists_split_parens_append hinner rest
    rw [htext, hnext] at hsplit
    obtain ⟨rfl, hrest⟩ := List.cons.inj hsplit
    -- nothing but blanks could be behind the group, and a trimmed text ends with none
    have hnil : rest = [] := by
      rcases List.eq_nil_or_concat rest with hnil | ⟨front, last, rfl⟩
      · exact hnil
      · have hblank := isBlank_of_splitFrom_eq_nil hrest last (by simp)
        have hlast := htrimmed.2 last (by simp [List.getLast?_cons])
        rw [hblank] at hlast
        cases hlast
    subst hnil
    rw [htext, List.append_nil, inside_parens]
    exact unwrap?_eq_some_iff.2 ⟨inner, rfl, by rw [hinner]; rfl, rfl⟩

-- A text that is not balanced has no tokens, and may be unwrapped all the same.
example : unwrap? "((a)".toList = some "(a".toList := by decide

/-- A text without tokens is blank. -/
theorem trim_eq_nil_of_ofText {text : Text} (h : ofText text.trim = .ok []) : text.trim = [] := by
  obtain ⟨-, hsplit⟩ := balanced_of_ofText h
  rw [← (Text.trimmed_trim text).trim_eq, Text.trim_eq_nil_iff]
  exact isBlank_of_splitFrom_eq_nil hsplit.symm

end Token

namespace Phrase

/-- Nothing is read from a blank text. -/
theorem read_of_blank {text : Text} (h : text.trim = []) (place : Place) :
    read place text = .fault (.emptyExpression []) := by
  have hunwrap : place.unwrap? text.trim = none := by
    rw [h]
    exact Place.unwrap?_eq_none rfl place
  have htokens : Token.ofText text.trim = .ok [] := by
    rw [h]
    rfl
  rw [read_of_nil (by simp [h]) hunwrap htokens, h]

/-- A text with tokens is read token by token, also where its outer parentheses are taken off first. -/
theorem read_eq_spine {place : Place} {text : Text} {first : Token} {later : List Token}
    (hdollar : ∀ rest, text.trim ≠ '$' :: rest) (htokens : Token.ofText text.trim = .ok (first :: later)) :
    read place text = spine place first later := by
  rcases hunwrap : place.unwrap? text.trim with _ | inside
  · exact read_of_tokens hdollar hunwrap htokens
  · cases place with
    | expression =>
      obtain ⟨token, hone, hkind, rfl⟩ :=
        (Token.unwrap?_eq_some_iff_group (Text.trimmed_trim text) htokens inside).1 hunwrap
      obtain ⟨rfl, rfl⟩ := List.cons.inj hone
      rw [read_of_unwrap hdollar hunwrap, spine, List.map_nil, List.foldl_nil, readToken_of_group hkind]
    | body => cases hunwrap

/-! ### Both readers find the same terms -/

/-- A text that is unwrapped is read alike from its inside and as a single group, or not at all. -/
theorem sameTerms_of_unwrap {text inside : Text} (hdollar : ∀ rest, text.trim ≠ '$' :: rest)
    (hunwrap : unwrap? text.trim = some inside)
    (ih : SameTerms (read .expression inside) (readPlain .expression inside)) :
    SameTerms (read .expression text) (readPlain .expression text) := by
  have hplace : Place.expression.unwrap? text.trim = some inside := hunwrap
  have hread := read_of_unwrap hdollar hplace
  obtain ⟨inner, hparens, hopen, rfl⟩ := unwrap?_eq_some_iff.1 hunwrap
  by_cases hinner : Balanced inner
  · have htokens : Token.ofText text.trim = .ok [⟨Term.parens inner, 0⟩] := by
      rw [hparens, Token.ofText_parens hinner]
    rw [hread, readPlain_of_tokens hdollar htokens, plainSpine, List.map_nil, List.foldl_nil,
      readPlainToken_of_group (Token.kind_parens _ _), Token.inside_parens]
    exact ih
  · -- neither the inside nor the whole is balanced, so neither stands for a term
    intro definitions term
    constructor
    · intro hterm
      rw [hread] at hterm
      have := balanced_of_resolve.1 .expression (Text.trim inner) ⟨term, hterm⟩
      exact absurd (balanced_trim.1 this) hinner
    · intro hterm
      cases htokens : Token.ofText text.trim with
      | error error =>
        rw [readPlain_of_error hdollar htokens] at hterm
        cases hterm
      | ok tokens =>
        have := (Token.balanced_of_ofText htokens).1
        rw [hparens, balanced_parens_iff hopen] at this
        exact absurd this hinner

theorem sameTerms_readPlain :
    (∀ (place : Place) (text : Text), SameTerms (read place text) (readPlain place text)) ∧
      (∀ (role : Role) (token : Token), SameTerms (readToken role token) (readPlainToken role token)) ∧
      ∀ rest : Text, SameTerms (readLiteral rest) (readPlainLiteral rest) := by
  refine read.mutual_induct _ _ _ ?_ ?_ ?_ ?_ ?_ ?_ ?_ ?_ ?_ ?_
  · intro place text rest htrim ih
    rwa [read_of_dollar htrim, readPlain_of_dollar htrim]
  · intro place text inside hdollar hunwrap ih
    cases place with
    | expression => exact sameTerms_of_unwrap hdollar hunwrap ih
    | body => cases hunwrap
  · intro place text error hdollar hunwrap htokens
    exact .of_eq (by rw [read_of_error hdollar hunwrap htokens, readPlain_of_error hdollar htokens])
  · intro place text hdollar hunwrap htokens
    exact .of_eq (by rw [read_of_nil hdollar hunwrap htokens, readPlain_of_nil hdollar htokens])
  · intro place text first later hdollar hunwrap htokens ihfirst ihlater
    rw [read_of_tokens hdollar hunwrap htokens, readPlain_of_tokens hdollar htokens]
    exact ihfirst.foldl fun token htoken => ihlater ⟨token, htoken⟩
  · intro role token hkind ih
    rwa [readToken_of_group hkind, readPlainToken_of_group hkind]
  · intro role token hkind ih
    rwa [readToken_of_lambda hkind, readPlainToken_of_lambda hkind]
  · intro role token hkind
    exact .of_eq (by rw [readToken_of_word hkind, readPlainToken_of_word hkind])
  · intro rest error hread
    exact .of_eq (by rw [readLiteral_of_error hread, readPlainLiteral_of_error hread])
  · intro rest literal hread ih
    rw [readLiteral_of_ok hread, readPlainLiteral_of_ok hread]
    exact ih.foldr literal.params

end Phrase

/-- CORRECT: the rule for outer parentheses changes no result. With it and without it a text parses to the
    same term or fails; and where the text has tokens, the rule applies exactly to a single group and gives
    what is inside. -/
theorem Term.parse_iff_parsePlain (definitions : Definitions) (text : Text) :
    ((∃ term, parse definitions text = .ok term ∧ parsePlain definitions text = .ok term) ∨
      ∃ error other, parse definitions text = .error error ∧ parsePlain definitions text = .error other) ∧
    ∀ tokens, Token.ofText text.trim = .ok tokens → ∀ inside, unwrap? text.trim = some inside ↔
      ∃ token, tokens = [token] ∧ token.kind = .group ∧ inside = token.inside := by
  refine ⟨?_, fun tokens htokens => Token.unwrap?_eq_some_iff_group (Text.trimmed_trim text) htokens⟩
  have hsame : ∀ term, parse definitions text = .ok term ↔ parsePlain definitions text = .ok term :=
    Phrase.sameTerms_readPlain.1 .expression text definitions
  cases hparse : parse definitions text with
  | ok term => exact Or.inl ⟨term, rfl, (hsame term).1 hparse⟩
  | error error =>
    cases hplain : parsePlain definitions text with
    | error other => exact Or.inr ⟨error, other, rfl, rfl⟩
    | ok term =>
      rw [(hsame term).2 hplain] at hparse
      cases hparse

/-- A pair around the whole is a single group; two groups beside each other are not unwrapped. -/
theorem Term.parse_iff_parsePlain_groups :
    unwrap? "((a) b)".toList = some "(a) b".toList ∧ unwrap? "(a) (b)".toList = none := by
  have hone : Token.ofText (Text.trim "((a) b)".toList) = .ok [⟨"((a) b)".toList, 0⟩] := by decide
  have htwo : Token.ofText (Text.trim "(a) (b)".toList) =
      .ok [⟨"(a)".toList, 0⟩, ⟨"(b)".toList, 4⟩] := by decide
  refine ⟨((parse_iff_parsePlain Table.empty "((a) b)".toList).2 _ hone _).2 ⟨_, rfl, by decide, by decide⟩, ?_⟩
  cases hunwrap : unwrap? "(a) (b)".toList with
  | none => rfl
  | some inside =>
    obtain ⟨token, htokens, -⟩ :=
      ((parse_iff_parsePlain Table.empty "(a) (b)".toList).2 _ htwo inside).1 hunwrap
    cases htokens

end LambdaArrow
