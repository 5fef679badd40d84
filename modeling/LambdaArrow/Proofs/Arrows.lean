import LambdaArrow.Phrase
import LambdaArrow.Proofs.Level
import LambdaArrow.Proofs.Trimming

/-! Arrow functions and calls as JavaScript reads them.

        expression ::= (c) => expression | call
        call       ::= name | ( expression ) | call ( expression )

    The body of an arrow function reaches as far right as it can, because an arrow function is no call
    and so has to be grouped before it can be called. `Spells` is this grammar and `readExpression` a
    reader that goes from left to right; the reader finds exactly what the grammar derives, so a text
    spells at most one term. The text of a term spells that term, hence no other. -/

namespace LambdaArrow.Arrow

open Balance Term

/-- A character of a name: neither a parenthesis nor a blank. -/
def isNameChar (c : Char) : Bool := c ≠ '(' && c ≠ ')' && !Text.isBlank c

/-- What a name stands for: a single small letter is a variable. -/
def ofName (name : Text) : Term :=
  match letter? name with
  | some letter => .var letter
  | none => .ref name

/-- The two kinds of text in the grammar. -/
inductive Part where
  | expression
  | call
  deriving DecidableEq

/-- The grammar: which term a text spells, as an expression or as a call. -/
inductive Spells : Part → Text → Term → Prop where
  | arrow {param : Char} {text : Text} {body : Term} : param.isLower →
      Spells .expression text body →
      Spells .expression (parens [param] ++ " => ".toList ++ text) (.abs param body)
  | call {text : Text} {term : Term} : Spells .call text term → Spells .expression text term
  | name {name : Text} : name ≠ [] → name.all isNameChar → Spells .call name (ofName name)
  | group {text : Text} {term : Term} : Spells .expression text term → Spells .call (parens text) term
  | apply {callee inside : Text} {function argument : Term} : Spells .call callee function →
      Spells .expression inside argument →
      Spells .call (callee ++ parens inside) (.app function argument)

/-! ### The reader -/

/-- The parameter of an arrow function at the start of a text, and the text behind the arrow. -/
def arrowHead? : Text → Option (Char × Text)
  | '(' :: param :: ')' :: ' ' :: '=' :: '>' :: ' ' :: rest =>
    if param.isLower then some (param, rest) else none
  | _ => none

theorem eq_of_arrowHead? {text rest : Text} {param : Char} (h : arrowHead? text = some (param, rest)) :
    param.isLower ∧ text = parens [param] ++ " => ".toList ++ rest := by
  unfold arrowHead? at h
  split at h
  · split at h
    · rename_i hlower
      cases h
      exact ⟨hlower, rfl⟩
    · cases h
  · cases h

theorem arrowHead?_arrow {param : Char} (h : param.isLower) (rest : Text) :
    arrowHead? (parens [param] ++ " => ".toList ++ rest) = some (param, rest) := by
  show (if param.isLower then some (param, rest) else none) = _
  rw [if_pos h]

mutual

/-- Reads an expression at the start of a text: the term and the rest of the text. -/
def readExpression (text : Text) : Option (Term × Text) :=
  match _hhead : arrowHead? text with
  | some (param, rest) => (readExpression rest).map fun (body, rest) => (.abs param body, rest)
  | none => readCall text
termination_by (text.length, 2)
decreasing_by
  · obtain ⟨-, rfl⟩ := eq_of_arrowHead? _hhead
    simp only [parens, List.length_append, List.length_cons, Prod.lex_def]
    omega
  · exact Prod.Lex.right _ Nat.one_lt_two

/-- Reads a name or a group, and then its arguments. -/
def readCall (text : Text) : Option (Term × Text) :=
  match text with
  | '(' :: inside =>
    match readExpression inside with
    -- the rest is always shorter; that it is ends the recursion
    | some (function, ')' :: rest) =>
      if rest.length < inside.length then readArguments function rest else none
    | _ => none
  | text =>
    if text.takeWhile isNameChar = [] then none
    else readArguments (ofName (text.takeWhile isNameChar)) (text.dropWhile isNameChar)
termination_by (text.length, 1)
decreasing_by
  · simp only [List.length_cons, Prod.lex_def]
    omega
  · simp only [List.length_cons, Prod.lex_def]
    omega
  · have := (List.dropWhile_suffix (l := text) isNameChar).length_le
    simp only [Prod.lex_def]
    omega

/-- Reads the arguments of a call, each in its own parentheses. -/
def readArguments (function : Term) (text : Text) : Option (Term × Text) :=
  match text with
  | '(' :: inside =>
    match readExpression inside with
    | some (argument, ')' :: rest) =>
      if rest.length < inside.length then readArguments (.app function argument) rest else none
    | _ => none
  | text => some (function, text)
termination_by (text.length, 0)
decreasing_by
  · simp only [List.length_cons, Prod.lex_def]
    omega
  · simp only [List.length_cons, Prod.lex_def]
    omega

end

/-- The term that a whole text spells. -/
def read? (text : Text) : Option Term :=
  match readExpression text with
  | some (term, []) => some term
  | _ => none

/-! ### The reader, one step at a time -/

theorem readExpression_arrow {param : Char} (h : param.isLower) (text : Text) :
    readExpression (parens [param] ++ " => ".toList ++ text) =
      (readExpression text).map fun (body, rest) => (.abs param body, rest) := by
  rw [readExpression]
  split
  · rename_i hhead
    rw [arrowHead?_arrow h] at hhead
    cases hhead
    rfl
  · rename_i hhead
    rw [arrowHead?_arrow h] at hhead
    cases hhead

theorem readExpression_of_none {text : Text} (h : arrowHead? text = none) :
    readExpression text = readCall text := by
  rw [readExpression]
  split
  · simp_all
  · rfl

theorem readCall_group {inside rest : Text} {function : Term}
    (h : readExpression inside = some (function, ')' :: rest)) (hlength : rest.length < inside.length) :
    readCall ('(' :: inside) = readArguments function rest := by
  rw [readCall, h]
  exact if_pos hlength

theorem readCall_of_head {text : Text} (h : text.head? ≠ some '(') :
    readCall text = if text.takeWhile isNameChar = [] then none
      else readArguments (ofName (text.takeWhile isNameChar)) (text.dropWhile isNameChar) := by
  rw [readCall]
  rintro inside rfl
  exact h rfl

theorem readArguments_group {inside rest : Text} {argument : Term}
    (h : readExpression inside = some (argument, ')' :: rest)) (hlength : rest.length < inside.length)
    (function : Term) :
    readArguments function ('(' :: inside) = readArguments (.app function argument) rest := by
  rw [readArguments, h]
  exact if_pos hlength

theorem readArguments_of_head {text : Text} (h : text.head? ≠ some '(') (function : Term) :
    readArguments function text = some (function, text) := by
  rw [readArguments]
  rintro inside rfl
  exact h rfl

/-! ### What may follow -/

/-- Nothing, or the end of a group, follows an expression. -/
def EndsExpression (rest : Text) : Prop := rest.head? = none ∨ rest.head? = some ')'

/-- An argument may follow a call as well. -/
def EndsCall (rest : Text) : Prop := EndsExpression rest ∨ rest.head? = some '('

theorem EndsExpression.head?_ne {rest : Text} (h : EndsExpression rest) {c : Char} (hc : c ≠ ')') :
    rest.head? ≠ some c := by
  rcases h with h | h
  · rw [h]; exact fun heq => by cases heq
  · rw [h]; exact fun heq => hc (Option.some.inj heq).symm

/-- No character of a name follows a call. -/
theorem EndsCall.not_isNameChar {rest : Text} (h : EndsCall rest) :
    ∀ c ∈ rest.head?, isNameChar c = false := by
  rintro c hc
  rcases h with (h | h) | h
  · rw [h] at hc; cases hc
  · rw [h] at hc; cases hc; decide
  · rw [h] at hc; cases hc; decide

/-! ### What a text that spells a term is like -/

theorem flat_of_all_isNameChar {name : Text} (h : name.all isNameChar) : Flat name := by
  rw [List.all_eq_true] at h
  exact ⟨fun hmem => absurd (h _ hmem) (by decide), fun hmem => absurd (h _ hmem) (by decide)⟩

theorem Spells.ne_nil {part : Part} {text : Text} {term : Term} (h : Spells part text term) :
    text ≠ [] := by
  induction h with
  | arrow hparam htext ih => exact List.cons_ne_nil _ _
  | call htext ih => exact ih
  | name hne hall => exact hne
  | group htext ih => exact List.cons_ne_nil _ _
  | apply hcallee hinside ihcallee ihinside => exact List.append_ne_nil_of_left_ne_nil ihcallee _

theorem Spells.balanced {part : Part} {text : Text} {term : Term} (h : Spells part text term) :
    Balanced text := by
  induction h with
  | @arrow param text body hparam htext ih =>
    exact ((Balanced.of_flat (.letter hparam)).parens.append (by decide)).append ih
  | call htext ih => exact ih
  | name hne hall => exact .of_flat (flat_of_all_isNameChar hall)
  | group htext ih => exact ih.parens
  | apply hcallee hinside ihcallee ihinside => exact ihcallee.append ihinside.parens

/-- A call does not look like an arrow function. Its first group would have to be a parameter, and then
    no arrow follows it. -/
theorem Spells.arrowHead?_eq_none {part : Part} {text : Text} {term : Term}
    (h : Spells part text term) (hpart : part = .call) {rest : Text} (hrest : EndsCall rest) :
    arrowHead? (text ++ rest) = none := by
  induction h generalizing rest with
  | arrow => cases hpart
  | call => cases hpart
  | @name name hne hall =>
    obtain ⟨c, cs, rfl⟩ := List.exists_cons_of_ne_nil hne
    cases hhead : arrowHead? (c :: cs ++ rest) with
    | none => rfl
    | some found =>
      obtain ⟨-, heq⟩ := eq_of_arrowHead? hhead
      rw [List.all_cons, (List.cons.inj heq).1] at hall
      exact absurd hall (by simp [isNameChar])
  | @group text term htext ih =>
    cases hhead : arrowHead? (parens text ++ rest) with
    | none => rfl
    | some found =>
      obtain ⟨hparam, heq⟩ := eq_of_arrowHead? hhead
      have hinside : text ++ ')' :: rest = found.1 :: ')' :: ' ' :: '=' :: '>' :: ' ' :: found.2 := by
        simpa [parens] using heq
      have hspace : rest.head? = some ' ' := by
        rw [htext.balanced.eq_of_append_eq htext.ne_nil hparam hinside]
        rfl
      rcases hrest with hrest | hrest
      · exact absurd hspace (hrest.head?_ne (by decide))
      · rw [hspace] at hrest; cases hrest
  | @apply callee inside function argument hcallee hinside ihcallee ihinside =>
    rw [List.append_assoc]
    exact ihcallee rfl (Or.inr rfl)

/-! ### The reader finds what the grammar derives -/

/-- The reader takes a text off the front of a longer one and goes on behind it. -/
def Part.Reads : Part → Text → Term → Prop
  | .expression, text, term =>
    ∀ rest, EndsExpression rest → readExpression (text ++ rest) = some (term, rest)
  | .call, text, term => ∀ rest, EndsCall rest → readCall (text ++ rest) = readArguments term rest

theorem takeWhile_name {name rest : Text} (hall : name.all isNameChar)
    (hrest : ∀ c ∈ rest.head?, isNameChar c = false) :
    (name ++ rest).takeWhile isNameChar = name ∧ (name ++ rest).dropWhile isNameChar = rest := by
  rw [List.all_eq_true] at hall
  rw [List.takeWhile_append_of_pos hall, List.dropWhile_append_of_pos hall]
  cases rest with
  | nil => exact ⟨List.append_nil name, rfl⟩
  | cons c cs =>
    rw [List.takeWhile_cons, List.dropWhile_cons, hrest c rfl]
    exact ⟨List.append_nil name, rfl⟩

theorem reads_name {name : Text} (hne : name ≠ []) (hall : name.all isNameChar) :
    Part.call.Reads name (ofName name) := by
  intro rest hrest
  obtain ⟨htake, hdrop⟩ := takeWhile_name hall hrest.not_isNameChar
  have hhead : (name ++ rest).head? ≠ some '(' := by
    obtain ⟨c, cs, rfl⟩ := List.exists_cons_of_ne_nil hne
    intro heq
    rw [List.all_cons, Option.some.inj heq] at hall
    exact absurd hall (by simp [isNameChar])
  rw [readCall_of_head hhead, htake, hdrop, if_neg hne]

/-- Parentheses around an expression: the reader stops at the one that closes them. -/
theorem Part.Reads.readExpression_parens {inside : Text} {term : Term}
    (h : Part.expression.Reads inside term) (rest : Text) :
    readExpression (inside ++ ')' :: rest) = some (term, ')' :: rest) ∧
      rest.length < (inside ++ ')' :: rest).length := by
  refine ⟨h _ (Or.inr rfl), ?_⟩
  rw [List.length_append, List.length_cons]
  omega

theorem parens_append (inside rest : Text) :
    parens inside ++ rest = '(' :: (inside ++ ')' :: rest) := by
  rw [parens, List.cons_append, List.cons_append, List.append_assoc]
  rfl

theorem Spells.reads {part : Part} {text : Text} {term : Term} (h : Spells part text term) :
    part.Reads text term := by
  induction h with
  | @arrow param text body hparam htext ih =>
    intro rest hrest
    rw [List.append_assoc, readExpression_arrow hparam, ih rest hrest]
    rfl
  | @call text term htext ih =>
    intro rest hrest
    rw [readExpression_of_none (htext.arrowHead?_eq_none rfl (Or.inl hrest)), ih rest (Or.inl hrest)]
    exact readArguments_of_head (hrest.head?_ne (by decide)) term
  | name hne hall => exact reads_name hne hall
  | @group text term htext ih =>
    intro rest hrest
    obtain ⟨hread, hlength⟩ := Part.Reads.readExpression_parens ih rest
    rw [parens_append, readCall_group hread hlength]
  | @apply callee inside function argument hcallee hinside ihcallee ihinside =>
    intro rest hrest
    obtain ⟨hread, hlength⟩ := Part.Reads.readExpression_parens ihinside rest
    rw [List.append_assoc, ihcallee _ (Or.inr rfl), parens_append, readArguments_group hread hlength]

/-! ### The grammar derives what the reader finds -/

theorem of_readCall_group {inside rest : Text} {term : Term}
    (h : readCall ('(' :: inside) = some (term, rest)) :
    ∃ function behind, readExpression inside = some (function, ')' :: behind) ∧
      behind.length < inside.length ∧ readArguments function behind = some (term, rest) := by
  rw [readCall] at h
  split at h
  · split at h
    · exact ⟨_, _, ‹_›, ‹_›, h⟩
    · cases h
  · cases h

theorem of_readArguments_group {inside rest : Text} {function term : Term}
    (h : readArguments function ('(' :: inside) = some (term, rest)) :
    ∃ argument behind, readExpression inside = some (argument, ')' :: behind) ∧
      behind.length < inside.length ∧
      readArguments (.app function argument) behind = some (term, rest) := by
  rw [readArguments] at h
  split at h
  · split at h
    · exact ⟨_, _, ‹_›, ‹_›, h⟩
    · cases h
  · cases h

mutual

theorem spells_of_readExpression {text rest : Text} {term : Term}
    (h : readExpression text = some (term, rest)) :
    ∃ used, text = used ++ rest ∧ Spells .expression used term := by
  cases hhead : arrowHead? text with
  | none =>
    rw [readExpression_of_none hhead] at h
    obtain ⟨used, htext, hcall⟩ := spells_of_readCall h
    exact ⟨used, htext, .call hcall⟩
  | some found =>
    obtain ⟨param, inside⟩ := found
    obtain ⟨hparam, rfl⟩ := eq_of_arrowHead? hhead
    rw [readExpression_arrow hparam, Option.map_eq_some_iff] at h
    obtain ⟨⟨body, rest'⟩, hbody, heq⟩ := h
    cases heq
    obtain ⟨used, rfl, hused⟩ := spells_of_readExpression hbody
    exact ⟨_, (List.append_assoc _ _ _).symm, .arrow hparam hused⟩
termination_by (text.length, 2)

theorem spells_of_readCall {text rest : Text} {term : Term} (h : readCall text = some (term, rest)) :
    ∃ used, text = used ++ rest ∧ Spells .call used term := by
  by_cases hhead : text.head? = some '('
  · obtain ⟨inside, htext⟩ := List.head?_eq_some_iff.1 hhead
    have hshorter : inside.length < text.length := by rw [htext]; exact Nat.lt_succ_self _
    rw [htext] at h ⊢
    obtain ⟨function, behind, hread, hlength, harguments⟩ := of_readCall_group h
    obtain ⟨group, hinside, hgroup⟩ := spells_of_readExpression hread
    obtain ⟨used, hbehind, hused⟩ := spells_of_readArguments (.group hgroup) harguments
    refine ⟨parens group ++ used, ?_, hused⟩
    rw [List.append_assoc, parens_append, ← hbehind, ← hinside]
  · rw [readCall_of_head hhead] at h
    split at h
    · cases h
    · rename_i hne
      have hname : Spells .call (text.takeWhile isNameChar) (ofName (text.takeWhile isNameChar)) :=
        .name hne List.all_takeWhile
      obtain ⟨used, hrest, hused⟩ := spells_of_readArguments hname h
      refine ⟨_, ?_, hused⟩
      rw [List.append_assoc, ← hrest, List.takeWhile_append_dropWhile]
termination_by (text.length, 1)
decreasing_by
  · simp only [Prod.lex_def]
    omega
  · simp only [Prod.lex_def]
    omega
  · have := (List.dropWhile_suffix (l := text) isNameChar).length_le
    simp only [Prod.lex_def]
    omega

/-- Arguments extend the call that they are read behind. -/
theorem spells_of_readArguments {text rest callee : Text} {function term : Term}
    (hcallee : Spells .call callee function) (h : readArguments function text = some (term, rest)) :
    ∃ used, text = used ++ rest ∧ Spells .call (callee ++ used) term := by
  by_cases hhead : text.head? = some '('
  · obtain ⟨inside, htext⟩ := List.head?_eq_some_iff.1 hhead
    have hshorter : inside.length < text.length := by rw [htext]; exact Nat.lt_succ_self _
    rw [htext] at h ⊢
    obtain ⟨argument, behind, hread, hlength, harguments⟩ := of_readArguments_group h
    obtain ⟨group, hinside, hgroup⟩ := spells_of_readExpression hread
    obtain ⟨used, hbehind, hused⟩ := spells_of_readArguments (.apply hcallee hgroup) harguments
    rw [List.append_assoc] at hused
    refine ⟨parens group ++ used, ?_, hused⟩
    rw [List.append_assoc, parens_append, ← hbehind, ← hinside]
  · rw [readArguments_of_head hhead] at h
    cases h
    exact ⟨[], rfl, by rwa [List.append_nil]⟩
termination_by (text.length, 0)
decreasing_by
  · simp only [Prod.lex_def]
    omega
  · simp only [Prod.lex_def]
    omega

end

/-- The reader and the grammar agree on every text. -/
theorem read?_eq_some_iff {text : Text} {term : Term} :
    read? text = some term ↔ Spells .expression text term := by
  constructor
  · intro h
    unfold read? at h
    split at h
    · rename_i hread
      cases h
      obtain ⟨used, rfl, hused⟩ := spells_of_readExpression hread
      rwa [List.append_nil]
    · cases h
  · intro h
    have hread := h.reads [] (Or.inl rfl)
    rw [List.append_nil] at hread
    rw [read?, hread]

end LambdaArrow.Arrow

namespace LambdaArrow.Term

/-! ### Arrow functions of terms -/

/-- Variables and parameters are small letters, and references are names but no single small letter. -/
def Legible : Term → Prop
  | .var name => name.isLower
  | .ref name => name ≠ [] ∧ name.all Arrow.isNameChar ∧ letter? name = none
  | .abs param body => param.isLower ∧ body.Legible
  | .app function argument => function.Legible ∧ argument.Legible

instance decidableLegible : (term : Term) → Decidable term.Legible
  | .var name => inferInstanceAs (Decidable (name.isLower = true))
  | .ref name => inferInstanceAs (Decidable (name ≠ [] ∧ _ ∧ letter? name = none))
  | .abs param body =>
    have := decidableLegible body
    inferInstanceAs (Decidable (param.isLower = true ∧ body.Legible))
  | .app function argument =>
    have := decidableLegible function
    have := decidableLegible argument
    inferInstanceAs (Decidable (function.Legible ∧ argument.Legible))

theorem spells_var {name : Char} (h : name.isLower) : Arrow.Spells .call [name] (.var name) := by
  have hterm : Arrow.ofName [name] = .var name := by
    rw [Arrow.ofName, letter?, if_pos h]
  have hchar : Arrow.isNameChar name := by
    have hopening : name ≠ '(' := Balance.ne_of_isLower h (by decide)
    have hclosing : name ≠ ')' := Balance.ne_of_isLower h (by decide)
    simp [Arrow.isNameChar, hopening, hclosing, Text.isBlank_of_isLower h]
  rw [← hterm]
  exact .name (List.cons_ne_nil _ _) (by rw [List.all_cons, hchar]; rfl)

theorem spells_ref {name : Text} (h : (ref name).Legible) : Arrow.Spells .call name (.ref name) := by
  obtain ⟨hne, hall, hletter⟩ := h
  have hterm : Arrow.ofName name = .ref name := by rw [Arrow.ofName, hletter]
  rw [← hterm]
  exact .name hne hall

/-- The text of a term is derived from the term's shape. Only an abstraction is no call, and exactly
    there the text puts parentheses before it is called. -/
theorem spells_arrow {term : Term} (h : term.Legible) :
    (term.isAbs = false → Arrow.Spells .call term.arrow term) ∧
      Arrow.Spells .expression term.arrow term := by
  induction term with
  | var name => exact ⟨fun _ => spells_var h, .call (spells_var h)⟩
  | ref name => exact ⟨fun _ => spells_ref h, .call (spells_ref h)⟩
  | abs param body ih => exact ⟨fun habs => (by cases habs), .arrow h.1 (ih h.2).2⟩
  | app function argument ihf iha =>
    obtain ⟨hcall, hexpression⟩ := ihf h.1
    have happ : Arrow.Spells .call (app function argument).arrow (.app function argument) := by
      rw [arrow]
      cases habs : function.isAbs with
      | true => exact .apply (.group hexpression) (iha h.2).2
      | false => exact .apply (hcall habs) (iha h.2).2
    exact ⟨fun _ => happ, .call happ⟩

/-- CORRECT: the arrow functions of a term are read back as the term and by the grammar as no other
    term, so two terms with the same arrow functions are the same. -/
theorem read?_arrow (term : Term) (h : term.Legible) :
    Arrow.read? term.arrow = some term ∧
      (∀ other, Arrow.Spells .expression term.arrow other → other = term) ∧
      ∀ other : Term, other.Legible → other.arrow = term.arrow → other = term := by
  have hread : Arrow.read? term.arrow = some term := Arrow.read?_eq_some_iff.2 (spells_arrow h).2
  have hunique : ∀ other, Arrow.Spells .expression term.arrow other → other = term := by
    intro other hother
    rw [← Arrow.read?_eq_some_iff, hread] at hother
    exact (Option.some.inj hother).symm
  refine ⟨hread, hunique, fun other hother heq => hunique other ?_⟩
  rw [← heq]
  exact (spells_arrow hother).2

/-- Parentheses in all three roles: around a parameter, a function that is called, and an argument. -/
theorem read?_arrow_nested :
    Arrow.read? "(f) => ((x) => f((y) => x(x)(y)))(Add)".toList =
      some (.abs 'f' (.app (.abs 'x' (.app (.var 'f') (.abs 'y' (.app (.app (.var 'x') (.var 'x'))
        (.var 'y'))))) (.ref "Add".toList))) :=
  (read?_arrow (.abs 'f' (.app (.abs 'x' (.app (.var 'f') (.abs 'y' (.app (.app (.var 'x') (.var 'x'))
    (.var 'y'))))) (.ref "Add".toList))) (by decide)).1

end LambdaArrow.Term
