import LambdaArrow.Proofs.Reader
import LambdaArrow.Proofs.Splitting
import LambdaArrow.Proofs.Trimming
import LambdaArrow.Term.Parser

/-! Terms as a program writes them, with no more parentheses than needed, and the way back. A chain of
    abstractions shares one dollar sign and one dot; an application stands beside its arguments, with
    parentheses around a function that is an abstraction and around an argument that is no word.

        abs f (abs a (app f a))   ──▶ $fa.f a
        app (abs x x) (app y z)   ──▶ ($x.x) (y z)

    Parsing undoes this. The proof goes over the term and keeps three readings at once: of the whole
    text, of the text as the function of an application, and of the text as an argument, since each
    kind of term is read through a different one of them from the kind above it. -/

namespace LambdaArrow.Term

open Balance

/-- Whether a term is an application. -/
def isApp : Term → Bool
  | .app .. => true
  | _ => false

/-- Text in parentheses, if they are `needed`. -/
def parensIf (needed : Bool) (text : Text) : Text := if needed then parens text else text

/-- A term as a program writes it. A chain of abstractions goes on behind the first dollar sign. -/
def surface : Term → Text
  | .var name => [name]
  | .ref name => name
  | .abs param body =>
    '$' :: param :: if body.isAbs then body.surface.tail else '.' :: body.surface
  | .app function argument =>
    parensIf function.isAbs function.surface ++
      ' ' :: parensIf (argument.isAbs || argument.isApp) argument.surface

/-- A term as the function of an application. -/
def operator (term : Term) : Text := parensIf term.isAbs term.surface

/-- A term as the argument of an application. -/
def operand (term : Term) : Text := parensIf (term.isAbs || term.isApp) term.surface

theorem surface_app (function argument : Term) :
    (app function argument).surface = function.operator ++ ' ' :: argument.operand := rfl

theorem surface_abs_of_isAbs (param : Char) {body : Term} (h : body.isAbs) :
    (abs param body).surface = '$' :: param :: body.surface.tail := by
  rw [surface, if_pos h]

theorem surface_abs_of_not_isAbs (param : Char) {body : Term} (h : body.isAbs = false) :
    (abs param body).surface = '$' :: param :: '.' :: body.surface := by
  rw [surface, h]
  rfl

/-- A chain of abstractions is a dollar sign, all its parameters, a dot and its body. -/
theorem surface_chain {body : Term} (h : body.isAbs = false) : ∀ (param : Char) (params : Text),
    ((param :: params).foldr abs body).surface = '$' :: (param :: params ++ '.' :: body.surface)
  | param, [] => surface_abs_of_not_isAbs param h
  | param, next :: params => by
    rw [List.foldr_cons, surface_abs_of_isAbs param rfl, surface_chain h next params]
    rfl

/-- An application spine is its head and its arguments, with one space before each argument. -/
theorem operator_spine : ∀ (head : Term) (arguments : List Term),
    (arguments.foldl app head).operator = head.operator ++ arguments.flatMap (' ' :: ·.operand)
  | head, [] => by simp
  | head, argument :: arguments => by
    rw [List.foldl_cons, operator_spine, List.flatMap_cons, ← List.append_assoc]
    rfl

/-! ### Terms that can be written -/

/-- A name that is read as one word: a capital letter first, no blank and no parenthesis. -/
def IsName (name : Text) : Prop :=
  name.head?.any Char.isUpper ∧ ∀ c ∈ name, Text.isBlank c = false ∧ c ≠ '(' ∧ c ≠ ')'

-- The list is walked: a search for the instance may find the one that tries every character there is.
instance (name : Text) : Decidable (IsName name) :=
  @instDecidableAnd _ _ inferInstance (List.decidableBAll _ name)

/-- Variables and parameters are lowercase letters, and references are names with a definition. -/
def Writable (definitions : Definitions) : Term → Prop
  | .var name => name.isLower
  | .ref name => IsName name ∧ definitions.contains name
  | .abs param body => param.isLower ∧ body.Writable definitions
  | .app function argument => function.Writable definitions ∧ argument.Writable definitions

instance decidableWritable (definitions : Definitions) :
    (term : Term) → Decidable (term.Writable definitions)
  | .var name => inferInstanceAs (Decidable (name.isLower = true))
  | .ref name => inferInstanceAs (Decidable (IsName name ∧ definitions.contains name = true))
  | .abs param body =>
    have := decidableWritable definitions body
    inferInstanceAs (Decidable (param.isLower = true ∧ body.Writable definitions))
  | .app function argument =>
    have := decidableWritable definitions function
    have := decidableWritable definitions argument
    inferInstanceAs (Decidable (function.Writable definitions ∧ argument.Writable definitions))

theorem IsName.exists_cons {name : Text} (h : IsName name) :
    ∃ c cs, name = c :: cs ∧ c.isUpper := by
  cases name with
  | nil => exact absurd h.1 (by decide)
  | cons c cs => exact ⟨c, cs, rfl, h.1⟩

theorem IsName.ne_nil {name : Text} (h : IsName name) : name ≠ [] := by
  obtain ⟨c, cs, rfl, -⟩ := h.exists_cons
  exact List.cons_ne_nil c cs

theorem IsName.flat {name : Text} (h : IsName name) : Flat name :=
  ⟨fun hmem => (h.2 _ hmem).2.1 rfl, fun hmem => (h.2 _ hmem).2.2 rfl⟩

/-- A name starts with none of the characters that mean something, nor with a small letter. -/
theorem IsName.head?_ne {name : Text} (h : IsName name) {other : Char}
    (hother : other.isUpper = false) : name.head? ≠ some other := by
  obtain ⟨c, cs, rfl, hc⟩ := h.exists_cons
  intro heq
  cases heq
  rw [hc] at hother
  cases hother

theorem isLower_of_isUpper {c : Char} (h : c.isUpper) : c.isLower = false := by
  simp only [Char.isUpper, Char.isLower, Bool.and_eq_false_iff, decide_eq_true_eq,
    decide_eq_false_iff_not, ge_iff_le, UInt32.le_iff_toNat_le] at h ⊢
  have hle : c.val.toNat ≤ 90 := h.2
  exact Or.inl (fun hge => absurd (show 97 ≤ c.val.toNat from hge) (by omega))

theorem IsName.letter? {name : Text} (h : IsName name) : letter? name = none := by
  obtain ⟨c, cs, rfl, hc⟩ := h.exists_cons
  cases cs with
  | nil => rw [LambdaArrow.letter?, if_neg (by rw [isLower_of_isUpper hc]; decide)]
  | cons d ds => rfl

/-! ### The text of a term is tidy -/

/-- Not empty, with no blank at either end, and balanced. -/
structure Tidy (text : Text) : Prop where
  ne_nil : text ≠ []
  trimmed : Text.Trimmed text
  balanced : Balanced text

theorem Tidy.word {text : Text} (hne : text ≠ []) (hflat : Flat text)
    (hblank : ∀ c ∈ text, Text.isBlank c = false) : Tidy text :=
  ⟨hne, .of_forall hblank, .of_flat hflat⟩

theorem Tidy.letter {c : Char} (h : c.isLower) : Tidy [c] := by
  refine .word (List.cons_ne_nil _ _) (.letter h) ?_
  exact List.forall_mem_singleton.2 (Text.isBlank_of_isLower h)

theorem Tidy.name {name : Text} (h : IsName name) : Tidy name :=
  .word h.ne_nil h.flat (fun c hc => (h.2 c hc).1)

theorem Tidy.parens {text : Text} (h : Balanced text) : Tidy (parens text) := by
  refine ⟨List.cons_ne_nil _ _, ⟨?_, ?_⟩, h.parens⟩
  · intro c hc
    cases hc
    decide
  · intro c hc
    rw [Term.parens, List.getLast?_concat] at hc
    cases hc
    decide

theorem Tidy.parensIf {text : Text} (h : Tidy text) (needed : Bool) : Tidy (parensIf needed text) := by
  cases needed with
  | false => exact h
  | true => exact .parens h.balanced

theorem Tidy.append {first last : Text} (hfirst : Tidy first) (hlast : Tidy last) :
    Tidy (first ++ ' ' :: last) where
  ne_nil := List.append_ne_nil_of_left_ne_nil hfirst.ne_nil _
  trimmed := hfirst.trimmed.append hlast.trimmed hfirst.ne_nil hlast.ne_nil [' ']
  balanced := hfirst.balanced.append (hlast.balanced.cons (by decide) (by decide))

/-- Characters in front of a tidy text, if the first of them is no blank and none is a parenthesis. -/
theorem Tidy.cons {c : Char} {text : Text} (front : Text) (h : Tidy text)
    (hc : Text.isBlank c = false) (hflat : Flat (c :: front)) : Tidy (c :: front ++ text) where
  ne_nil := List.cons_ne_nil _ _
  trimmed := by
    refine ⟨fun d hd => ?_, ?_⟩
    · cases hd
      exact hc
    · rw [List.getLast?_append, List.getLast?_eq_some_getLast h.ne_nil, Option.some_or,
        ← List.getLast?_eq_some_getLast h.ne_nil]
      exact h.trimmed.2
  balanced := (Balanced.of_flat hflat).append h.balanced

/-- One more parameter behind the dollar sign of a literal. -/
theorem Tidy.insert {param next : Char} {rest : Text} (hparam : param.isLower)
    (h : Tidy ('$' :: next :: rest)) : Tidy ('$' :: param :: next :: rest) where
  ne_nil := List.cons_ne_nil _ _
  trimmed := by
    refine ⟨h.trimmed.1, ?_⟩
    have hlast := h.trimmed.2
    rw [List.getLast?_cons_cons] at hlast ⊢
    rwa [List.getLast?_cons_cons]
  balanced := by
    have hbalanced := h.balanced
    rw [Balance.Balanced, level_cons_of_ne (by decide) (by decide)] at hbalanced ⊢
    rwa [level_cons_of_ne (ne_of_isLower hparam (by decide)) (ne_of_isLower hparam (by decide))]

theorem exists_surface_of_isAbs {term : Term} (h : term.isAbs) :
    ∃ param rest, term.surface = '$' :: param :: rest := by
  cases term with
  | abs param body => exact ⟨param, _, rfl⟩
  | _ => cases h

theorem tidy_surface {definitions : Definitions} {term : Term} (h : term.Writable definitions) :
    Tidy term.surface := by
  induction term with
  | var name => exact .letter h
  | ref name => exact .name h.1
  | abs param body ih =>
    obtain ⟨hparam, hbody⟩ := h
    by_cases hchain : body.isAbs
    · obtain ⟨next, rest, hsurface⟩ := exists_surface_of_isAbs hchain
      rw [surface_abs_of_isAbs param hchain, hsurface]
      exact .insert hparam (hsurface ▸ ih hbody)
    · rw [surface_abs_of_not_isAbs param (by simpa using hchain)]
      have hflat : Flat ['$', param, '.'] := by
        have hopening : param ≠ '(' := ne_of_isLower hparam (by decide)
        have hclosing : param ≠ ')' := ne_of_isLower hparam (by decide)
        simp [Flat, hopening.symm, hclosing.symm]
      exact (ih hbody).cons [param, '.'] (by decide) hflat
  | app function argument ihf iha =>
    exact ((ihf h.1).parensIf _).append ((iha h.2).parensIf _)

theorem tidy_operator {definitions : Definitions} {term : Term} (h : term.Writable definitions) :
    Tidy term.operator :=
  (tidy_surface h).parensIf _

/-! ### How a body and an application start -/

theorem startsBody_cons {c : Char} (hlower : c.isLower = false) (hdot : c ≠ '.') (cs : Text) :
    Literal.StartsBody (c :: cs) := by
  rw [Literal.StartsBody, List.dropWhile_cons, hlower]
  exact fun heq => hdot (Option.some.inj heq)

theorem startsBody_append {first : Text} (h : Literal.StartsBody first) (rest : Text) :
    Literal.StartsBody (first ++ ' ' :: rest) := by
  rw [Literal.StartsBody, List.dropWhile_append]
  split
  · exact startsBody_cons (by decide) (by decide) rest
  · rename_i hne
    rw [List.head?_append, Option.or_of_isSome]
    · exact h
    · simpa [List.isSome_head?] using hne

/-- What stands as a function is no literal, and no parameters start it. -/
theorem operator_start {definitions : Definitions} {term : Term} (h : term.Writable definitions) :
    Literal.StartsBody term.operator ∧ ∀ rest, term.operator ≠ '$' :: rest := by
  induction term with
  | var name =>
    have hname : name.isLower := h
    have hdollar : name ≠ '$' := ne_of_isLower hname (by decide)
    refine ⟨?_, fun rest heq => hdollar (List.cons.inj heq).1⟩
    show (List.dropWhile Char.isLower [name]).head? ≠ some '.'
    rw [List.dropWhile_cons, if_pos hname]
    decide
  | ref name =>
    obtain ⟨c, cs, rfl, hc⟩ := h.1.exists_cons
    have hdot : (c :: cs).head? ≠ some '.' := h.1.head?_ne (by decide)
    have hdollar : (c :: cs).head? ≠ some '$' := h.1.head?_ne (by decide)
    exact ⟨startsBody_cons (isLower_of_isUpper hc) (fun heq => hdot (congrArg some heq)) cs,
      fun rest heq => hdollar (congrArg List.head? heq)⟩
  | abs param body =>
    exact ⟨startsBody_cons (by decide) (by decide) _,
      fun rest heq => absurd (List.cons.inj heq).1 (by decide)⟩
  | app function argument ihf iha =>
    obtain ⟨hstarts, hdollar⟩ := ihf h.1
    refine ⟨startsBody_append hstarts _, fun rest heq => ?_⟩
    obtain ⟨c, cs, hcons⟩ := List.exists_cons_of_ne_nil (tidy_operator h.1).ne_nil
    have heq' : function.operator ++ ' ' :: argument.operand = '$' :: rest := heq
    rw [hcons, List.cons_append] at heq'
    exact hdollar cs (by rw [hcons, (List.cons.inj heq').1])

/-! ### Reading back -/

/-- A term is read back from its text, from its tokens as a function, and from it as one token. -/
structure ReadsBack (definitions : Definitions) (term : Term) : Prop where
  whole : ∀ place : Place, (Phrase.read place term.surface).resolve definitions = .ok term
  function : ∀ place : Place, ∃ first later, Token.split term.operator = first :: later ∧
    (Phrase.spine place first later).resolve definitions = .ok term
  argument : Token.Solid term.operand ∧ ∀ (role : Role) (start : Nat),
    (Phrase.readToken role ⟨term.operand, start⟩).resolve definitions = .ok term

variable {definitions : Definitions}

/-- A group around the text of a term is read as the term. -/
theorem readToken_group {term : Term} (htidy : Tidy term.surface)
    (hwhole : (Phrase.read .expression term.surface).resolve definitions = .ok term) (role : Role)
    (start : Nat) :
    (Phrase.readToken role ⟨parens term.surface, start⟩).resolve definitions = .ok term := by
  rw [Phrase.readToken_of_group (Token.kind_parens _ _), Token.inside_parens, htidy.trimmed.trim_eq]
  exact hwhole

/-- A text that is neither a literal nor in parentheses is read through its tokens. -/
theorem read_of_split {text : Text} {first : Token} {later : List Token} (htidy : Tidy text)
    (hdollar : ∀ rest, text ≠ '$' :: rest) (hunwrap : unwrap? text = none)
    (hsplit : Token.split text = first :: later) (place : Place) :
    Phrase.read place text = Phrase.spine place first later := by
  have htrim := htidy.trimmed.trim_eq
  apply Phrase.read_of_tokens
  · rwa [htrim]
  · rw [htrim]
    exact Place.unwrap?_eq_none hunwrap place
  · rw [htrim, Token.ofText_of_balanced htidy.balanced, hsplit]

/-- A word that stands for a term in every role is read back as it. -/
theorem ReadsBack.word {term : Term} (text : Text) (hsurface : term.surface = text)
    (habs : term.isAbs = false) (happ : term.isApp = false) (htidy : Tidy text)
    (hsolid : Token.Solid text) (hopening : text.head? ≠ some '(') (hdollar : text.head? ≠ some '$')
    (hresolve : ∀ role : Role, role.resolve definitions text = .ok term) :
    ReadsBack definitions term := by
  have hoperator : term.operator = text := by rw [operator, habs, hsurface]; rfl
  have hoperand : term.operand = text := by rw [operand, habs, happ, hsurface]; rfl
  have htoken : ∀ (role : Role) (start : Nat),
      (Phrase.readToken role ⟨text, start⟩).resolve definitions = .ok term := by
    intro role start
    rw [Phrase.readToken_of_word (Token.kind_word hopening hdollar start)]
    exact hresolve role
  have hsplit : Token.split text = [⟨text, 0⟩] := hsolid.splitFrom 0
  refine ⟨fun place => ?_, fun place => ?_, ?_⟩
  · rw [hsurface, read_of_split htidy (fun rest heq => hdollar (by rw [heq]; rfl))
      (unwrap?_of_head hopening) hsplit]
    exact htoken place.first 0
  · rw [hoperator]
    exact ⟨_, _, hsplit, htoken place.first 0⟩
  · rw [hoperand]
    exact ⟨hsolid, htoken⟩

theorem ReadsBack.var {name : Char} (h : name.isLower) : ReadsBack definitions (.var name) := by
  have htidy : Tidy [name] := .letter h
  have hsolid : Token.Solid [name] := by
    refine .word htidy.ne_nil (.letter h) ?_
    exact List.forall_mem_singleton.2 (Text.isBlank_of_isLower h)
  refine .word [name] rfl rfl rfl htidy hsolid ?_ ?_ (fun role => ?_)
  · exact fun heq => ne_of_isLower h (by decide) (Option.some.inj heq)
  · exact fun heq => ne_of_isLower h (by decide) (Option.some.inj heq)
  · rw [Role.resolve, letter?, if_pos h]

theorem ReadsBack.ref {name : Text} (h : IsName name) (hdefined : definitions.contains name) :
    ReadsBack definitions (.ref name) := by
  refine .word name rfl rfl rfl (.name h) (.word h.ne_nil h.flat (fun c hc => (h.2 c hc).1))
    (h.head?_ne (by decide)) (h.head?_ne (by decide)) (fun role => ?_)
  rw [Role.resolve, h.letter?]
  cases role with
  | verbatim => rfl
  | head => exact if_pos hdefined
  | argument => exact if_pos hdefined

/-- An abstraction read back as a whole is read back in parentheses too. -/
theorem ReadsBack.of_isAbs {term : Term} (habs : term.isAbs) (htidy : Tidy term.surface)
    (hwhole : ∀ place : Place, (Phrase.read place term.surface).resolve definitions = .ok term) :
    ReadsBack definitions term := by
  have hoperator : term.operator = parens term.surface := by rw [operator, habs]; rfl
  have hoperand : term.operand = parens term.surface := by rw [operand, habs]; rfl
  have hsolid : Token.Solid (parens term.surface) := .parens htidy.balanced
  refine ⟨hwhole, fun place => ?_, ?_⟩
  · rw [hoperator]
    exact ⟨_, _, hsolid.splitFrom 0, readToken_group htidy (hwhole .expression) place.first 0⟩
  · rw [hoperand]
    exact ⟨hsolid, readToken_group htidy (hwhole .expression)⟩

/-- A literal that stands for a term can be read. -/
theorem exists_literal {rest : Text} {term : Term}
    (h : (Phrase.readLiteral rest).resolve definitions = .ok term) :
    ∃ literal, Literal.read rest = .ok literal := by
  cases hread : Literal.read rest with
  | ok literal => exact ⟨literal, rfl⟩
  | error error =>
    rw [Phrase.readLiteral_of_error hread] at h
    cases h

/-- The literal of an abstraction. Its body is either the rest of the same chain of parameters, which
    then has one letter more, or stands behind the dot. -/
theorem resolve_readLiteral {param : Char} {body : Term} (hparam : param.isLower)
    (hwritable : body.Writable definitions) (hbody : ReadsBack definitions body) :
    (Phrase.readLiteral (abs param body).surface.tail).resolve definitions =
      .ok (.abs param body) := by
  have htidy := tidy_surface hwritable
  by_cases hchain : body.isAbs
  · obtain ⟨next, rest, hsurface⟩ := exists_surface_of_isAbs hchain
    have hliteral : (Phrase.readLiteral (next :: rest)).resolve definitions = .ok body := by
      rw [← Phrase.read_of_dollar (htidy.trimmed.trim_eq.trans hsurface)]
      exact hbody.whole .body
    obtain ⟨literal, hread⟩ := exists_literal hliteral
    rw [surface_abs_of_isAbs param hchain, hsurface, List.tail_cons, List.tail_cons,
      Phrase.readLiteral_cons hparam hread]
    exact Phrase.resolve_lambda_ok hparam hliteral
  · have hnot : body.isAbs = false := by simpa using hchain
    have hoperator : body.operator = body.surface := by rw [operator, hnot]; rfl
    have hstarts : Literal.StartsBody body.surface := hoperator ▸ (operator_start hwritable).1
    have hne : Text.trim body.surface ≠ [] := by
      rw [htidy.trimmed.trim_eq]
      exact htidy.ne_nil
    rw [surface_abs_of_not_isAbs param hnot, List.tail_cons,
      Phrase.readLiteral_of_ok (Literal.read_letter_dot hparam hstarts hne)]
    exact Phrase.resolve_lambda_ok hparam (hbody.whole .body)

theorem ReadsBack.abs {param : Char} {body : Term} (h : (Term.abs param body).Writable definitions)
    (hbody : ReadsBack definitions body) : ReadsBack definitions (.abs param body) := by
  have htidy := tidy_surface h
  refine .of_isAbs rfl htidy (fun place => ?_)
  rw [Phrase.read_of_dollar htidy.trimmed.trim_eq]
  exact resolve_readLiteral h.1 h.2 hbody

/-- An application is read from the tokens of its function and one token more. -/
theorem ReadsBack.app {function argument : Term}
    (h : (Term.app function argument).Writable definitions) (hfunction : ReadsBack definitions function)
    (hargument : ReadsBack definitions argument) : ReadsBack definitions (.app function argument) := by
  have htidy := tidy_surface h
  have hoperator := tidy_operator h.1
  -- the tokens of the application, and what they are read as
  have htokens : ∀ place : Place, ∃ first later,
      Token.split (Term.app function argument).surface = first :: later ∧
        (Phrase.spine place first later).resolve definitions = .ok (.app function argument) := by
    intro place
    obtain ⟨first, later, hsplit, hspine⟩ := hfunction.function place
    refine ⟨first, later ++ [⟨argument.operand, Text.byteLength function.operator + ' '.utf8Size⟩],
      ?_, ?_⟩
    · rw [surface_app, Token.split_append_blank (by decide) hoperator.balanced, hsplit,
        hargument.argument.1.splitFrom]
      rfl
    · rw [Phrase.spine_concat]
      exact Phrase.resolve_apply_ok hspine (hargument.argument.2 place.later _)
  have hdollar : ∀ rest, (Term.app function argument).surface ≠ '$' :: rest := (operator_start h).2
  have hunwrap : unwrap? (Term.app function argument).surface = none :=
    unwrap?_append hoperator.balanced hoperator.ne_nil (List.cons_ne_nil _ _)
  have hwhole : ∀ place : Place,
      (Phrase.read place (Term.app function argument).surface).resolve definitions =
        .ok (.app function argument) := by
    intro place
    obtain ⟨first, later, hsplit, hspine⟩ := htokens place
    rw [read_of_split htidy hdollar hunwrap hsplit]
    exact hspine
  exact ⟨hwhole, htokens, .parens htidy.balanced, readToken_group htidy (hwhole .expression)⟩

/-- Every term that can be written is read back. -/
theorem readsBack {term : Term} (h : term.Writable definitions) : ReadsBack definitions term := by
  induction term with
  | var name => exact .var h
  | ref name => exact .ref h.1 h.2
  | abs param body ih => exact .abs h (ih h.2)
  | app function argument ihf iha => exact .app h (ihf h.1) (iha h.2)

/-- CORRECT: parsing the text of a term gives the term back. -/
theorem parse_surface (definitions : Definitions) (term : Term) (h : term.Writable definitions) :
    parse definitions term.surface = .ok term :=
  (readsBack h).whole .expression

/-- A chain, a function in parentheses, an argument in parentheses, and a name with a dot in it. -/
theorem parse_surface_nested :
    parse (Table.empty.insert "Add.to".toList []) "$fa.($x.Add.to x) (f a) Add.to".toList =
      .ok (.abs 'f' (.abs 'a' (.app (.app (.abs 'x' (.app (.ref "Add.to".toList) (.var 'x')))
        (.app (.var 'f') (.var 'a'))) (.ref "Add.to".toList)))) :=
  parse_surface _ (.abs 'f' (.abs 'a' (.app (.app (.abs 'x' (.app (.ref "Add.to".toList) (.var 'x')))
    (.app (.var 'f') (.var 'a'))) (.ref "Add.to".toList)))) (by decide)

end LambdaArrow.Term
