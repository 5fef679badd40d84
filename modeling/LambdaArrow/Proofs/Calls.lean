import LambdaArrow.Proofs.Application

/-! How the parsers call one another. An expression, a literal, a lambda body and a token each ask for parts to be
    parsed, and some hand on the text that they were given:

        expression ── `$` in front ──▶ literal, the same text
        expression ── outer parentheses ──▶ expression, what is inside
        expression, body ── otherwise ──▶ token, each of them
        body ── `$` in front ──▶ literal, the same text
        literal ── `$` in front ──▶ body, behind the parameters
        literal ── otherwise ──▶ expression, the same text
        token ── group ──▶ expression, what is inside
        token ── `$` in front ──▶ literal, the same text

    No text is handed round in a circle. A text with the dollar sign in front goes to the literal, which takes the
    sign and at least one letter off; any other goes to its tokens, which are as long as the text at most, and a token
    hands on what is inside it, or a text with the sign in front. -/

namespace LambdaArrow

/-- A call of a parser: for an expression, a literal or a lambda body in a text, or for a token in its role. -/
inductive Call where
  | parse (text : Text)
  | parseLiteral (text : Text)
  | parseBody (text : Text)
  | readToken (role : Role) (token : Token)

namespace Call

/-- The text that is to be parsed. -/
def text : Call → Text
  | .parse text => text
  | .parseLiteral text => text
  | .parseBody text => text
  | .readToken _ token => token.text

/-- What the parsers answer. -/
def answer (definitions : Definitions) : Call → Except Error Term
  | .parse text => Term.parse definitions text
  | .parseLiteral text => Term.parseLiteral definitions text
  | .parseBody text => Term.parseBody definitions text
  | .readToken role token => (Phrase.readToken role token).resolve definitions

/-! ### One call -/

/-- One parameter in front of a body. -/
def abstract (param : Char) (body : Term) : Except Error Term :=
  if param.isLower then .ok (.abs param body) else .error (.invalidParameter param)

/-- One more argument behind a function. -/
def applyTo (ask : Call → Except Error Term) (role : Role) (function : Term) (token : Token) :
    Except Error Term := do
  let argument ← ask (.readToken role token)
  return .app function argument

/-- The tokens of a text, each asked for in turn and applied from the left. -/
def ofTokens (ask : Call → Except Error Term) (place : Place) (text : Text) : Except Error Term := do
  match ← Token.ofText text with
  | [] => .error (.emptyExpression text)
  | first :: later =>
    let head ← ask (.readToken place.first first)
    later.foldlM (applyTo ask place.later) head

/-- What one call comes to when `ask` answers the calls that it makes. -/
def step (definitions : Definitions) (ask : Call → Except Error Term) : Call → Except Error Term
  | .parse text =>
    match text.trim with
    | '$' :: rest => ask (.parseLiteral ('$' :: rest))
    | trimmed =>
      match unwrap? trimmed with
      | some inside => ask (.parse inside)
      | none => ofTokens ask .expression trimmed
  | .parseLiteral text =>
    match text.trim with
    | '$' :: rest => do
      let literal ← Literal.read rest
      let body ← ask (.parseBody literal.body)
      literal.params.foldrM abstract body
    | trimmed => ask (.parse trimmed)
  | .parseBody text =>
    match text.trim with
    | '$' :: rest => ask (.parseLiteral ('$' :: rest))
    | trimmed => ofTokens ask .body trimmed
  | .readToken role token =>
    match token.kind with
    | .group => ask (.parse token.inside)
    | .lambda => ask (.parseLiteral token.text)
    | .word => role.resolve definitions token.text

/-- The first call makes the second one: a case for each place where a parser calls another. -/
inductive Makes : Call → Call → Prop
  | expressionLiteral {text rest : Text} : text.trim = '$' :: rest →
      Makes (.parse text) (.parseLiteral ('$' :: rest))
  | expressionInside {text inside : Text} : (∀ rest, text.trim ≠ '$' :: rest) → unwrap? text.trim = some inside →
      Makes (.parse text) (.parse inside)
  | expressionToken {text : Text} {tokens : List Token} {token : Token} (role : Role) :
      (∀ rest, text.trim ≠ '$' :: rest) → unwrap? text.trim = none → Token.ofText text.trim = .ok tokens →
        token ∈ tokens → Makes (.parse text) (.readToken role token)
  | literalBody {text rest : Text} {literal : Literal} : text.trim = '$' :: rest →
      Literal.read rest = .ok literal → Makes (.parseLiteral text) (.parseBody literal.body)
  | literalExpression {text : Text} : (∀ rest, text.trim ≠ '$' :: rest) →
      Makes (.parseLiteral text) (.parse text.trim)
  | bodyLiteral {text rest : Text} : text.trim = '$' :: rest → Makes (.parseBody text) (.parseLiteral ('$' :: rest))
  | bodyToken {text : Text} {tokens : List Token} {token : Token} (role : Role) :
      (∀ rest, text.trim ≠ '$' :: rest) → Token.ofText text.trim = .ok tokens → token ∈ tokens →
        Makes (.parseBody text) (.readToken role token)
  | tokenExpression {token : Token} (role : Role) : token.kind = .group →
      Makes (.readToken role token) (.parse token.inside)
  | tokenLiteral {token : Token} (role : Role) : token.kind = .lambda →
      Makes (.readToken role token) (.parseLiteral token.text)

/-- A call that the parsers may get: a token comes from some text. -/
def Genuine : Call → Prop
  | .readToken _ token => ∃ text tokens, Token.ofText text = .ok tokens ∧ token ∈ tokens
  | _ => True

theorem Makes.genuine {caller callee : Call} (h : Makes caller callee) : callee.Genuine := by
  cases h with
  | expressionToken role _ _ htokens htoken => exact ⟨_, _, htokens, htoken⟩
  | bodyToken role _ htokens htoken => exact ⟨_, _, htokens, htoken⟩
  | _ => trivial

/-! ### A call asks only for the calls that it makes -/

variable {definitions : Definitions} {ask other : Call → Except Error Term}

theorem foldlM_applyTo_congr {role : Role} : ∀ {later : List Token},
    (∀ token ∈ later, ask (.readToken role token) = other (.readToken role token)) →
      ∀ head, later.foldlM (applyTo ask role) head = later.foldlM (applyTo other role) head
  | [], _, _ => rfl
  | token :: later, h, head => by
    have happly : applyTo ask role head token = applyTo other role head token := by
      rw [applyTo, applyTo, h token List.mem_cons_self]
    have ih := funext (foldlM_applyTo_congr fun token htoken => h token (List.mem_cons_of_mem _ htoken))
    rw [List.foldlM_cons, List.foldlM_cons, happly, ih]

theorem ofTokens_congr {place : Place} {text : Text}
    (h : ∀ tokens, Token.ofText text = .ok tokens → ∀ token ∈ tokens, ∀ role,
      ask (.readToken role token) = other (.readToken role token)) :
    ofTokens ask place text = ofTokens other place text := by
  unfold ofTokens
  cases htokens : Token.ofText text with
  | error error => rfl
  | ok tokens =>
    have hask := h tokens htokens
    cases tokens with
    | nil => rfl
    | cons first later =>
      have hfold := foldlM_applyTo_congr fun token htoken =>
        hask token (List.mem_cons_of_mem first htoken) place.later
      simp only [bind, Except.bind, hask first List.mem_cons_self, hfold]

theorem step_congr {call : Call} (h : ∀ callee, Makes call callee → ask callee = other callee) :
    step definitions ask call = step definitions other call := by
  cases call with
  | parse text =>
    simp only [step]
    split
    · rename_i rest htrim
      exact h _ (.expressionLiteral htrim)
    · rename_i hdollar
      split
      · rename_i inside hunwrap
        exact h _ (.expressionInside hdollar hunwrap)
      · rename_i hunwrap
        exact ofTokens_congr fun tokens htokens token htoken role =>
          h _ (.expressionToken role hdollar hunwrap htokens htoken)
  | parseLiteral text =>
    simp only [step]
    split
    · rename_i rest htrim
      cases hread : Literal.read rest with
      | error error => rfl
      | ok literal =>
        have hbody := h _ (.literalBody htrim hread)
        simp only [bind, Except.bind, hbody]
    · rename_i hdollar
      exact h _ (.literalExpression hdollar)
  | parseBody text =>
    simp only [step]
    split
    · rename_i rest htrim
      exact h _ (.bodyLiteral htrim)
    · rename_i hdollar
      exact ofTokens_congr fun tokens htokens token htoken role => h _ (.bodyToken role hdollar htokens htoken)
  | readToken role token =>
    simp only [step]
    split
    · rename_i hkind
      exact h _ (.tokenExpression role hkind)
    · rename_i hkind
      exact h _ (.tokenLiteral role hkind)
    · rfl

/-! ### The parsers answer each call from the calls that it makes -/

theorem resolve_foldl (role : Role) : ∀ (later : List Token) (function : Phrase),
    ((later.map (Phrase.readToken role)).foldl .apply function).resolve definitions =
      function.resolve definitions >>= fun head => later.foldlM (applyTo (answer definitions) role) head
  | [], function => by simp
  | token :: later, function => by
    rw [List.map_cons, List.foldl_cons, resolve_foldl role later]
    simp only [Phrase.resolve, List.foldlM_cons, applyTo, answer, bind_assoc, pure_bind]

theorem resolve_foldr (params : Text) (body : Phrase) :
    (params.foldr .lambda body).resolve definitions =
      body.resolve definitions >>= fun term => params.foldrM abstract term := by
  induction params with
  | nil => simp
  | cons param params ih =>
    simp only [List.foldr_cons, List.foldrM_cons, Phrase.resolve, ih, bind_assoc]
    rfl

theorem resolve_readLiteral (rest : Text) : (Phrase.readLiteral rest).resolve definitions =
    Literal.read rest >>= fun literal =>
      Term.parseBody definitions literal.body >>= fun body => literal.params.foldrM abstract body := by
  cases hread : Literal.read rest with
  | error error => rw [Phrase.readLiteral_of_error hread]; rfl
  | ok literal => rw [Phrase.readLiteral_of_ok hread, resolve_foldr]; rfl

/-- A text that is its tokens is answered token by token. -/
theorem resolve_read {place : Place} {text : Text} (hdollar : ∀ rest, text.trim ≠ '$' :: rest)
    (hunwrap : place.unwrap? text.trim = none) :
    (Phrase.read place text).resolve definitions = ofTokens (answer definitions) place text.trim := by
  unfold ofTokens
  cases htokens : Token.ofText text.trim with
  | error error => rw [Phrase.read_of_error hdollar hunwrap htokens]; rfl
  | ok tokens =>
    cases tokens with
    | nil => rw [Phrase.read_of_nil hdollar hunwrap htokens]; rfl
    | cons first later =>
      rw [Phrase.read_of_tokens hdollar hunwrap htokens, Phrase.spine, resolve_foldl]
      rfl

/-- A text with the dollar sign in front is the same literal for all. -/
theorem answer_literal {text rest : Text} (htrim : text.trim = '$' :: rest) (place : Place) :
    answer definitions (.parseLiteral ('$' :: rest)) = (Phrase.read place text).resolve definitions := by
  have hagain : Text.trim ('$' :: rest) = '$' :: rest := by
    rw [← htrim]
    exact (Text.trimmed_trim text).trim_eq
  rw [answer, Term.parseLiteral_eq_parse, Term.parse, Phrase.read_of_dollar hagain, Phrase.read_of_dollar htrim]

theorem step_answer {call : Call} (hgenuine : call.Genuine) :
    step definitions (answer definitions) call = call.answer definitions := by
  cases call with
  | parse text =>
    simp only [step]
    split
    · rename_i rest htrim
      exact answer_literal htrim .expression
    · rename_i hdollar
      split
      · rename_i inside hunwrap
        have hplace : Place.expression.unwrap? text.trim = some inside := hunwrap
        rw [answer, answer, Term.parse, Term.parse, Phrase.read_of_unwrap hdollar hplace]
      · rename_i hunwrap
        have hplace : Place.expression.unwrap? text.trim = none := hunwrap
        exact (resolve_read hdollar hplace).symm
  | parseLiteral text =>
    simp only [step]
    split
    · rename_i rest htrim
      rw [answer, Term.parseLiteral_eq_parse, Term.parse, Phrase.read_of_dollar htrim, resolve_readLiteral]
      rfl
    · rw [answer, answer, Term.parseLiteral_eq_parse, Term.parse, Term.parse, Phrase.read_trim]
  | parseBody text =>
    simp only [step]
    split
    · rename_i rest htrim
      exact answer_literal htrim .body
    · rename_i hdollar
      exact (resolve_read hdollar rfl).symm
  | readToken role token =>
    simp only [step, answer]
    split
    · rename_i hkind
      rw [Phrase.readToken_of_group hkind]
      rfl
    · rename_i hkind
      obtain ⟨source, tokens, htokens, htoken⟩ := hgenuine
      have hkind' : Token.kind ⟨token.text, 0⟩ = .lambda := hkind
      rw [Term.parseLiteral_eq_parse, Term.parse, Phrase.read_of_token (Token.ofText_of_mem htokens htoken),
        Phrase.readToken_of_lambda hkind', Phrase.readToken_of_lambda hkind]
    · rename_i hkind
      rw [Phrase.readToken_of_word hkind]
      rfl

/-! ### Every call goes down -/

/-- A bound for how deep calls are nested below a call. The text counts most. For one text the order is: a literal
    without the dollar sign, an expression or body, a token, a literal with the sign. -/
def depth : Call → Nat
  | .parse text => 4 * text.length + 2
  | .parseLiteral text => 4 * text.length + if text.trim.head? = some '$' then 0 else 3
  | .parseBody text => 4 * text.length + 2
  | .readToken _ token => 4 * token.text.length + 1

theorem depth_le (call : Call) : call.depth ≤ 4 * call.text.length + 3 := by
  cases call with
  | parseLiteral text =>
    simp only [depth, Call.text]
    split <;> omega
  | _ => simp only [depth, Call.text]; omega

theorem depth_of_dollar (rest : Text) : depth (.parseLiteral ('$' :: rest)) = 4 * (rest.length + 1) := by
  have hhead : (Text.trim ('$' :: rest)).head? = some '$' := Text.head?_trim (by decide) rest
  rw [depth, if_pos hhead, List.length_cons, Nat.add_zero]

theorem Makes.depth_lt {caller callee : Call} (h : Makes caller callee) : callee.depth < caller.depth := by
  cases h with
  | @expressionLiteral text rest htrim =>
    have hlength := Text.length_trim_le text
    rw [htrim, List.length_cons] at hlength
    rw [depth_of_dollar, depth]
    omega
  | @expressionInside text inside _ hunwrap =>
    have hlength := Text.length_trim_le text
    have := length_unwrap?_lt hunwrap
    simp only [depth]
    omega
  | @expressionToken text tokens token role _ _ htokens htoken =>
    have hlength := Text.length_trim_le text
    have := Token.length_le_of_mem_ofText htokens htoken
    simp only [depth]
    omega
  | @literalBody text rest literal htrim hread =>
    have hlength := Text.length_trim_le text
    have := Literal.length_body_le hread
    simp only [htrim, List.length_cons] at hlength
    simp only [depth]
    omega
  | @literalExpression text hdollar =>
    have hlength := Text.length_trim_le text
    have hhead : text.trim.head? ≠ some '$' := by
      intro hhead
      obtain ⟨rest, hrest⟩ := List.head?_eq_some_iff.1 hhead
      exact hdollar rest hrest
    simp only [depth, if_neg hhead]
    omega
  | @bodyLiteral text rest htrim =>
    have hlength := Text.length_trim_le text
    rw [htrim, List.length_cons] at hlength
    rw [depth_of_dollar, depth]
    omega
  | @bodyToken text tokens token role _ htokens htoken =>
    have hlength := Text.length_trim_le text
    have := Token.length_le_of_mem_ofText htokens htoken
    simp only [depth]
    omega
  | tokenExpression role hkind =>
    have := Token.length_inside_lt hkind
    simp only [depth]
    omega
  | @tokenLiteral token role hkind =>
    obtain ⟨rest, hrest⟩ := List.head?_eq_some_iff.1 ((Token.kind_eq_lambda_iff token).1 hkind)
    rw [hrest, depth_of_dollar, depth, hrest, List.length_cons]
    omega

/-- No chain of calls goes on for ever. -/
theorem wellFounded_makes : WellFounded fun callee caller => Makes caller callee :=
  Subrelation.wf Makes.depth_lt (measure depth).wf

/-- Calls nested deep enough are never reached, whatever they would answer. -/
theorem iterate_step (start : Call → Except Error Term) : ∀ {count : Nat} {call : Call}, call.Genuine →
    call.depth < count → (step definitions)^[count] start call = call.answer definitions
  | 0, _, _, h => absurd h (Nat.not_lt_zero _)
  | count + 1, call, hgenuine, h => by
    rw [Function.iterate_succ_apply', ← step_answer hgenuine]
    refine step_congr fun callee hmakes => iterate_step start hmakes.genuine ?_
    have := hmakes.depth_lt
    omega

end Call

end LambdaArrow
