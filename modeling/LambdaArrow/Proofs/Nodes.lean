import LambdaArrow.Proofs.Calls

/-! How large a parsed term can be. Every node is paid for by a character of the text: a variable, a name and a
    parameter by themselves, and an application by what stands between its two sides. That is a blank, or where
    tokens touch the parenthesis that closes the first of them:

        a b        ──▶ 3 nodes, the application is the blank
        (a)b       ──▶ 3 nodes, the application is the `)`
        $x.x       ──▶ 2 nodes, and two characters to spare

    So a token that ends with a parenthesis has a character to spare, and the tokens of a text, counted with one
    application behind each, are at most one more than its characters. -/

namespace LambdaArrow

/-- How many variables, names, abstractions and applications a term is made of. -/
def Term.nodes : Term → Nat
  | .var _ => 1
  | .ref _ => 1
  | .abs _ body => body.nodes + 1
  | .app function argument => function.nodes + argument.nodes + 1

/-! ### Tokens of a text -/

/-- What a token may weigh: one for each character, and less when it ends with a parenthesis. -/
def Token.Pays (token : Token) (weight : Nat) : Prop :=
  weight ≤ token.text.length ∧ (token.text.getLast? = some ')' → weight < token.text.length)

/-- A token is balanced, so it is no closing parenthesis alone. -/
theorem Token.Unbroken.pays_one {token : Token} (h : Unbroken 0 token.text) (hne : token.text ≠ []) :
    token.Pays 1 := by
  refine ⟨List.length_pos_iff.2 hne, fun hlast => ?_⟩
  obtain ⟨before, hbefore⟩ := List.getLast?_eq_some_iff.1 hlast
  rcases before with _ | ⟨c, before⟩
  · have hclosed := h.closed
    simp [hbefore] at hclosed
  · simp [hbefore]

/-- Tokens with one more for each are at most one more than their text, and no more when a blank is in front. -/
theorem Token.Cuts.sum_weight_le {weight : Token → Nat} {place : Nat} {text : Text} {tokens : List Token}
    (h : Cuts place text tokens) : (∀ token ∈ tokens, token.Pays (weight token)) →
      (tokens.map fun token => weight token + 1).sum ≤ text.length + 1 ∧
      ((∀ c ∈ text.head?, Text.isBlank c) → (tokens.map fun token => weight token + 1).sum ≤ text.length) := by
  induction h with
  | nil => simp
  | blank _ _ ih =>
    intro hpays
    have hlater := (ih hpays).1
    rw [List.length_cons]
    exact ⟨by omega, fun _ => hlater⟩
  | @token place piece rest tokens hne hpiece hends _ ih =>
    intro hpays
    obtain ⟨hweight, hspare⟩ := hpays _ List.mem_cons_self
    obtain ⟨hlater, hblank⟩ := ih fun token htoken => hpays token (List.mem_cons_of_mem _ htoken)
    rw [List.map_cons, List.sum_cons, List.length_append]
    constructor
    · -- the application behind the token is paid for by its parenthesis, or by the blank behind it
      rcases hends with hlast | hrest
      · have := hspare hlast
        dsimp only at this
        omega
      · have := hblank hrest
        dsimp only at hweight
        omega
    · intro hhead
      obtain ⟨c, cs, rfl⟩ := List.exists_cons_of_ne_nil hne
      have hsolid := hpiece.solid [] c cs rfl rfl
      rw [hhead c rfl] at hsolid
      cases hsolid

namespace Phrase

/-- How many nodes the term of a phrase has. -/
def nodes : Phrase → Nat
  | .word _ _ => 1
  | .lambda _ body => body.nodes + 1
  | .apply function argument => function.nodes + argument.nodes + 1
  | .fault _ => 0

theorem nodes_of_resolve {definitions : Definitions} (phrase : Phrase) : ∀ {term : Term},
    phrase.resolve definitions = .ok term → term.nodes = phrase.nodes := by
  induction phrase with
  | word role text =>
    intro term h
    rcases Role.of_resolve h with ⟨name, -, -, rfl⟩ | ⟨-, rfl⟩ <;> rfl
  | lambda param body ih =>
    intro term h
    obtain ⟨inner, hinner, rfl⟩ := of_resolve_lambda h
    rw [Term.nodes, nodes, ih hinner]
  | apply function argument ihfunction ihargument =>
    intro term h
    obtain ⟨left, right, hleft, hright, rfl⟩ := of_resolve_apply h
    rw [Term.nodes, nodes, ihfunction hleft, ihargument hright]
  | fault error =>
    intro term h
    cases h

theorem nodes_foldr (params : Text) (body : Phrase) :
    (params.foldr lambda body).nodes = params.length + body.nodes := by
  induction params with
  | nil => simp
  | cons param params ih =>
    rw [List.foldr_cons, nodes, ih, List.length_cons]
    omega

theorem nodes_foldl (arguments : List Phrase) : ∀ function : Phrase,
    (arguments.foldl apply function).nodes =
      function.nodes + (arguments.map fun argument => argument.nodes + 1).sum := by
  induction arguments with
  | nil => intro function; simp
  | cons argument arguments ih =>
    intro function
    rw [List.foldl_cons, ih, nodes, List.map_cons, List.sum_cons]
    omega

/-- The role of a token has no part in its size. -/
theorem nodes_readToken (role other : Role) (token : Token) :
    (readToken role token).nodes = (readToken other token).nodes := by
  cases hkind : token.kind with
  | group => rw [readToken_of_group hkind, readToken_of_group hkind]
  | lambda => rw [readToken_of_lambda hkind, readToken_of_lambda hkind]
  | word => rw [readToken_of_word hkind, readToken_of_word hkind]; rfl

theorem nodes_spine (place : Place) (first : Token) (later : List Token) :
    (spine place first later).nodes + 1 =
      ((first :: later).map fun token => (readToken .head token).nodes + 1).sum := by
  have hlater : ∀ token, (readToken place.later token).nodes = (readToken .head token).nodes :=
    nodes_readToken _ _
  rw [spine, nodes_foldl, List.map_map, List.map_cons, List.sum_cons, nodes_readToken place.first .head]
  simp only [Function.comp_def, hlater]
  omega

/-- A phrase is no larger than the text it is read from, and a token that ends with a parenthesis has a character
    to spare. -/
theorem nodes_read_le :
    (∀ (place : Place) (text : Text), (read place text).nodes ≤ text.trim.length) ∧
    (∀ (role : Role) (token : Token), token.text ≠ [] → Token.Unbroken 0 token.text →
      token.Pays (readToken role token).nodes) ∧
    ∀ rest : Text, (readLiteral rest).nodes ≤ rest.length := by
  refine read.mutual_induct _ _ _ ?_ ?_ ?_ ?_ ?_ ?_ ?_ ?_ ?_ ?_
  · intro place text rest htrim ih
    rw [read_of_dollar htrim, htrim, List.length_cons]
    omega
  · intro place text inside hdollar hunwrap ih
    have hinside := place.length_unwrap?_lt hunwrap
    have htrim := Text.length_trim_le inside
    rw [read_of_unwrap hdollar hunwrap]
    omega
  · intro place text error hdollar hunwrap htokens
    rw [read_of_error hdollar hunwrap htokens]
    exact Nat.zero_le _
  · intro place text hdollar hunwrap htokens
    rw [read_of_nil hdollar hunwrap htokens]
    exact Nat.zero_le _
  · intro place text first later hdollar hunwrap htokens ihfirst ihlater
    have hcuts := Token.cuts_of_ofText htokens
    have hpays : ∀ token ∈ first :: later, token.Pays (readToken .head token).nodes := by
      intro token htoken
      obtain ⟨hne, hunbroken, -⟩ := hcuts.exists_append token htoken
      rcases List.mem_cons.1 htoken with rfl | hmem
      · rw [nodes_readToken .head place.first]
        exact ihfirst hne hunbroken
      · rw [nodes_readToken .head place.later]
        exact ihlater ⟨token, hmem⟩ hne hunbroken
    have hsum := (hcuts.sum_weight_le hpays).1
    rw [← nodes_spine place] at hsum
    rw [read_of_tokens hdollar hunwrap htokens]
    omega
  · intro role token hkind ih _ _
    have hinside := Token.length_inside_lt hkind
    have htrim := Text.length_trim_le token.inside
    rw [readToken_of_group hkind]
    exact ⟨by omega, fun _ => by omega⟩
  · intro role token hkind ih _ _
    have htail := Token.length_tail_lt hkind
    rw [readToken_of_lambda hkind]
    exact ⟨by omega, fun _ => by omega⟩
  · intro role token hkind hne hunbroken
    rw [readToken_of_word hkind]
    exact hunbroken.pays_one hne
  · intro rest error hread
    rw [readLiteral_of_error hread]
    exact Nat.zero_le _
  · intro rest literal hread ih
    have hlength := Literal.length_params_add_le hread
    have htrim := Text.length_trim_le literal.body
    rw [readLiteral_of_ok hread, nodes_foldr]
    omega

end Phrase

namespace Call

theorem nodes_le {definitions : Definitions} {call : Call} {term : Term} (hgenuine : call.Genuine)
    (h : call.answer definitions = .ok term) : term.nodes ≤ call.text.trim.length := by
  obtain ⟨hread, htoken, -⟩ := Phrase.nodes_read_le
  cases call with
  | parse text =>
    rw [Phrase.nodes_of_resolve _ h]
    exact hread .expression text
  | parseLiteral text =>
    rw [answer, Term.parseLiteral_eq_parse] at h
    rw [Phrase.nodes_of_resolve _ h]
    exact hread .expression text
  | parseBody text =>
    rw [Phrase.nodes_of_resolve _ h]
    exact hread .body text
  | readToken role token =>
    obtain ⟨source, tokens, htokens, hmem⟩ := hgenuine
    obtain ⟨hne, hunbroken, -⟩ := (Token.cuts_of_ofText htokens).exists_append token hmem
    rw [Phrase.nodes_of_resolve _ h, text, hunbroken.trimmed.trim_eq]
    exact (htoken role token hne hunbroken).1

/-- CORRECT: no chain of calls among the parsers goes on for ever. What a call comes to depends only on the calls
    that it makes, and the answers of the parsers are what the calls come to when they are nested as deep as the text
    allows, whatever is put in for deeper ones. A parsed term has no more nodes than its trimmed text has
    characters. -/
theorem answer_terminates_linear (definitions : Definitions) :
    (WellFounded fun callee caller => Makes caller callee) ∧
    (∀ call ask other, (∀ callee, Makes call callee → ask callee = other callee) →
      step definitions ask call = step definitions other call) ∧
    ∀ call : Call, call.Genuine →
      (∀ start count, 4 * call.text.length + 4 ≤ count →
        (step definitions)^[count] start call = call.answer definitions) ∧
      ∀ term, call.answer definitions = .ok term → term.nodes ≤ call.text.trim.length := by
  refine ⟨wellFounded_makes, fun call ask other h => step_congr h, fun call hgenuine => ⟨?_, ?_⟩⟩
  · intro start count hcount
    have hdepth := call.depth_le
    exact iterate_step start hgenuine (by omega)
  · intro term h
    exact nodes_le hgenuine h

/-- A word makes no calls, so it is answered with nobody to ask. Tokens that touch are asked for one by one, and the
    application between them costs the parenthesis. -/
theorem answer_terminates_linear_touching :
    let nobody : Call → Except Error Term := fun call => .error (.emptyExpression call.text)
    let term : Term := .app (.var 'a') (.var 'b')
    Token.ofText "(a)b".toList = .ok [⟨"(a)".toList, 0⟩, ⟨"b".toList, 3⟩] ∧
    step ⟨[]⟩ nobody (.readToken .argument ⟨"b".toList, 3⟩) = .ok (.var 'b') ∧
    (step ⟨[]⟩)^[20] nobody (.parse "(a)b".toList) = .ok term ∧ term.nodes ≤ 4 ∧
    (step ⟨[]⟩)^[16] nobody (.readToken .head ⟨"(a)".toList, 0⟩) = .ok (.var 'a') ∧ (Term.var 'a').nodes ≤ 3 := by
  intro nobody term
  have htokens : Token.ofText "(a)b".toList = .ok [⟨"(a)".toList, 0⟩, ⟨"b".toList, 3⟩] := by decide
  obtain ⟨-, hcongr, hanswer⟩ := answer_terminates_linear ⟨[]⟩
  have hword : step ⟨[]⟩ (answer ⟨[]⟩) (.readToken .argument ⟨"b".toList, 3⟩) = .ok (.var 'b') := by cbv
  have hsilent : ∀ callee, Makes (.readToken .argument ⟨"b".toList, 3⟩) callee →
      nobody callee = answer ⟨[]⟩ callee := by
    intro callee hmakes
    cases hmakes with
    | tokenExpression _ hkind => exact absurd hkind (by decide)
    | tokenLiteral _ hkind => exact absurd hkind (by decide)
  obtain ⟨hwhole, hnodes⟩ := hanswer (.parse "(a)b".toList) trivial
  obtain ⟨hgroup, hinside⟩ := hanswer (.readToken .head ⟨"(a)".toList, 0⟩) ⟨_, _, htokens, List.mem_cons_self⟩
  have hterm : answer ⟨[]⟩ (.parse "(a)b".toList) = .ok term := by cbv
  have hvar : answer ⟨[]⟩ (.readToken .head ⟨"(a)".toList, 0⟩) = .ok (.var 'a') := by cbv
  exact ⟨htokens, (hcongr _ _ _ hsilent).trans hword, (hwhole nobody 20 (by decide)).trans hterm, hnodes term hterm,
    (hgroup nobody 16 (by decide)).trans hvar, hinside _ hvar⟩

end Call

end LambdaArrow
