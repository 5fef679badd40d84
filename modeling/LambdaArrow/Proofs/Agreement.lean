import LambdaArrow.Proofs.Wrapping

/-! The three parsers agree. A text that starts with a dollar sign is one literal for each of them. Any other
    is its tokens, and only the words among these are treated differently: as an expression they must be
    defined, as a lambda body they are taken as written. What is inside a group or a literal is read alike.
    So an expression is a lambda body whose words are all defined, and it fails at the first that is not:

        ($x.Later) Zero      a body as it is, an expression where `Zero` is defined -/

namespace LambdaArrow

open Balance

/-! ### One run that asks for more -/

/-- A failure at a word among `tokens` that is not defined. -/
def Error.Lacks (definitions : Definitions) (tokens : List Token) (error : Error) : Prop :=
  ∃ token ∈ tokens, token.kind = .word ∧ token.text ∉ definitions.keys ∧
    (error = .unknownName token.text ∨ error = .unknownArgument token.text)

namespace EndsLike

variable {definitions : Definitions} {tokens : List Token}

/-- In any role a token is what it is in a lambda body, or a word that is not defined. -/
theorem readToken {token : Token} (htoken : token ∈ tokens) (role : Role) :
    EndsLike (Error.Lacks definitions tokens) ((Phrase.readToken role token).resolve definitions)
      ((Phrase.readToken .verbatim token).resolve definitions) := by
  cases hkind : token.kind with
  | group => rw [Phrase.readToken_of_group hkind, Phrase.readToken_of_group hkind]; exact Or.inl rfl
  | lambda => rw [Phrase.readToken_of_lambda hkind, Phrase.readToken_of_lambda hkind]; exact Or.inl rfl
  | word =>
    rw [Phrase.readToken_of_word hkind, Phrase.readToken_of_word hkind]
    simp only [Phrase.resolve, Role.resolve]
    rcases letter? token.text with _ | name
    · obtain ⟨error, herror, hrefer⟩ := role.exists_refer token.text
      simp only [hrefer]
      split
      · exact Or.inl rfl
      · rename_i hmissing
        exact Or.inr ⟨error, rfl, token, htoken, hkind, fun hmem => hmissing (Or.inr hmem), herror⟩
    · exact Or.inl rfl

/-- Token by token from the left, an expression ends like the body of the same tokens. -/
theorem spine {first : Token} (hfirst : first ∈ tokens) (later : List Token) :
    (∀ token ∈ later, token ∈ tokens) →
    EndsLike (Error.Lacks definitions tokens) ((Phrase.spine .expression first later).resolve definitions)
      ((Phrase.spine .body first later).resolve definitions) := by
  induction later using List.reverseRecOn with
  | nil => exact fun _ => readToken hfirst .head
  | append_singleton later last ih =>
    intro hlater
    rw [Phrase.spine_concat, Phrase.spine_concat]
    have hfunction := ih fun token htoken => hlater token (by simp [htoken])
    refine hfunction.bind fun function => ?_
    exact (readToken (hlater last (by simp)) .argument).bind fun argument => Or.inl rfl

end EndsLike

namespace Term

variable {definitions : Definitions}

/-- A balanced text is read alike as an expression and as a lambda body, up to the words among its tokens. -/
theorem endsLike_of_balanced {text : Text} (h : Balanced text) :
    EndsLike (Error.Lacks definitions (Token.split text.trim)) (parse definitions text) (parseBody definitions text) := by
  have hbalanced := balanced_trim.2 h
  have htokens := Token.ofText_of_balanced hbalanced
  unfold parse parseBody
  by_cases hstart : ∃ rest, text.trim = '$' :: rest
  · obtain ⟨rest, hrest⟩ := hstart
    rw [Phrase.read_of_dollar hrest, Phrase.read_of_dollar hrest]
    exact Or.inl rfl
  · have hdollar : ∀ rest, text.trim ≠ '$' :: rest := fun rest hrest => hstart ⟨rest, hrest⟩
    rcases hsplit : Token.split text.trim with _ | ⟨first, later⟩
    · rw [hsplit] at htokens
      have hblank := Token.trim_eq_nil_of_ofText htokens
      rw [Phrase.read_of_blank hblank, Phrase.read_of_blank hblank]
      exact Or.inl rfl
    · rw [hsplit] at htokens
      rw [Phrase.read_eq_spine hdollar htokens, Phrase.read_eq_spine hdollar htokens]
      exact .spine List.mem_cons_self later fun token htoken => List.mem_cons_of_mem _ htoken

/-- CORRECT: a literal is parsed like an expression, and what parses as an expression is the same term as a
    lambda body. What parses as a lambda body is the same term as an expression, or a word of it is named that
    is not defined. -/
theorem parsers_agree (definitions : Definitions) (text : Text) :
    parseLiteral definitions text = parse definitions text ∧
    (∀ term, parse definitions text = .ok term → parseBody definitions text = .ok term) ∧
    ∀ term, parseBody definitions text = .ok term →
      parse definitions text = .ok term ∨
      ∃ tokens token, Token.ofText text.trim = .ok tokens ∧ token ∈ tokens ∧ token.kind = .word ∧
        token.text ∉ definitions.keys ∧
        (parse definitions text = .error (.unknownName token.text) ∨
          parse definitions text = .error (.unknownArgument token.text)) := by
  refine ⟨parseLiteral_eq_parse definitions text, fun term hterm => ?_, fun term hterm => ?_⟩
  · have hbalanced := Phrase.balanced_of_resolve.1 .expression text ⟨term, hterm⟩
    rcases endsLike_of_balanced hbalanced with heq | ⟨error, herror, -⟩
    · exact heq ▸ hterm
    · rw [herror] at hterm
      cases hterm
  · have hbalanced := Phrase.balanced_of_resolve.1 .body text ⟨term, hterm⟩
    rcases endsLike_of_balanced hbalanced with heq | ⟨error, herror, token, htoken, hkind, hmissing, hname⟩
    · exact Or.inl (heq.trans hterm)
    · refine Or.inr ⟨_, token, Token.ofText_of_balanced (balanced_trim.2 hbalanced), htoken, hkind,
        hmissing, ?_⟩
      rcases hname with rfl | rfl
      · exact Or.inl herror
      · exact Or.inr herror

/-- The group is read alike either way. The word behind it is an argument, which is defined in the second
    table and not in the first. -/
theorem parsers_agree_undefined_argument :
    (∃ tokens token, Token.ofText "(a) Zero".toList = .ok tokens ∧ token ∈ tokens ∧ token.kind = .word ∧
      token.text = "Zero".toList ∧ token.text ∉ (Table.empty : Definitions).keys) ∧
    parse Table.empty "(a) Zero".toList = .error (.unknownArgument "Zero".toList) ∧
    parseBody (Table.empty.insert "Zero".toList []) "(a) Zero".toList =
      .ok (.app (.var 'a') (.ref "Zero".toList)) := by
  have hbody : parseBody Table.empty "(a) Zero".toList =
      .ok (.app (.var 'a') (.ref "Zero".toList)) := by cbv
  have hfails : parse Table.empty "(a) Zero".toList = .error (.unknownArgument "Zero".toList) := by cbv
  have hparse : parse (Table.empty.insert "Zero".toList []) "(a) Zero".toList =
      .ok (.app (.var 'a') (.ref "Zero".toList)) := by cbv
  refine ⟨?_, hfails, (parsers_agree (Table.empty.insert "Zero".toList []) "(a) Zero".toList).2.1 _ hparse⟩
  rcases (parsers_agree Table.empty "(a) Zero".toList).2.2 _ hbody with
    hsame | ⟨tokens, token, htokens, hmem, hkind, hmissing, hname | hname⟩
  · rw [hfails] at hsame
    cases hsame
  · rw [hfails] at hname
    cases hname
  · rw [hfails] at hname
    have htext : "Zero".toList = token.text := Error.unknownArgument.inj (Except.error.inj hname)
    exact ⟨tokens, token, htokens, hmem, hkind, htext.symm, hmissing⟩

end Term

end LambdaArrow
