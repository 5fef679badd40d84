import LambdaArrow.Proofs.Partners

/-! Cutting a text into tokens loses nothing. The tokens stand in the text one behind the other, at the bytes
    that they name, and between them are only blanks. A token goes on to the first blank outside parentheses,
    or to the closing parenthesis that leaves them, so no such place is inside a token:

        é (a b)c      ──▶ `é` at 0, `(a b)` at 3, `c` at 8

    Two tokens touch only where the first one ends with its parenthesis. And a token that starts with a
    parenthesis ends with the partner of it, so a group has an inside. -/

namespace LambdaArrow

theorem Text.byteLength_pos {text : Text} (h : text ≠ []) : 0 < Text.byteLength text := by
  obtain ⟨c, cs, rfl⟩ := List.exists_cons_of_ne_nil h
  have := c.utf8Size_pos
  simp only [byteLength_cons]
  omega

namespace Token

open Balance

/-! ### Tokens in order -/

/-- The number of bytes before the end of a token. -/
def stop (token : Token) : Nat := token.place + Text.byteLength token.text

namespace Cuts

variable {place : Nat} {text : Text} {tokens : List Token}

theorem place_le (h : Cuts place text tokens) : ∀ token ∈ tokens, place ≤ token.place := by
  intro token htoken
  obtain ⟨-, -, before, after, -, hplace⟩ := h.exists_append token htoken
  omega

theorem pairwise (h : Cuts place text tokens) :
    tokens.Pairwise fun first second => first.place < second.place ∧ first.stop ≤ second.place := by
  induction h with
  | nil => exact .nil
  | blank _ _ ih => exact ih
  | @token place piece rest tokens hne _ _ hcuts ih =>
    refine List.pairwise_cons.2 ⟨fun token htoken => ?_, ih⟩
    have hplace := hcuts.place_le token htoken
    have hpos := Text.byteLength_pos hne
    exact ⟨by dsimp only; omega, hplace⟩

/-- A character that no token holds is blank. -/
theorem isBlank_of_outside (h : Cuts place text tokens) : ∀ before c after, text = before ++ c :: after →
      (∀ token ∈ tokens, ¬(token.place ≤ place + Text.byteLength before ∧
        place + Text.byteLength before < token.stop)) → Text.isBlank c := by
  induction h with
  | nil => simp
  | @blank place d text tokens hd _ ih =>
    rintro (_ | ⟨b, before⟩) c after heq houtside
    · simp only [List.nil_append, List.cons.injEq] at heq
      exact heq.1 ▸ hd
    · simp only [List.cons_append, List.cons.injEq] at heq
      obtain ⟨rfl, heq⟩ := heq
      exact ih before c after heq (by simpa [Nat.add_assoc] using houtside)
  | @token place piece rest tokens _ _ _ _ ih =>
    intro before c after heq houtside
    have hfirst := houtside ⟨piece, place⟩ List.mem_cons_self
    simp only [stop, Nat.le_add_right, true_and, not_lt, Nat.add_le_add_iff_left] at hfirst
    rcases List.append_eq_append_iff.1 heq with ⟨between, rfl, hrest⟩ | ⟨held, rfl, hrest⟩
    · refine ih between c after hrest fun token htoken => ?_
      simpa [Nat.add_assoc] using houtside token (List.mem_cons_of_mem _ htoken)
    · -- the first token would hold the character, unless it ends just before it
      have hheld : held = [] := by
        by_contra hne
        have := Text.byteLength_pos hne
        rw [Text.byteLength_append] at hfirst
        omega
      subst hheld
      refine ih [] c after hrest.symm fun token htoken => ?_
      simpa using houtside token (List.mem_cons_of_mem _ htoken)

/-- A token that another one touches ends with a parenthesis. -/
theorem isChain (h : Cuts place text tokens) :
    tokens.IsChain fun first second => first.stop = second.place → first.text.getLast? = some ')' := by
  induction h with
  | nil => exact .nil
  | blank _ _ ih => exact ih
  | @token place piece rest tokens _ _ hends hcuts ih =>
    refine List.isChain_cons.2 ⟨fun token htoken htouch => ?_, ih⟩
    rcases hends with hlast | hblank
    · exact hlast
    · -- the text behind starts with a blank, and no token does
      exfalso
      obtain ⟨hne, hunbroken, before, after, rfl, hplace⟩ :=
        hcuts.exists_append token (List.mem_of_mem_head? htoken)
      have hbefore : before = [] := by
        by_contra hne
        have := Text.byteLength_pos hne
        simp only [stop] at htouch
        omega
      obtain ⟨c, cs, htext⟩ := List.exists_cons_of_ne_nil hne
      have hc := hunbroken.solid [] c cs htext rfl
      have hc' := hblank c (by simp [hbefore, htext])
      rw [hc] at hc'
      cases hc'

end Cuts

/-! ### Kinds -/

theorem Unbroken.kind_eq_group_iff {token : Token} (h : Unbroken 0 token.text) :
    token.kind = .group ↔ token.text.head? = some '(' := by
  constructor
  · intro hkind
    by_contra hhead
    unfold kind at hkind
    simp only [hhead, false_and, if_false] at hkind
    split at hkind <;> cases hkind
  · intro hhead
    obtain ⟨inner, htext, -⟩ := h.exists_parens hhead
    obtain ⟨text, place⟩ := token
    subst htext
    exact kind_parens inner place

/-! ### The tokens of a text -/

/-- A text that stands as one token: its parentheses match, it has no blank outside them, and it leaves them
    by a closing parenthesis only at its end. -/
structure OneToken (text : Text) : Prop where
  ne_nil : text ≠ []
  matched : Matched text
  solid : ∀ before c after, text = before ++ c :: after → Matched before → Text.isBlank c = false
  closesLast : ∀ before after, text = before ++ ')' :: after → Matched (before ++ [')']) → after = []

theorem Unbroken.oneToken {text : Text} (h : Unbroken 0 text) (hne : text ≠ []) : OneToken text :=
  ⟨hne, balanced_iff_matched.1 h.closed,
    fun before c after heq hbefore => h.solid before c after heq (balanced_iff_matched.2 hbefore),
    fun before after heq hbefore => h.closesLast before after heq (balanced_iff_matched.2 hbefore)⟩

/-- CORRECT: the tokens are whole stretches of the text at the bytes they name, in order and apart from each
    other, and all else is blank. Two of them touch only behind a closing parenthesis. The kind is told by the
    first character, and a group is a pair of partners with a balanced inside. -/
theorem ofText_segments {text : Text} {tokens : List Token} (h : ofText text = .ok tokens) :
    (∀ token ∈ tokens, token.place < token.stop ∧ token.stop ≤ Text.byteLength text ∧
      (∃ before after, text = before ++ token.text ++ after ∧ token.place = Text.byteLength before ∧
        token.stop = Text.byteLength (before ++ token.text)) ∧
      OneToken token.text) ∧
    tokens.Pairwise (fun first second => first.place < second.place ∧ first.stop ≤ second.place) ∧
    (∀ before c after, text = before ++ c :: after →
      (∀ token ∈ tokens,
        ¬(token.place ≤ Text.byteLength before ∧ Text.byteLength before < token.stop)) →
      Text.isBlank c) ∧
    tokens.IsChain (fun first second => first.stop = second.place → first.text.getLast? = some ')') ∧
    ∀ token ∈ tokens,
      (token.kind = .group ↔ token.text.head? = some '(') ∧
      (token.kind = .lambda ↔ token.text.head? = some '$') ∧
      (token.kind = .group → Partners token.text 0 (token.text.length - 1) ∧
        ∃ inner, token.text = Term.parens inner ∧ token.inside = Text.trim inner ∧ Matched token.inside) := by
  have hcuts := cuts_of_ofText h
  refine ⟨fun token htoken => ?_, hcuts.pairwise, ?_, hcuts.isChain, fun token htoken => ?_⟩
  · obtain ⟨hne, hunbroken, before, after, rfl, hplace⟩ := hcuts.exists_append token htoken
    rw [Nat.zero_add] at hplace
    have hpos := Text.byteLength_pos hne
    have hstop : token.stop = Text.byteLength (before ++ token.text) := by
      rw [stop, hplace, Text.byteLength_append]
    refine ⟨by rw [stop]; omega, ?_, ⟨before, after, rfl, hplace, hstop⟩, hunbroken.oneToken hne⟩
    rw [hstop, Text.byteLength_append (before ++ token.text)]
    omega
  · simpa using hcuts.isBlank_of_outside
  · obtain ⟨-, hunbroken, -⟩ := hcuts.exists_append token htoken
    refine ⟨hunbroken.kind_eq_group_iff, kind_eq_lambda_iff token, fun hkind => ?_⟩
    obtain ⟨inner, htext, hinner⟩ := hunbroken.exists_parens (hunbroken.kind_eq_group_iff.1 hkind)
    have hinside : token.inside = Text.trim inner := by simp [Token.inside, htext, Term.parens]
    refine ⟨⟨[], inner, [], by simp [htext, Term.parens], balanced_iff_matched.1 hinner, rfl, ?_⟩,
      inner, htext, hinside, ?_⟩
    · simp [htext, Term.parens]
    · rw [hinside, ← balanced_iff_matched, balanced_trim]
      exact hinner

/-- Behind a letter of two bytes a group stands at byte three, and the next token touches it. -/
theorem ofText_segments_touching :
    ofText "é (a b)c".toList = .ok [⟨"é".toList, 0⟩, ⟨"(a b)".toList, 3⟩, ⟨"c".toList, 8⟩] ∧
    OneToken "(a b)".toList ∧ Partners "(a b)".toList 0 4 ∧
    [(⟨"é".toList, 0⟩ : Token), ⟨"(a b)".toList, 3⟩, ⟨"c".toList, 8⟩].IsChain
      fun first second => first.stop = second.place → first.text.getLast? = some ')' := by
  have htokens : ofText "é (a b)c".toList =
      .ok [⟨"é".toList, 0⟩, ⟨"(a b)".toList, 3⟩, ⟨"c".toList, 8⟩] := by decide
  obtain ⟨hwhole, -, -, hchain, hkinds⟩ := ofText_segments htokens
  have hmem : (⟨"(a b)".toList, 3⟩ : Token) ∈
      [(⟨"é".toList, 0⟩ : Token), ⟨"(a b)".toList, 3⟩, ⟨"c".toList, 8⟩] := by decide
  exact ⟨htokens, (hwhole _ hmem).2.2.2, ((hkinds _ hmem).2.2 (by decide)).1, hchain⟩

end Token

end LambdaArrow
