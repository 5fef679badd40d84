import LambdaArrow.Proofs.Splitting
import LambdaArrow.Proofs.Trimming

/-! What the tokens of a text are. A token goes on to the first blank outside parentheses, or to the closing
    parenthesis that leaves them, so no such place is inside a token and the tokens of a balanced text are
    balanced, also a word with parentheses in it. The tokens stand one behind the other, each a stretch of the
    text that starts with a character that is no blank, and only a blank text has none:

        f (g a)b      ──▶ `f`, `(g a)`, `b`
        g(a b) c      ──▶ `g(a b)`, `c` -/

namespace LambdaArrow.Token

open Balance

/-! ### Texts that nothing cuts -/

/-- The rest of a token under `depth` open parentheses: it ends outside them, has no blank there, and closes
    the last of them only with its last character. -/
structure Unbroken (depth : Nat) (text : Text) : Prop where
  closed : level depth text = some 0
  solid : ∀ before c after, text = before ++ c :: after → level depth before = some 0 →
    Text.isBlank c = false
  closesLast : ∀ before after, text = before ++ ')' :: after → level depth (before ++ [')']) = some 0 →
    after = []

theorem Unbroken.nil : Unbroken 0 [] :=
  ⟨rfl, by simp, by simp⟩

theorem Unbroken.closing : Unbroken 1 [')'] := by
  refine ⟨rfl, ?_, ?_⟩
  · rintro (_ | ⟨b, before⟩) c after heq hlevel
    · simp at hlevel
    · simp at heq
  · rintro (_ | ⟨b, before⟩) after heq -
    · simpa using heq
    · simp at heq

/-- One more character in front, which leads from `depth` to `inner` and does not end the token. -/
theorem Unbroken.cons {depth inner : Nat} {c : Char} {text : Text} (h : Unbroken inner text)
    (hlevel : ∀ cs, level depth (c :: cs) = level inner cs) (hblank : depth = 0 → Text.isBlank c = false)
    (hclosing : c = ')' → inner ≠ 0) : Unbroken depth (c :: text) := by
  refine ⟨(hlevel text).trans h.closed, ?_, ?_⟩
  · rintro (_ | ⟨b, before⟩) d after heq hbefore
    · simp only [List.nil_append, List.cons.injEq] at heq
      simp only [level_nil, Option.some.injEq] at hbefore
      exact heq.1 ▸ hblank hbefore
    · simp only [List.cons_append, List.cons.injEq] at heq
      obtain ⟨rfl, heq⟩ := heq
      exact h.solid before d after heq (hlevel before ▸ hbefore)
  · rintro (_ | ⟨b, before⟩) after heq hbefore
    · simp only [List.nil_append, List.cons.injEq] at heq
      rw [List.nil_append, ← heq.1, hlevel, level_nil, Option.some.injEq] at hbefore
      exact absurd hbefore (hclosing heq.1)
    · simp only [List.cons_append, List.cons.injEq] at heq
      obtain ⟨rfl, heq⟩ := heq
      exact h.closesLast before after heq (hlevel (before ++ [')']) ▸ hbefore)

/-- With a parenthesis at its start a token ends with the partner of it. -/
theorem Unbroken.exists_parens {text : Text} (h : Unbroken 0 text) (hhead : text.head? = some '(') :
    ∃ inner, text = Term.parens inner ∧ Balanced inner := by
  obtain ⟨cs, rfl⟩ := List.head?_eq_some_iff.1 hhead
  have hcs : level 1 cs = some 0 := by simpa using h.closed
  obtain ⟨inner, after, rfl, hinner⟩ := exists_closing_of_level_succ hcs le_rfl
  have hafter : after = [] := h.closesLast ('(' :: inner) after (by simp) hinner.parens
  exact ⟨inner, by simp [hafter, Term.parens], hinner⟩

/-! ### Tokens one behind the other -/

/-- Where a token may end: behind a closing parenthesis, before a blank, or at the end of the text. -/
def Ends (piece rest : Text) : Prop := piece.getLast? = some ')' ∨ ∀ c ∈ rest.head?, Text.isBlank c

theorem Ends.cons {piece rest : Text} (h : Ends piece rest) (c : Char) : Ends (c :: piece) rest := by
  rcases h with hlast | hblank
  · left
    simp [List.getLast?_cons, hlast]
  · exact Or.inr hblank

/-- The tokens of a text that starts at `place`: whole stretches of it, with blanks around them. -/
inductive Cuts : Nat → Text → List Token → Prop
  | nil (place : Nat) : Cuts place [] []
  | blank {place : Nat} {c : Char} {text : Text} {tokens : List Token} : Text.isBlank c →
      Cuts (place + c.utf8Size) text tokens → Cuts place (c :: text) tokens
  | token {place : Nat} {piece rest : Text} {tokens : List Token} : piece ≠ [] → Unbroken 0 piece →
      Ends piece rest → Cuts (place + Text.byteLength piece) rest tokens →
        Cuts place (piece ++ rest) (⟨piece, place⟩ :: tokens)

/-- A text at `place` under `depth` open parentheses, cut into the rest of a token and the tokens behind it. -/
def Resumes (depth place : Nat) (text : Text) (cut : Text × List Token) : Prop :=
  ∃ rest, text = cut.1 ++ rest ∧ Unbroken depth cut.1 ∧ Ends cut.1 rest ∧
    Cuts (place + Text.byteLength cut.1) rest cut.2

/-- Outside parentheses the rest of a token is a token, or nothing. -/
theorem Resumes.cuts {place : Nat} {text : Text} {cut : Text × List Token} (h : Resumes 0 place text cut) :
    Cuts place text (push place cut.1 cut.2) := by
  obtain ⟨rest, rfl, hpiece, hends, hcuts⟩ := h
  by_cases hnil : cut.1 = []
  · simpa [push, hnil] using hcuts
  · rw [push, if_neg hnil]
    exact .token hnil hpiece hends hcuts

/-- A character that does not end its token goes in front of what is left of it. -/
theorem Resumes.cons {depth inner place : Nat} {c : Char} {text : Text} {cut : Text × List Token}
    (h : Resumes inner (place + c.utf8Size) text cut) (hlevel : ∀ cs, level depth (c :: cs) = level inner cs)
    (hblank : depth = 0 → Text.isBlank c = false) (hclosing : c = ')' → inner ≠ 0) :
    Resumes depth place (c :: text) (c :: cut.1, cut.2) := by
  obtain ⟨rest, rfl, hpiece, hends, hcuts⟩ := h
  refine ⟨rest, rfl, hpiece.cons hlevel hblank hclosing, hends.cons c, ?_⟩
  rwa [Text.byteLength_cons, ← Nat.add_assoc]

theorem resumes_pieces (text : Text) : ∀ depth place : Nat, level depth text = some 0 →
    Resumes depth place text (pieces depth place text) := by
  induction text with
  | nil =>
    intro depth place h
    obtain rfl : depth = 0 := by simpa using h
    exact ⟨[], rfl, .nil, Or.inr (by simp), .nil _⟩
  | cons c cs ih =>
    intro depth place h
    by_cases hopening : c = '('
    · subst hopening
      rw [pieces_opening]
      exact (ih (depth + 1) _ (by simpa using h)).cons (level_opening depth) (fun _ => by decide) (by simp)
    · by_cases hclosing : c = ')'
      · subst hclosing
        rcases depth with _ | _ | depth
        · simp at h
        · -- behind the end of a token the rest is cut afresh
          rw [pieces_closing_outer]
          exact ⟨cs, rfl, .closing, Or.inl rfl, (ih 0 _ (by simpa using h)).cuts⟩
        · rw [pieces_closing_inner]
          exact (ih (depth + 1) _ (by simpa using h)).cons (level_closing_succ _) (by simp) (by simp)
      · have hlevel := level_cons_of_ne hopening hclosing
        rw [hlevel] at h
        by_cases hcut : Text.isBlank c ∧ depth = 0
        · obtain ⟨hc, rfl⟩ := hcut
          rw [pieces_blank hc]
          exact ⟨c :: cs, rfl, .nil, Or.inr (by simpa using hc), .blank hc (ih 0 _ h).cuts⟩
        · rw [pieces_other hopening hclosing hcut]
          exact (ih depth _ h).cons (hlevel depth) (fun hdepth => by simpa [hdepth] using hcut)
            (fun hc => absurd hc hclosing)

theorem balanced_of_ofText {text : Text} {tokens : List Token} (h : ofText text = .ok tokens) :
    Balanced text ∧ tokens = split text := by
  unfold ofText at h
  split at h
  · cases h
  · rename_i hfault
    exact ⟨fault?_eq_none_iff.1 hfault, (Except.ok.inj h).symm⟩

theorem cuts_of_ofText {text : Text} {tokens : List Token} (h : ofText text = .ok tokens) :
    Cuts 0 text tokens := by
  obtain ⟨hbalanced, rfl⟩ := balanced_of_ofText h
  exact (resumes_pieces text 0 0 hbalanced).cuts

/-! ### Stretches of a text -/

/-- A token is a stretch of the text behind as many bytes as it names. -/
theorem Cuts.exists_append {place : Nat} {text : Text} {tokens : List Token} (h : Cuts place text tokens) :
    ∀ token ∈ tokens, token.text ≠ [] ∧ Unbroken 0 token.text ∧
      ∃ before after, text = before ++ token.text ++ after ∧
        token.place = place + Text.byteLength before := by
  induction h with
  | nil => simp
  | @blank place c text tokens hc _ ih =>
    intro token htoken
    obtain ⟨hne, hunbroken, before, after, rfl, hplace⟩ := ih token htoken
    exact ⟨hne, hunbroken, c :: before, after, rfl, by rw [hplace, Text.byteLength_cons, Nat.add_assoc]⟩
  | @token place piece rest tokens hne hpiece _ _ ih =>
    intro token htoken
    rcases List.mem_cons.1 htoken with rfl | htoken
    · exact ⟨hne, hpiece, [], rest, rfl, rfl⟩
    · obtain ⟨hne, hunbroken, before, after, rfl, hplace⟩ := ih token htoken
      refine ⟨hne, hunbroken, piece ++ before, after, by simp, ?_⟩
      rw [hplace, Text.byteLength_append, Nat.add_assoc]

/-- A stretch of a text that may stand as a token. -/
structure CutFrom (text piece : Text) : Prop where
  within : piece <:+: text
  start : ∃ c cs, piece = c :: cs ∧ Text.isBlank c = false
  balanced : Balanced piece

theorem CutFrom.mono {text more piece : Text} (h : CutFrom text piece) (hmore : text <:+: more) :
    CutFrom more piece :=
  ⟨h.within.trans hmore, h.start, h.balanced⟩

theorem cutFrom_of_ofText {text : Text} {tokens : List Token} (h : ofText text = .ok tokens) :
    ∀ token ∈ tokens, CutFrom text token.text := by
  intro token htoken
  obtain ⟨hne, hunbroken, before, after, htext, -⟩ := (cuts_of_ofText h).exists_append token htoken
  obtain ⟨c, cs, hcons⟩ := List.exists_cons_of_ne_nil hne
  exact ⟨⟨before, after, htext.symm⟩, ⟨c, cs, hcons, hunbroken.solid [] c cs hcons rfl⟩, hunbroken.closed⟩

/-- A text without tokens is blank. -/
theorem isBlank_of_splitFrom_eq_nil : ∀ {text : Text} {place : Nat}, splitFrom place text = [] →
    ∀ c ∈ text, Text.isBlank c
  | [], _, _ => by simp
  | c :: cs, place, h => by
    by_cases hc : Text.isBlank c
    · rw [splitFrom, pieces_blank hc] at h
      intro d hd
      rcases List.mem_cons.1 hd with rfl | hd
      · exact hc
      · exact isBlank_of_splitFrom_eq_nil h d hd
    · -- any other character is in the first token
      exfalso
      have hpiece : (pieces 0 place (c :: cs)).1 ≠ [] := by
        simp only [pieces, hc]
        split
        · simp
        · split <;> simp
      simp [splitFrom, push, hpiece] at h

/-! ### Texts that are one token -/

/-- Nothing cuts an unbroken text, wherever it stands. -/
theorem Solid.of_unbroken {text : Text} (h : Unbroken 0 text) (hne : text ≠ []) : Solid text := by
  refine ⟨hne, fun place => ?_⟩
  obtain ⟨rest, htext, hpiece, hends, hcuts⟩ := resumes_pieces text 0 place h.closed
  -- behind the first token the text would be cut at a blank or behind a parenthesis
  have hrest : rest = [] := by
    rcases hends with hlast | hblank
    · obtain ⟨before, hbefore⟩ := List.getLast?_eq_some_iff.1 hlast
      refine h.closesLast before rest ?_ (hbefore ▸ hpiece.closed)
      rw [htext, hbefore, List.append_assoc]
      rfl
    · rcases rest with _ | ⟨c, after⟩
      · rfl
      · have hc := h.solid _ c after htext hpiece.closed
        rw [hblank c rfl] at hc
        cases hc
  subst hrest
  rw [List.append_nil] at htext
  have hlater : (pieces 0 place text).2 = [] := by
    generalize (pieces 0 place text).2 = later at hcuts
    generalize hnil : ([] : Text) = empty at hcuts
    cases hcuts with
    | nil => rfl
    | blank => cases hnil
    | token hpiece_ne => exact absurd (List.append_eq_nil_iff.1 hnil.symm).1 hpiece_ne
  exact Prod.ext htext.symm hlater

/-- A text is its own only token exactly when nothing cuts it. -/
theorem ofText_eq_self_iff {text : Text} : ofText text = .ok [⟨text, 0⟩] ↔ text ≠ [] ∧ Unbroken 0 text := by
  constructor
  · intro h
    obtain ⟨hne, hunbroken, -⟩ := (cuts_of_ofText h).exists_append ⟨text, 0⟩ List.mem_cons_self
    exact ⟨hne, hunbroken⟩
  · rintro ⟨hne, hunbroken⟩
    rw [ofText_of_balanced hunbroken.closed, split_eq, (Solid.of_unbroken hunbroken hne).splitFrom]

/-- A token of any text is the only token of its own. -/
theorem ofText_of_mem {text : Text} {tokens : List Token} (h : ofText text = .ok tokens) {token : Token}
    (htoken : token ∈ tokens) : ofText token.text = .ok [⟨token.text, 0⟩] := by
  obtain ⟨hne, hunbroken, -⟩ := (cuts_of_ofText h).exists_append token htoken
  exact ofText_eq_self_iff.2 ⟨hne, hunbroken⟩

/-- A token has no blank at either end. -/
theorem Unbroken.trimmed {text : Text} (h : Unbroken 0 text) : Text.Trimmed text := by
  constructor
  · intro c hc
    obtain ⟨cs, htext⟩ := List.head?_eq_some_iff.1 hc
    exact h.solid [] c cs htext rfl
  · intro c hc
    obtain ⟨before, htext⟩ := List.getLast?_eq_some_iff.1 hc
    by_contra hblank
    rw [Bool.not_eq_false] at hblank
    obtain ⟨hopening, hclosing⟩ := ne_parens_of_isBlank hblank
    have hbefore : level 0 before = some 0 := by
      have hclosed := h.closed
      rw [htext, level_append] at hclosed
      obtain ⟨depth, hdepth, hlast⟩ := Option.bind_eq_some_iff.1 hclosed
      rw [level_cons_of_ne hopening hclosing, level_nil] at hlast
      rw [hdepth, hlast]
    rw [h.solid before c [] htext hbefore] at hblank
    cases hblank

end LambdaArrow.Token
