import LambdaArrow.Proofs.Level

/-! Cutting a text into tokens composes. Behind a balanced text a blank outside parentheses starts
    afresh, so the tokens of two texts with a blank between them are the tokens of the first and then
    those of the second, moved by the bytes before it. A word, and a group around a balanced text,
    are one token each. -/

namespace LambdaArrow

/-! ### Bytes of a text -/

namespace Text

@[simp] theorem byteLength_nil : byteLength [] = 0 := rfl

@[simp] theorem byteLength_cons (c : Char) (cs : Text) :
    byteLength (c :: cs) = c.utf8Size + byteLength cs := rfl

@[simp] theorem byteLength_append (first second : Text) :
    byteLength (first ++ second) = byteLength first + byteLength second := by
  induction first with
  | nil => simp
  | cons c cs ih => simp [ih, Nat.add_assoc]

end Text

namespace Token

open Balance

/-! ### One character -/

theorem pieces_opening (depth place : Nat) (cs : Text) :
    pieces depth place ('(' :: cs) =
      ('(' :: (pieces (depth + 1) (place + '('.utf8Size) cs).1,
        (pieces (depth + 1) (place + '('.utf8Size) cs).2) := by
  simp [pieces]

theorem pieces_closing_inner (depth place : Nat) (cs : Text) :
    pieces (depth + 2) place (')' :: cs) =
      (')' :: (pieces (depth + 1) (place + ')'.utf8Size) cs).1,
        (pieces (depth + 1) (place + ')'.utf8Size) cs).2) := by
  simp [pieces]

/-- The tokens of a text that starts at `place`, outside parentheses. -/
def splitFrom (place : Nat) (text : Text) : List Token :=
  push place (pieces 0 place text).1 (pieces 0 place text).2

theorem split_eq (text : Text) : split text = splitFrom 0 text := rfl

theorem pieces_closing_outer (place : Nat) (cs : Text) :
    pieces 1 place (')' :: cs) = ([')'], splitFrom (place + ')'.utf8Size) cs) := by
  simp [pieces, splitFrom]

theorem ne_parens_of_isBlank {c : Char} (h : Text.isBlank c) : c ≠ '(' ∧ c ≠ ')' := by
  constructor
  · rintro rfl; exact absurd h (by decide)
  · rintro rfl; exact absurd h (by decide)

theorem pieces_blank {c : Char} (h : Text.isBlank c) (place : Nat) (cs : Text) :
    pieces 0 place (c :: cs) = ([], splitFrom (place + c.utf8Size) cs) := by
  obtain ⟨hopening, hclosing⟩ := ne_parens_of_isBlank h
  simp [pieces, splitFrom, hopening, hclosing, h]

theorem pieces_other {c : Char} {depth : Nat} (hopening : c ≠ '(') (hclosing : c ≠ ')')
    (hblank : ¬(Text.isBlank c ∧ depth = 0)) (place : Nat) (cs : Text) :
    pieces depth place (c :: cs) =
      (c :: (pieces depth (place + c.utf8Size) cs).1, (pieces depth (place + c.utf8Size) cs).2) := by
  rw [pieces, if_neg hopening, if_neg (fun h => hclosing h.1), if_neg hclosing, if_neg hblank]

/-! ### Two texts with a blank between them -/

theorem push_append (place : Nat) (text : Text) (later more : List Token) :
    push place text (later ++ more) = push place text later ++ more := by
  unfold push
  split <;> rfl

/-- Behind a text that ends outside parentheses, a blank ends its last token and the rest is cut on
    its own. -/
theorem pieces_append_blank {blank : Char} (hblank : Text.isBlank blank) (rest : Text) :
    ∀ (first : Text) (depth place : Nat), level depth first = some 0 →
      pieces depth place (first ++ blank :: rest) =
        ((pieces depth place first).1, (pieces depth place first).2 ++
          splitFrom (place + Text.byteLength first + blank.utf8Size) rest)
  | [], depth, place, h => by
    cases h
    rw [List.nil_append, pieces_blank hblank]
    rfl
  | c :: cs, depth, place, h => by
    have hplace : place + Text.byteLength (c :: cs) = place + c.utf8Size + Text.byteLength cs := by
      rw [Text.byteLength, Nat.add_assoc]
    rw [List.cons_append, hplace]
    by_cases hopening : c = '('
    · subst hopening
      rw [level_opening] at h
      rw [pieces_opening, pieces_opening, pieces_append_blank hblank rest cs _ _ h]
    · by_cases hclosing : c = ')'
      · subst hclosing
        match depth, h with
        | 1, h =>
          rw [level_closing_succ] at h
          rw [pieces_closing_outer, pieces_closing_outer, splitFrom,
            pieces_append_blank hblank rest cs _ _ h, push_append]
          rfl
        | depth + 2, h =>
          rw [level_closing_succ] at h
          rw [pieces_closing_inner, pieces_closing_inner, pieces_append_blank hblank rest cs _ _ h]
      · rw [level_cons_of_ne hopening hclosing] at h
        by_cases hcut : Text.isBlank c ∧ depth = 0
        · obtain ⟨hc, rfl⟩ := hcut
          rw [pieces_blank hc, pieces_blank hc, splitFrom,
            pieces_append_blank hblank rest cs _ _ h, push_append]
          rfl
        · rw [pieces_other hopening hclosing hcut, pieces_other hopening hclosing hcut,
            pieces_append_blank hblank rest cs _ _ h]

/-- The tokens of two texts with a blank between them. -/
theorem split_append_blank {blank : Char} (hblank : Text.isBlank blank) {first : Text}
    (hfirst : Balanced first) (rest : Text) :
    split (first ++ blank :: rest) =
      split first ++ splitFrom (Text.byteLength first + blank.utf8Size) rest := by
  rw [split_eq, split_eq, splitFrom, pieces_append_blank hblank rest first 0 0 hfirst, push_append,
    Nat.zero_add]
  rfl

/-- Blanks in front of a text only move its tokens. -/
theorem splitFrom_blanks : ∀ {gap : Text}, (∀ c ∈ gap, Text.isBlank c) → ∀ (place : Nat) (rest : Text),
    splitFrom place (gap ++ rest) = splitFrom (place + Text.byteLength gap) rest
  | [], _, _, _ => rfl
  | c :: gap, h, place, rest => by
    have hgap : ∀ d ∈ gap, Text.isBlank d := fun d hd => h d (List.mem_cons_of_mem _ hd)
    rw [List.cons_append, splitFrom, pieces_blank (h c List.mem_cons_self), push, if_pos rfl,
      splitFrom_blanks hgap, Text.byteLength_cons, Nat.add_assoc]

/-- The tokens of two texts with one or more blanks between them. -/
theorem split_append_gap {first gap : Text} (hfirst : Balanced first) (hgap : ∀ c ∈ gap, Text.isBlank c)
    (hne : gap ≠ []) (rest : Text) : split (first ++ (gap ++ rest)) =
      split first ++ splitFrom (Text.byteLength (first ++ gap)) rest := by
  obtain ⟨blank, gap, rfl⟩ := List.exists_cons_of_ne_nil hne
  rw [List.cons_append, split_append_blank (hgap blank List.mem_cons_self) hfirst,
    splitFrom_blanks fun c hc => hgap c (List.mem_cons_of_mem _ hc), Text.byteLength_append,
    Text.byteLength_cons, Nat.add_assoc]

/-! ### Texts that are one token -/

/-- A text that is a single token wherever it stands. -/
def Solid (text : Text) : Prop := text ≠ [] ∧ ∀ place : Nat, pieces 0 place text = (text, [])

theorem Solid.splitFrom {text : Text} (h : Solid text) (place : Nat) :
    splitFrom place text = [⟨text, place⟩] := by
  rw [Token.splitFrom, h.2 place, push, if_neg h.1]

theorem pieces_word : ∀ {text : Text}, Flat text → (∀ c ∈ text, Text.isBlank c = false) →
    ∀ place : Nat, pieces 0 place text = (text, [])
  | [], _, _, _ => rfl
  | c :: cs, ⟨hopening, hclosing⟩, hblank, place => by
    rw [List.mem_cons, not_or] at hopening hclosing
    rw [pieces_other (Ne.symm hopening.1) (Ne.symm hclosing.1) (by simp [hblank c]),
      pieces_word ⟨hopening.2, hclosing.2⟩ (fun d hd => hblank d (List.mem_cons_of_mem _ hd))]

/-- A word without blanks and parentheses is one token. -/
theorem Solid.word {text : Text} (hne : text ≠ []) (hflat : Flat text)
    (hblank : ∀ c ∈ text, Text.isBlank c = false) : Solid text :=
  ⟨hne, pieces_word hflat hblank⟩

/-- Inside parentheses nothing ends a token: a text that keeps its own level is taken whole. -/
theorem pieces_inside : ∀ (inside rest : Text) (depth place result : Nat),
    level depth inside = some result →
      ∃ next : Nat, pieces (depth + 1) place (inside ++ rest) =
        (inside ++ (pieces (result + 1) next rest).1, (pieces (result + 1) next rest).2)
  | [], rest, depth, place, result, h => by
    cases h
    exact ⟨place, rfl⟩
  | c :: cs, rest, depth, place, result, h => by
    rw [List.cons_append]
    by_cases hopening : c = '('
    · subst hopening
      rw [level_opening] at h
      obtain ⟨next, hnext⟩ := pieces_inside cs rest (depth + 1) (place + '('.utf8Size) result h
      exact ⟨next, by rw [pieces_opening, hnext]; rfl⟩
    · by_cases hclosing : c = ')'
      · subst hclosing
        match depth, h with
        | depth + 1, h =>
          rw [level_closing_succ] at h
          obtain ⟨next, hnext⟩ := pieces_inside cs rest depth (place + ')'.utf8Size) result h
          exact ⟨next, by rw [pieces_closing_inner, hnext]; rfl⟩
      · rw [level_cons_of_ne hopening hclosing] at h
        obtain ⟨next, hnext⟩ := pieces_inside cs rest depth (place + c.utf8Size) result h
        refine ⟨next, ?_⟩
        rw [pieces_other hopening hclosing (fun hcut => absurd hcut.2 (Nat.succ_ne_zero depth)), hnext]
        rfl

/-- A balanced text in parentheses is one token. -/
theorem Solid.parens {inside : Text} (h : Balanced inside) : Solid (Term.parens inside) := by
  refine ⟨List.cons_ne_nil _ _, fun place => ?_⟩
  obtain ⟨next, hnext⟩ := pieces_inside inside [')'] 0 (place + '('.utf8Size) 0 h
  rw [Term.parens, List.cons_append, pieces_opening, hnext, pieces_closing_outer]
  rfl

/-! ### Kinds -/

theorem kind_parens (inside : Text) (place : Nat) :
    kind ⟨Term.parens inside, place⟩ = .group := by
  rw [kind, if_pos]
  exact ⟨rfl, List.getLast?_concat (l := '(' :: inside)⟩

theorem inside_parens (inside : Text) (place : Nat) :
    Token.inside ⟨Term.parens inside, place⟩ = Text.trim inside := by
  simp [Token.inside, Term.parens]

theorem kind_word {text : Text} (hopening : text.head? ≠ some '(') (hdollar : text.head? ≠ some '$')
    (place : Nat) : kind ⟨text, place⟩ = .word := by
  rw [kind, if_neg (fun h => hopening h.1), if_neg hdollar]

theorem kind_eq_lambda_iff (token : Token) : token.kind = .lambda ↔ token.text.head? = some '$' := by
  unfold kind
  by_cases hhead : token.text.head? = some '$'
  · simp [hhead]
  · simp only [hhead, if_false, iff_false]
    split <;> simp

/-- A group is a text in parentheses. -/
theorem exists_parens_of_kind {token : Token} (h : token.kind = .group) :
    ∃ inner, token.text = Term.parens inner ∧ token.inside = Text.trim inner := by
  have hends : token.text.head? = some '(' ∧ token.text.getLast? = some ')' := by
    by_contra hends
    rw [kind, if_neg hends] at h
    split at h <;> cases h
  obtain ⟨cs, hcs⟩ := List.head?_eq_some_iff.1 hends.1
  obtain ⟨before, hbefore⟩ := List.getLast?_eq_some_iff.1 hends.2
  rw [hcs] at hbefore
  cases before with
  | nil => simp at hbefore
  | cons c inner =>
    obtain ⟨rfl, rfl⟩ := List.cons.inj hbefore
    exact ⟨inner, hcs, by simp [inside, hcs]⟩

theorem ofText_of_balanced {text : Text} (h : Balanced text) : ofText text = .ok (split text) := by
  rw [ofText, fault?_eq_none_iff.2 h]

end Token

end LambdaArrow
