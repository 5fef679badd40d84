import LambdaArrow.Proofs.Parentheses

/-! Tokens on both sides of a seam. Where a text stands matters only to the places of its tokens, and a blank
    outside parentheses ends the last token before it. So two texts with blanks between them are cut as each is
    cut alone, the second one moved by the bytes in front of it:

        é               ──▶ `é` at 0
        (a b)c          ──▶ `(a b)` at 0, `c` at 5
        é   (a b)c      ──▶ `é` at 0, `(a b)` at 5, `c` at 10

    The tokens of a text are texts like these, so they may be written with one space between them. -/

namespace LambdaArrow.Token

open Balance

/-- The same token, `count` bytes further on. -/
def moved (count : Nat) (token : Token) : Token := ⟨token.text, token.place + count⟩

theorem push_moved (count place : Nat) (text : Text) (later : List Token) :
    push (place + count) text (later.map (moved count)) = (push place text later).map (moved count) := by
  unfold push
  split <;> rfl

/-- Where the scan starts matters only to the places of the tokens. -/
theorem pieces_moved (count : Nat) (text : Text) : ∀ depth place : Nat,
    pieces depth (place + count) text =
      ((pieces depth place text).1, (pieces depth place text).2.map (moved count)) := by
  induction text with
  | nil => intro depth place; rfl
  | cons c cs ih =>
    intro depth place
    have hplace : place + count + c.utf8Size = place + c.utf8Size + count := by omega
    simp only [pieces, hplace, ih, push_moved]
    split_ifs <;> rfl

theorem splitFrom_eq_map (count : Nat) (text : Text) : splitFrom count text = (split text).map (moved count) := by
  have hpieces := pieces_moved count text 0 0
  rw [Nat.zero_add] at hpieces
  have hpush := push_moved count 0 (pieces 0 0 text).1 (pieces 0 0 text).2
  rw [Nat.zero_add] at hpush
  rw [splitFrom, hpieces, hpush]
  rfl

/-- Two texts with blanks between them. -/
theorem ofText_append_gap {first gap second : Text} {firstTokens secondTokens : List Token}
    (hfirst : ofText first = .ok firstTokens) (hsecond : ofText second = .ok secondTokens) (hne : gap ≠ [])
    (hgap : ∀ c ∈ gap, Text.isBlank c) : ofText (first ++ gap ++ second) =
      .ok (firstTokens ++ secondTokens.map (moved (Text.byteLength (first ++ gap)))) := by
  obtain ⟨hbefore, rfl⟩ := balanced_of_ofText hfirst
  obtain ⟨hbehind, rfl⟩ := balanced_of_ofText hsecond
  have hwhole : Balanced (first ++ (gap ++ second)) :=
    hbefore.append ((Balanced.of_flat (.of_blank hgap)).append hbehind)
  rw [List.append_assoc, ofText_of_balanced hwhole, split_append_gap hbefore hgap hne, splitFrom_eq_map]

/-! ### Tokens with one space between them -/

/-- Texts that are one token each stay so with spaces between them. -/
theorem exists_ofText_intercalate : ∀ {texts : List Text},
    (∀ text ∈ texts, ofText text = .ok [⟨text, 0⟩]) →
      ∃ tokens, ofText ([' '].intercalate texts) = .ok tokens ∧ tokens.map (·.text) = texts
  | [], _ => ⟨[], rfl, rfl⟩
  | [text], h => by
    refine ⟨[⟨text, 0⟩], ?_, rfl⟩
    rw [List.intercalate_singleton]
    exact h text List.mem_cons_self
  | text :: next :: rest, h => by
    obtain ⟨tokens, htokens, htexts⟩ :=
      exists_ofText_intercalate fun other hother => h other (List.mem_cons_of_mem text hother)
    have hblank : Text.isBlank ' ' := by decide
    have happend := ofText_append_gap (h text List.mem_cons_self) htokens (List.cons_ne_nil ' ' [])
      (by simpa using hblank)
    rw [← List.intercalate_cons_cons] at happend
    refine ⟨_, happend, ?_⟩
    rw [List.map_append, List.map_map]
    exact congrArg (text :: ·) htexts

/-- CORRECT: two texts with one or more blanks between them have the tokens of the first and then those of the
    second, each of the same kind and length, and further on by the bytes before the second. So the tokens of any
    text, written with one space between them, are cut into the same texts of the same kinds. -/
theorem ofText_seams (first : Text) (firstTokens : List Token) (hfirst : ofText first = .ok firstTokens) :
    (∀ gap second secondTokens, ofText second = .ok secondTokens → gap ≠ [] → (∀ c ∈ gap, Text.isBlank c) →
      ∃ movedTokens, ofText (first ++ gap ++ second) = .ok (firstTokens ++ movedTokens) ∧
        movedTokens = secondTokens.map (moved (Text.byteLength (first ++ gap))) ∧
        movedTokens.map kind = secondTokens.map kind ∧
        movedTokens.map (fun token => Text.byteLength token.text) =
          secondTokens.map fun token => Text.byteLength token.text) ∧
    ∃ again, ofText ([' '].intercalate (firstTokens.map (·.text))) = .ok again ∧
      again.map (·.text) = firstTokens.map (·.text) ∧ again.map kind = firstTokens.map kind := by
  constructor
  · intro gap second secondTokens hsecond hne hgap
    refine ⟨_, ofText_append_gap hfirst hsecond hne hgap, rfl, ?_, ?_⟩
    · rw [List.map_map]
      rfl
    · rw [List.map_map]
      rfl
  · have hsingle : ∀ text ∈ firstTokens.map (·.text), ofText text = .ok [⟨text, 0⟩] :=
      List.forall_mem_map.2 fun token htoken => ofText_of_mem hfirst htoken
    obtain ⟨again, hagain, htexts⟩ := exists_ofText_intercalate hsingle
    refine ⟨again, hagain, htexts, ?_⟩
    -- the kind of a token is told by its text alone
    have hkinds : ∀ tokens : List Token,
        tokens.map kind = (tokens.map (·.text)).map fun text => kind ⟨text, 0⟩ := by
      intro tokens
      rw [List.map_map]
      rfl
    rw [hkinds, hkinds firstTokens, htexts]

/-- The second text is moved by a letter of two bytes and a blank of three. Two tokens that touch are apart when
    they are written with a space. -/
theorem ofText_seams_touching :
    ofText ("é\u2028".toList ++ "(a b)$x.x".toList) =
      .ok [⟨"é".toList, 0⟩, ⟨"(a b)".toList, 5⟩, ⟨"$x.x".toList, 10⟩] ∧
    ∃ again, ofText "(a b) $x.x".toList = .ok again ∧
      again.map (·.text) = ["(a b)".toList, "$x.x".toList] ∧ again.map kind = [.group, .lambda] := by
  have hfirst : ofText "é".toList = .ok [⟨"é".toList, 0⟩] := by decide
  have hsecond : ofText "(a b)$x.x".toList = .ok [⟨"(a b)".toList, 0⟩, ⟨"$x.x".toList, 5⟩] := by decide
  have hblank : Text.isBlank '\u2028' := by decide
  obtain ⟨tokens, htokens, rfl, -, -⟩ :=
    (ofText_seams _ _ hfirst).1 "\u2028".toList _ _ hsecond (by decide) (by simpa using hblank)
  exact ⟨htokens, (ofText_seams _ _ hsecond).2⟩

end LambdaArrow.Token
