import LambdaArrow.Proofs.Parentheses

/-! Which parenthesis is to blame. Two parentheses are partners when what stands between them is balanced, and
    a parenthesis without a partner is a fault. The scan keeps the columns that are open. What it holds is told
    from the text alone: behind balanced stretches with one open parenthesis between each two of them, it
    holds the columns of these parentheses, the last one first:

        a (b) ( (c) d ( e     holds the columns of the second and the fourth `(`

    So it stops at the first closing parenthesis without a partner, or else names the last opening one. The
    place of a fault is also counted in bytes, and a place that starts a parenthesis is never inside a
    character, whatever stands before it. -/

namespace LambdaArrow

/-! ### Places in bytes -/

namespace Text

/-- A character at a column stands between what is before it and what is behind it. -/
theorem getElem?_eq_some_iff_append {text : Text} {column : Nat} {c : Char} :
    text[column]? = some c ↔ ∃ before after, text = before ++ c :: after ∧ before.length = column := by
  constructor
  · intro h
    obtain ⟨hlt, rfl⟩ := List.getElem?_eq_some_iff.1 h
    refine ⟨text.take column, text.drop (column + 1), ?_, by simp; omega⟩
    rw [List.getElem_cons_drop, List.take_append_drop]
  · rintro ⟨before, after, rfl, rfl⟩
    simp

end Text

namespace Error

/-- The bytes before a stretch of text lead to the column behind it. -/
theorem column?_append (before rest : Text) :
    column? (Text.byteLength before) (before ++ rest) = some before.length := by
  induction before with
  | nil => simp [column?]
  | cons c cs ih =>
    obtain ⟨n, hn⟩ : ∃ n, Text.byteLength (c :: cs) = n + 1 :=
      Nat.exists_eq_add_of_le' (by have := c.utf8Size_pos; simp; omega)
    have hsize : n + 1 - c.utf8Size = Text.byteLength cs := by simp at hn; omega
    have hle : c.utf8Size ≤ n + 1 := by simp at hn; omega
    rw [hn, List.cons_append, column?, if_pos hle, hsize, ih]
    simp

/-- The failure shows `text` in quotes with a caret under the parenthesis that stands at `column`, and the
    bytes before that parenthesis end where a character starts. -/
def PointsAt (text : Text) (column : Nat) (parenthesis : Char) (message : Text) (error : Error) : Prop :=
  ∃ quoted blanks, error = .marked quoted (List.replicate blanks ' ' ++ ['^']) message ∧
    quoted = '\'' :: text ++ ['\''] ∧ blanks = column + 1 ∧ quoted[blanks]? = some parenthesis ∧
    text[column]? = some parenthesis ∧
    atByte? text (Text.byteLength (text.take column)) message = some error

theorem pointsAt_atColumn (before after : Text) (parenthesis : Char) (message : Text) :
    (atColumn (before ++ parenthesis :: after) before.length message).PointsAt
      (before ++ parenthesis :: after) before.length parenthesis message := by
  refine ⟨quote (before ++ parenthesis :: after), before.length + 1, rfl, rfl, rfl, ?_, by simp, ?_⟩
  · simp [quote]
  · rw [List.take_left, atByte?, column?_append]
    rfl

end Error

namespace Balance

/-! ### Parentheses with a partner -/

/-- An opening and a closing parenthesis, by their columns, with a balanced text between them. -/
def Partners (text : Text) (opening closing : Nat) : Prop :=
  ∃ before inside after, text = before ++ '(' :: (inside ++ ')' :: after) ∧ Matched inside ∧
    opening = before.length ∧ closing = before.length + inside.length + 1

/-- A closing parenthesis that no opening one is the partner of. -/
def LoneClosing (text : Text) (column : Nat) : Prop :=
  text[column]? = some ')' ∧ ∀ opening, ¬Partners text opening column

/-- An opening parenthesis that no closing one is the partner of. -/
def LoneOpening (text : Text) (column : Nat) : Prop :=
  text[column]? = some '(' ∧ ∀ closing, ¬Partners text column closing

theorem Partners.append {text : Text} {opening closing : Nat} (h : Partners text opening closing)
    (more : Text) : Partners (text ++ more) opening closing := by
  obtain ⟨before, inside, after, rfl, hinside, rfl, rfl⟩ := h
  exact ⟨before, inside, after ++ more, by simp, hinside, rfl, rfl⟩

theorem Partners.prepend {text : Text} {opening closing : Nat} (h : Partners text opening closing)
    (front : Text) : Partners (front ++ text) (front.length + opening) (front.length + closing) := by
  obtain ⟨before, inside, after, rfl, hinside, rfl, rfl⟩ := h
  exact ⟨front ++ before, inside, after, by simp, hinside, by simp, by simp; omega⟩

/-- Without a partner in a longer text there is none in its start. -/
theorem LoneClosing.of_append {text more : Text} {column : Nat} (h : LoneClosing (text ++ more) column)
    (hlt : column < text.length) : LoneClosing text column :=
  ⟨List.getElem?_append_left hlt ▸ h.1, fun opening hpartners => h.2 opening (hpartners.append more)⟩

theorem LoneOpening.of_prepend (front : Text) {text : Text} {column : Nat}
    (h : LoneOpening (front ++ text) (front.length + column)) : LoneOpening text column := by
  refine ⟨?_, fun closing hpartners => h.2 _ (hpartners.prepend front)⟩
  have hchar := h.1
  rwa [List.getElem?_append_right (Nat.le_add_right _ _), Nat.add_sub_cancel_left] at hchar

/-! ### What the scan holds -/

/-- The columns of the parentheses that are open behind a text, the last one first. -/
inductive Opened : Text → List Nat → Prop
  | balanced {text : Text} : Balanced text → Opened text []
  | opening {before inside : Text} {opens : List Nat} : Opened before opens → Balanced inside →
      Opened (before ++ '(' :: inside) (before.length :: opens)

theorem Opened.append {text more : Text} {opens : List Nat} (h : Opened text opens)
    (hmore : Balanced more) : Opened (text ++ more) opens := by
  cases h with
  | balanced htext => exact .balanced (htext.append hmore)
  | opening hbefore hinside =>
    rw [List.append_assoc, List.cons_append]
    exact .opening hbefore (hinside.append hmore)

/-- A closing parenthesis meets the last one that is open, and the pair is a balanced stretch. -/
theorem Opened.closing {text : Text} {column : Nat} {opens : List Nat} (h : Opened text (column :: opens)) :
    Opened (text ++ [')']) opens := by
  cases h with
  | opening hbefore hinside =>
    rw [List.append_assoc]
    exact hbefore.append hinside.parens

/-- Reading on, the scan holds what is open then, as long as every closing parenthesis meets another. -/
theorem Opened.run (rest : Text) : ∀ {before : Text} {opens : List Nat} {depth : Nat},
    Opened before opens → level opens.length rest = some depth →
      ∃ opens', Opened (before ++ rest) opens' ∧ opens'.length = depth ∧
        ∀ more, scan opens before.length (rest ++ more) = scan opens' (before ++ rest).length more := by
  induction rest with
  | nil =>
    intro before opens depth h hlevel
    exact ⟨opens, by simpa using h, Option.some.inj hlevel, by simp⟩
  | cons c cs ih =>
    intro before opens depth h hlevel
    -- one character more is read, and the rest by induction
    have hstep : ∀ {opens₁ : List Nat}, Opened (before ++ [c]) opens₁ →
        level opens₁.length cs = some depth →
        (∀ more, scan opens before.length (c :: more) = scan opens₁ (before.length + 1) more) →
        ∃ opens', Opened (before ++ c :: cs) opens' ∧ opens'.length = depth ∧
          ∀ more, scan opens before.length (c :: cs ++ more) =
            scan opens' (before ++ c :: cs).length more := by
      intro opens₁ h₁ hlevel₁ hscan₁
      obtain ⟨opens', hopened, hlength, hscan⟩ := ih h₁ hlevel₁
      refine ⟨opens', by simpa using hopened, hlength, fun more => ?_⟩
      rw [List.cons_append, hscan₁]
      simpa [Nat.add_assoc, Nat.add_comm, Nat.add_left_comm] using hscan more
    by_cases hopening : c = '('
    · subst hopening
      exact hstep (.opening h rfl) (by simpa using hlevel) (by simp [scan])
    · by_cases hclosing : c = ')'
      · subst hclosing
        cases opens with
        | nil => simp at hlevel
        | cons column opens => exact hstep h.closing (by simpa using hlevel) (by simp [scan])
      · rw [level_cons_of_ne hopening hclosing] at hlevel
        exact hstep (h.append (.cons hopening hclosing rfl)) hlevel (by simp [scan, hopening, hclosing])

/-! ### Where the scan stops -/

theorem fault?_of_closing {before : Text} (h : Balanced before) (after : Text) :
    fault? (before ++ ')' :: after) = some (.closing before.length) := by
  obtain ⟨opens, -, hlength, hscan⟩ := Opened.run before (.balanced rfl : Opened [] []) h
  obtain rfl := List.length_eq_zero_iff.1 hlength
  simpa [fault?, scan] using hscan (')' :: after)

/-- With parentheses left open, the last of them stands before a balanced rest and is the fault. -/
theorem exists_opening_of_level {text : Text} {depth : Nat} (h : level 0 text = some (depth + 1)) :
    ∃ before inside, text = before ++ '(' :: inside ∧ Balanced inside ∧
      fault? text = some (.opening before.length) := by
  obtain ⟨opens, hopened, hlength, hscan⟩ := Opened.run text (.balanced rfl : Opened [] []) h
  cases hopened with
  | balanced => simp at hlength
  | opening hbefore hinside =>
    exact ⟨_, _, rfl, hinside, by simpa [fault?, scan] using hscan []⟩

/-! ### In a balanced text every parenthesis has a partner -/

theorem Balanced.exists_opening {before after : Text} (h : Balanced (before ++ ')' :: after)) :
    ∃ start inside, before = start ++ '(' :: inside ∧ Balanced inside := by
  rw [Balanced, level_append] at h
  rcases hlevel : level 0 before with _ | _ | depth
  · simp [hlevel] at h
  · simp [hlevel] at h
  · obtain ⟨start, inside, hbefore, hinside, -⟩ := exists_opening_of_level hlevel
    exact ⟨start, inside, hbefore, hinside⟩

theorem Balanced.exists_closing {before after : Text} (h : Balanced (before ++ '(' :: after)) :
    ∃ inside rest, after = inside ++ ')' :: rest ∧ Balanced inside := by
  rw [Balanced, level_append] at h
  rcases hlevel : level 0 before with _ | depth
  · simp [hlevel] at h
  · rw [hlevel, Option.bind_some, level_opening] at h
    exact exists_closing_of_level_succ h (Nat.zero_le depth)

theorem Balanced.not_loneClosing {text : Text} (h : Balanced text) (column : Nat) :
    ¬LoneClosing text column := by
  rintro ⟨hchar, hlone⟩
  obtain ⟨before, after, rfl, rfl⟩ := Text.getElem?_eq_some_iff_append.1 hchar
  obtain ⟨start, inside, rfl, hinside⟩ := h.exists_opening
  exact hlone start.length
    ⟨start, inside, after, by simp, balanced_iff_matched.1 hinside, rfl, by simp; omega⟩

theorem Balanced.not_loneOpening {text : Text} (h : Balanced text) (column : Nat) :
    ¬LoneOpening text column := by
  rintro ⟨hchar, hlone⟩
  obtain ⟨before, after, rfl, rfl⟩ := Text.getElem?_eq_some_iff_append.1 hchar
  obtain ⟨inside, rest, rfl, hinside⟩ := h.exists_closing
  exact hlone _ ⟨before, inside, rest, rfl, balanced_iff_matched.1 hinside, rfl, rfl⟩

/-! ### The parenthesis that the scan names -/

/-- Behind a balanced text a closing parenthesis is the first without a partner. -/
theorem isLeast_loneClosing {before : Text} (h : Balanced before) (after : Text) :
    IsLeast {column | LoneClosing (before ++ ')' :: after) column} before.length := by
  refine ⟨⟨by simp, ?_⟩, fun column hlone => ?_⟩
  · rintro opening ⟨start, inside, rest, htext, hinside, -, hcolumn⟩
    have hbefore : before = start ++ '(' :: inside := by
      have htext' : before ++ ')' :: after = (start ++ '(' :: inside) ++ ')' :: rest := by simpa using htext
      exact (List.append_inj htext' (by simp; omega)).1
    -- the partner would still be open in front of it
    rw [Balanced, hbefore, level_append] at h
    rcases hlevel : level 0 start with _ | depth
    · simp [hlevel] at h
    · simp [hlevel, (balanced_iff_matched.2 hinside).level_eq] at h
  · by_contra hlt
    exact h.not_loneClosing column (LoneClosing.of_append hlone (by omega))

/-- Before a balanced text an opening parenthesis is the last without a partner. -/
theorem isGreatest_loneOpening (before : Text) {inside : Text} (h : Balanced inside) :
    IsGreatest {column | LoneOpening (before ++ '(' :: inside) column} before.length := by
  refine ⟨⟨by simp, ?_⟩, fun column hlone => ?_⟩
  · rintro closing ⟨start, between, rest, htext, hbetween, hcolumn, -⟩
    have hinside : '(' :: inside = '(' :: (between ++ ')' :: rest) := (List.append_inj htext hcolumn).2
    rw [Balanced, (List.cons.inj hinside).2, level_append, balanced_iff_matched.2 hbetween] at h
    simp at h
  · by_contra hlt
    obtain ⟨more, rfl⟩ := Nat.exists_eq_add_of_lt (not_le.1 hlt)
    refine h.not_loneOpening more (LoneOpening.of_prepend (before ++ ['(']) ?_)
    simpa [Nat.add_assoc, Nat.add_comm, Nat.add_left_comm] using hlone

/-- There is no level behind a text exactly when some start of it closes too many parentheses. -/
theorem level_eq_none_iff {text : Text} :
    level 0 text = none ↔ ∃ start, start <+: text ∧ start.count '(' < start.count ')' := by
  constructor
  · intro hnone
    by_contra hstarts
    push Not at hstarts
    have hall := hstarts text List.prefix_rfl
    have hlevel : level 0 text = some (text.count '(' - text.count ')') :=
      level_eq_some_iff.2 ⟨by simpa using hstarts, by omega⟩
    rw [hnone] at hlevel
    cases hlevel
  · rintro ⟨start, hstart, hlt⟩
    rcases hlevel : level 0 text with _ | result
    · rfl
    · have := (level_eq_some_iff.1 hlevel).1 start hstart
      omega

end Balance

open Balance

namespace Token

theorem ofText_of_fault {text : Text} {fault : Balance.Fault} (h : fault? text = some fault) :
    ofText text = .error (.atColumn text fault.column fault.message) := by
  rw [ofText, h]
  rfl

theorem exists_ofText_eq_ok_iff {text : Text} : (∃ tokens, ofText text = .ok tokens) ↔ Balanced text :=
  ⟨fun ⟨_, h⟩ => (balanced_of_ofText h).1, fun h => ⟨_, ofText_of_balanced h⟩⟩

/-- CORRECT: a text has tokens exactly when its parentheses match, that is when none is without a partner.
    A text that closes too many is told by the first closing parenthesis without a partner, any other by the
    last opening one, with the caret under that parenthesis. -/
theorem ofText_pointsAt (text : Text) :
    ((∃ tokens, ofText text = .ok tokens) ↔ Matched text) ∧
    (Matched text ↔ (∀ column, ¬LoneClosing text column) ∧ ∀ column, ¬LoneOpening text column) ∧
    ((∃ start, start <+: text ∧ start.count '(' < start.count ')') →
      ∃ column error, IsLeast {column | LoneClosing text column} column ∧ ofText text = .error error ∧
        error.PointsAt text column ')' "unmatched closing parenthesis".toList) ∧
    ((∀ start, start <+: text → start.count ')' ≤ start.count '(') →
      (∃ column, LoneOpening text column) →
        ∃ column error, IsGreatest {column | LoneOpening text column} column ∧ ofText text = .error error ∧
          error.PointsAt text column '(' "unmatched opening parenthesis".toList) := by
  -- what is to be told when the text has no level, and when parentheses stay open
  have hclosing : level 0 text = none → ∃ column error,
      IsLeast {column | LoneClosing text column} column ∧ ofText text = .error error ∧
        error.PointsAt text column ')' "unmatched closing parenthesis".toList := by
    intro hlevel
    obtain ⟨before, after, rfl, hbefore⟩ := exists_closing_of_level text hlevel
    exact ⟨_, _, isLeast_loneClosing hbefore after, ofText_of_fault (fault?_of_closing hbefore after),
      Error.pointsAt_atColumn before after ')' _⟩
  have hopening : ∀ depth, level 0 text = some (depth + 1) → ∃ column error,
      IsGreatest {column | LoneOpening text column} column ∧ ofText text = .error error ∧
        error.PointsAt text column '(' "unmatched opening parenthesis".toList := by
    intro depth hlevel
    obtain ⟨before, inside, rfl, hinside, hfault⟩ := exists_opening_of_level hlevel
    exact ⟨_, _, isGreatest_loneOpening before hinside, ofText_of_fault hfault,
      Error.pointsAt_atColumn before inside '(' _⟩
  refine ⟨exists_ofText_eq_ok_iff.trans balanced_iff_matched, ?_, ?_, ?_⟩
  · rw [← balanced_iff_matched]
    refine ⟨fun h => ⟨h.not_loneClosing, h.not_loneOpening⟩, fun ⟨hnoClosing, hnoOpening⟩ => ?_⟩
    rcases hlevel : level 0 text with _ | _ | depth
    · obtain ⟨column, -, hleast, -⟩ := hclosing hlevel
      exact absurd hleast.1 (hnoClosing column)
    · exact hlevel
    · obtain ⟨column, -, hgreatest, -⟩ := hopening depth hlevel
      exact absurd hgreatest.1 (hnoOpening column)
  · exact fun hstart => hclosing (level_eq_none_iff.2 hstart)
  · rintro hstarts ⟨column, hlone⟩
    rcases hlevel : level 0 text with _ | _ | depth
    · obtain ⟨start, hstart, hlt⟩ := level_eq_none_iff.1 hlevel
      exact absurd (hstarts start hstart) (by omega)
    · exact absurd hlone (Balanced.not_loneOpening hlevel column)
    · exact hopening depth hlevel

/-- Of two closing parentheses too many the first is named, behind a letter of two bytes; of two parentheses
    left open the last is named, although a pair stands between them and another behind. -/
theorem ofText_pointsAt_two_faults :
    (∃ column error, IsLeast {column | LoneClosing "(λ)) )".toList column} column ∧
      ofText "(λ)) )".toList = .error error ∧
      error.PointsAt "(λ)) )".toList column ')' "unmatched closing parenthesis".toList) ∧
    ∃ column error, IsGreatest {column | LoneOpening "(é (a) ((b)".toList column} column ∧
      ofText "(é (a) ((b)".toList = .error error ∧
      error.PointsAt "(é (a) ((b)".toList column '(' "unmatched opening parenthesis".toList := by
  constructor
  · exact (ofText_pointsAt "(λ)) )".toList).2.2.1 ⟨"(λ))".toList, by decide, by decide⟩
  · have hlone : LoneOpening "(é (a) ((b)".toList 7 :=
      (isGreatest_loneOpening "(é (a) ".toList (show Balanced "(b)".toList by decide)).1
    have hstarts := (level_eq_some_iff.1 (show level 0 "(é (a) ((b)".toList = some 2 by decide)).1
    exact (ofText_pointsAt "(é (a) ((b)".toList).2.2.2 (by simpa using hstarts) ⟨7, hlone⟩

end Token

end LambdaArrow
