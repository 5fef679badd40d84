import Mathlib
import LambdaArrow.Phrase.Reader
import LambdaArrow.Term.Arrow

/-! Every scan over parentheses counts the same thing: how many of them are open. The level of a text
    is that count behind it, and there is none when a parenthesis closes that nothing opened. A text is
    balanced when it leads from level zero to level zero. The two scans of the reader, for a fault
    and for an outer pair, are both read off the level. -/

namespace LambdaArrow.Balance

/-- How many parentheses are open behind a text that starts under `depth` open ones. -/
def level : Nat → Text → Option Nat
  | depth, [] => some depth
  | depth, c :: cs =>
    if c = '(' then level (depth + 1) cs
    else if c = ')' then
      match depth with
      | 0 => none
      | depth + 1 => level depth cs
    else level depth cs

/-- Every closing parenthesis meets an opening one, and none stays open. -/
def Balanced (text : Text) : Prop := level 0 text = some 0

instance (text : Text) : Decidable (Balanced text) := inferInstanceAs (Decidable (_ = _))

/-- A text without parentheses. -/
def Flat (text : Text) : Prop := '(' ∉ text ∧ ')' ∉ text

instance (text : Text) : Decidable (Flat text) := inferInstanceAs (Decidable (_ ∧ _))

theorem ne_of_isLower {c other : Char} (h : c.isLower) (hother : other.isLower = false) :
    c ≠ other := by
  rintro rfl
  rw [h] at hother
  cases hother

theorem Flat.letter {c : Char} (h : c.isLower) : Flat [c] := by
  constructor
  · rw [List.mem_singleton]; exact (ne_of_isLower h (by decide)).symm
  · rw [List.mem_singleton]; exact (ne_of_isLower h (by decide)).symm

/-! ### One character -/

@[simp] theorem level_nil (depth : Nat) : level depth [] = some depth := rfl

@[simp] theorem level_opening (depth : Nat) (cs : Text) :
    level depth ('(' :: cs) = level (depth + 1) cs := by
  simp [level]

@[simp] theorem level_closing_zero (cs : Text) : level 0 (')' :: cs) = none := by
  simp [level]

@[simp] theorem level_closing_succ (depth : Nat) (cs : Text) :
    level (depth + 1) (')' :: cs) = level depth cs := by
  simp [level]

theorem level_cons_of_ne {c : Char} (hopening : c ≠ '(') (hclosing : c ≠ ')') (depth : Nat)
    (cs : Text) : level depth (c :: cs) = level depth cs := by
  rw [level.eq_def]
  simp only [if_neg hopening, if_neg hclosing]

/-! ### Levels compose -/

/-- The level behind two texts is the second's, started from the first's. -/
theorem level_append : ∀ (first second : Text) (depth : Nat),
    level depth (first ++ second) = (level depth first).bind (level · second)
  | [], _, _ => rfl
  | c :: cs, second, depth => by
    rw [List.cons_append]
    by_cases hopening : c = '('
    · subst hopening
      rw [level_opening, level_opening]
      exact level_append cs second _
    · by_cases hclosing : c = ')'
      · subst hclosing
        cases depth with
        | zero => rw [level_closing_zero, level_closing_zero]; rfl
        | succ depth =>
          rw [level_closing_succ, level_closing_succ]
          exact level_append cs second _
      · rw [level_cons_of_ne hopening hclosing, level_cons_of_ne hopening hclosing]
        exact level_append cs second _

/-- Parentheses that are open from the start and never closed only raise the count. -/
theorem level_add (extra : Nat) : ∀ {text : Text} {depth result : Nat},
    level depth text = some result → level (depth + extra) text = some (result + extra)
  | [], _, _, h => by cases h; rfl
  | c :: cs, depth, result, h => by
    by_cases hopening : c = '('
    · subst hopening
      rw [level_opening] at h ⊢
      have := level_add extra h
      rwa [Nat.add_right_comm] at this
    · by_cases hclosing : c = ')'
      · subst hclosing
        cases depth with
        | zero => rw [level_closing_zero] at h; cases h
        | succ depth =>
          rw [level_closing_succ] at h
          rw [Nat.add_right_comm, level_closing_succ]
          exact level_add extra h
      · rw [level_cons_of_ne hopening hclosing] at h ⊢
        exact level_add extra h

/-- Without parentheses nothing changes. -/
theorem level_of_flat : ∀ {text : Text}, Flat text → ∀ depth : Nat, level depth text = some depth
  | [], _, _ => rfl
  | c :: cs, ⟨hopening, hclosing⟩, depth => by
    rw [List.mem_cons, not_or] at hopening hclosing
    rw [level_cons_of_ne (Ne.symm hopening.1) (Ne.symm hclosing.1)]
    exact level_of_flat ⟨hopening.2, hclosing.2⟩ depth

/-! ### Where a parenthesis is closed -/

/-- A text has no level only because of a closing parenthesis behind a stretch that closes all before. -/
theorem exists_closing_of_level (text : Text) : ∀ {depth : Nat}, level depth text = none →
    ∃ before after, text = before ++ ')' :: after ∧ level depth before = some 0 := by
  induction text with
  | nil => simp
  | cons c cs ih =>
    intro depth h
    by_cases hopening : c = '('
    · subst hopening
      obtain ⟨before, after, rfl, hbefore⟩ := ih (by simpa using h)
      exact ⟨'(' :: before, after, rfl, by simpa using hbefore⟩
    · by_cases hclosing : c = ')'
      · subst hclosing
        cases depth with
        | zero => exact ⟨[], cs, rfl, rfl⟩
        | succ depth =>
          obtain ⟨before, after, rfl, hbefore⟩ := ih (by simpa using h)
          exact ⟨')' :: before, after, rfl, by simpa using hbefore⟩
      · rw [level_cons_of_ne hopening hclosing] at h
        obtain ⟨before, after, rfl, hbefore⟩ := ih h
        exact ⟨c :: before, after, rfl, by rwa [level_cons_of_ne hopening hclosing]⟩

/-- A text behind an open parenthesis that ends below it has the closing one. -/
theorem exists_closing_of_level_succ {text : Text} {depth result : Nat}
    (h : level (depth + 1) text = some result) (hresult : result ≤ depth) :
    ∃ inside after, text = inside ++ ')' :: after ∧ Balanced inside := by
  apply exists_closing_of_level
  rcases hlevel : level 0 text with _ | own
  · rfl
  · -- with a level of its own it would end above the open parenthesis
    have hadd := level_add (depth + 1) hlevel
    rw [Nat.zero_add, h, Option.some.injEq] at hadd
    omega

/-! ### Balanced texts -/

theorem Balanced.of_flat {text : Text} (h : Flat text) : Balanced text := level_of_flat h 0

/-- A balanced text leaves every level as it was. -/
theorem Balanced.level_eq {text : Text} (h : Balanced text) (depth : Nat) :
    level depth text = some depth := by
  have := level_add depth h
  rwa [Nat.zero_add] at this

theorem Balanced.append {first second : Text} (hfirst : Balanced first)
    (hsecond : Balanced second) : Balanced (first ++ second) := by
  rw [Balanced, level_append, hfirst]
  exact hsecond

/-- One more character that is no parenthesis in front. -/
theorem Balanced.cons {c : Char} {text : Text} (hopening : c ≠ '(') (hclosing : c ≠ ')')
    (h : Balanced text) : Balanced (c :: text) := by
  rw [Balanced, level_cons_of_ne hopening hclosing]
  exact h

/-- A balanced text whose second character would close a parenthesis has no second character. -/
theorem Balanced.eq_of_append_eq {text rest more : Text} {c : Char} (h : Balanced text)
    (hne : text ≠ []) (hc : c.isLower) (heq : text ++ ')' :: rest = c :: ')' :: more) : rest = more := by
  cases text with
  | nil => exact absurd rfl hne
  | cons d cs =>
    obtain ⟨rfl, htail⟩ := List.cons.inj heq
    cases cs with
    | nil => exact (List.cons.inj htail).2
    | cons e es =>
      obtain ⟨rfl, -⟩ := List.cons.inj htail
      rw [Balanced, level_cons_of_ne (ne_of_isLower hc (by decide)) (ne_of_isLower hc (by decide)),
        level_closing_zero] at h
      cases h

theorem Balanced.parens {text : Text} (h : Balanced text) : Balanced (Term.parens text) := by
  rw [Balanced, Term.parens, List.cons_append, level_opening, level_append, h.level_eq]
  rfl

/-! ### The scans -/

/-- The scan for a fault ends without one exactly when the level is back at zero. -/
theorem scan_eq_none_iff : ∀ (text : Text) (opens : List Nat) (column : Nat),
    scan opens column text = none ↔ level opens.length text = some 0
  | [], opens, _ => by cases opens <;> simp [scan]
  | c :: cs, opens, column => by
    by_cases hopening : c = '('
    · subst hopening
      rw [scan.eq_def, level_opening]
      exact scan_eq_none_iff cs (column :: opens) _
    · by_cases hclosing : c = ')'
      · subst hclosing
        cases opens with
        | nil => simp [scan]
        | cons column' opens =>
          rw [scan, if_neg hopening, if_pos rfl, List.length_cons, level_closing_succ]
          exact scan_eq_none_iff cs opens _
      · rw [scan.eq_def, level_cons_of_ne hopening hclosing]
        simp only [if_neg hopening, if_neg hclosing]
        exact scan_eq_none_iff cs opens _

theorem fault?_eq_none_iff {text : Text} : fault? text = none ↔ Balanced text :=
  scan_eq_none_iff text [] 0

/-- A parenthesis opened before a text stays open through it when the text has a level of its own. -/
theorem staysOpen_eq : ∀ (text : Text) (depth : Nat),
    staysOpen depth text = (level depth text).isSome
  | [], _ => rfl
  | c :: cs, depth => by
    by_cases hopening : c = '('
    · subst hopening
      rw [staysOpen.eq_def, level_opening]
      exact staysOpen_eq cs _
    · by_cases hclosing : c = ')'
      · subst hclosing
        cases depth with
        | zero => simp [staysOpen]
        | succ depth =>
          rw [staysOpen, if_neg hopening, if_pos rfl, level_closing_succ]
          exact staysOpen_eq cs depth
      · rw [staysOpen.eq_def, level_cons_of_ne hopening hclosing]
        simp only [if_neg hopening, if_neg hclosing]
        exact staysOpen_eq cs depth

/-- A parenthesis at the start of a balanced text is closed inside that text, so it does not stay open
    up to the end of a longer one. -/
theorem staysOpen_of_balanced {cs : Text} (h : Balanced ('(' :: cs)) (more : Text) :
    staysOpen 0 (cs ++ more) = false := by
  have hone : level 1 cs = some 0 := by rwa [Balanced, level_opening] at h
  rw [staysOpen_eq, level_append]
  cases hzero : level 0 cs with
  | none => rfl
  | some result =>
    -- started one level higher, `cs` would end above zero
    have := level_add 1 hzero
    rw [Nat.zero_add, hone] at this
    cases this

end LambdaArrow.Balance
