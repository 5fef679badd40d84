import LambdaArrow.Proofs.Lookup
import LambdaArrow.Proofs.Words

/-! Parentheses from the source to the output. Whatever parses was balanced, although only the tokens of a
    text are ever scanned for a fault: a literal is cut at its dots without regard to parentheses, and outer
    parentheses are taken off a text such as `((a)`, too. And whatever parses is written as a balanced text,
    although names go there as they stand, with their own parentheses:

        (g(a) ($x.x))   ──▶ g(a)((x) => x)

    So an expression put into a statement leaves the statement's parentheses alone. -/

namespace LambdaArrow

namespace Balance

/-! ### Balance by counts -/

/-- No start of the text has more closing parentheses than opening ones, and the whole has as many. -/
def Matched (text : Text) : Prop :=
  (∀ start, start <+: text → start.count ')' ≤ start.count '(') ∧ text.count '(' = text.count ')'

theorem forall_prefix_cons {c : Char} {cs : Text} {holds : Text → Prop} :
    (∀ start, start <+: c :: cs → holds start) ↔
      holds [] ∧ ∀ start, start <+: cs → holds (c :: start) := by
  simp only [List.prefix_cons_iff]
  constructor
  · intro h
    exact ⟨h [] (Or.inl rfl), fun start hstart => h _ (Or.inr ⟨start, rfl, hstart⟩)⟩
  · rintro ⟨hnil, hcons⟩ start (rfl | ⟨start, rfl, hstart⟩)
    · exact hnil
    · exact hcons start hstart

/-- The level behind a text by counts: no start closes more than is open, and the rest is subtraction. -/
theorem level_eq_some_iff : ∀ {text : Text} {depth result : Nat}, level depth text = some result ↔
    (∀ start, start <+: text → start.count ')' ≤ depth + start.count '(') ∧
      depth + text.count '(' = result + text.count ')'
  | [], depth, result => by simp
  | c :: cs, depth, result => by
    rw [forall_prefix_cons]
    by_cases hopening : c = '('
    · subst hopening
      rw [level_opening, level_eq_some_iff]
      have hstart : ∀ start : Text, start.count ')' ≤ depth + 1 + start.count '(' ↔
          ('(' :: start).count ')' ≤ depth + ('(' :: start).count '(' := by
        intro start
        simp
        omega
      simp only [hstart]
      simp
      omega
    · by_cases hclosing : c = ')'
      · subst hclosing
        cases depth with
        | zero =>
          -- the closing parenthesis alone is a start with one too many
          simp only [level_closing_zero, reduceCtorEq, false_iff]
          rintro ⟨⟨-, hstart⟩, -⟩
          have := hstart [] List.nil_prefix
          simp at this
        | succ depth =>
          rw [level_closing_succ, level_eq_some_iff]
          have hstart : ∀ start : Text, start.count ')' ≤ depth + start.count '(' ↔
              (')' :: start).count ')' ≤ depth + 1 + (')' :: start).count '(' := by
            intro start
            simp
            omega
          simp only [hstart]
          simp
          omega
      · rw [level_cons_of_ne hopening hclosing, level_eq_some_iff]
        simp [hopening, hclosing]

theorem balanced_iff_matched {text : Text} : Balanced text ↔ Matched text := by
  rw [Balanced, level_eq_some_iff, Matched]
  simp

instance (text : Text) : Decidable (Matched text) := decidable_of_iff _ balanced_iff_matched

/-! ### Text without parentheses around a text -/

theorem Flat.of_blank {text : Text} (h : ∀ c ∈ text, Text.isBlank c) : Flat text :=
  ⟨fun hmem => (Token.ne_parens_of_isBlank (h _ hmem)).1 rfl,
    fun hmem => (Token.ne_parens_of_isBlank (h _ hmem)).2 rfl⟩

theorem level_flat_append {front : Text} (h : Flat front) (text : Text) (depth : Nat) :
    level depth (front ++ text) = level depth text := by
  rw [level_append, level_of_flat h]
  rfl

theorem level_append_flat {back : Text} (h : Flat back) (text : Text) (depth : Nat) :
    level depth (text ++ back) = level depth text := by
  rw [level_append]
  cases level depth text with
  | none => rfl
  | some result => exact level_of_flat h result

theorem balanced_trim {text : Text} : Balanced (Text.trim text) ↔ Balanced text := by
  obtain ⟨left, right, htext, hleft, hright⟩ := Text.exists_trim_eq text
  rw [Balanced, Balanced]
  conv_rhs =>
    rw [htext, List.append_assoc, level_flat_append (.of_blank hleft), level_append_flat (.of_blank hright)]

/-- An expression in parentheses is balanced when the expression is. -/
theorem balanced_parens_iff {text : Text} (h : (level 0 text).isSome) :
    Balanced (Term.parens text) ↔ Balanced text := by
  obtain ⟨result, hresult⟩ := Option.isSome_iff_exists.1 h
  have hone : level 1 text = some (result + 1) := level_add 1 hresult
  rw [Balanced, Balanced, Term.parens, List.cons_append, level_opening, level_append, hone, hresult]
  simp

/-- Behind a balanced text all is open that was open before it, and so it is at every place in it. -/
theorem Balanced.keeps_open {text before : Text} {depth : Nat} (h : Balanced text)
    (hbefore : level 0 before = some depth) : level 0 (before ++ text) = some depth ∧
      ∀ start, start <+: text → ∃ opened, level 0 (before ++ start) = some (depth + opened) := by
  constructor
  · rw [level_append, hbefore]
    exact h.level_eq depth
  · rintro start ⟨rest, rfl⟩
    rw [Balanced, level_append] at h
    cases hstart : level 0 start with
    | none => simp [hstart] at h
    | some opened =>
      refine ⟨opened, ?_⟩
      rw [level_append, hbefore]
      have := level_add depth hstart
      rwa [Nat.zero_add, Nat.add_comm opened] at this

end Balance

open Balance

/-! ### What parses was balanced -/

/-- Outer parentheses are taken off a text that has them at its ends, if the first is not closed before. -/
theorem unwrap?_eq_some_iff {text inside : Text} : unwrap? text = some inside ↔
    ∃ inner, text = Term.parens inner ∧ (level 0 inner).isSome ∧ inside = Text.trim inner := by
  constructor
  · intro h
    cases text with
    | nil => cases h
    | cons c cs =>
      rw [unwrap?] at h
      split at h
      · rename_i hwrapped
        obtain ⟨rfl, hlast, hopen⟩ := hwrapped
        obtain ⟨inner, rfl⟩ := List.getLast?_eq_some_iff.1 hlast
        rw [List.dropLast_concat] at h hopen
        exact ⟨inner, rfl, staysOpen_eq inner 0 ▸ hopen, (Option.some.inj h).symm⟩
      · cases h
  · rintro ⟨inner, rfl, hopen, rfl⟩
    rw [Term.parens, List.cons_append, unwrap?, if_pos]
    · rw [List.dropLast_concat]
    · rw [List.dropLast_concat, List.getLast?_concat, staysOpen_eq]
      exact ⟨rfl, rfl, hopen⟩

theorem Literal.level_body {rest : Text} {literal : Literal} (h : read rest = .ok literal) :
    level 0 rest = level 0 literal.body := by
  obtain ⟨front, hrest, hfront⟩ := exists_front h
  have hflat : Flat front := by
    constructor
    · exact fun hmem => (hfront _ hmem).elim (by decide) (by decide)
    · exact fun hmem => (hfront _ hmem).elim (by decide) (by decide)
  rw [hrest, level_flat_append hflat]

namespace Phrase

variable {definitions : Definitions}

theorem of_resolve_foldr {body : Phrase} : ∀ {params : Text} {term : Term},
    (params.foldr lambda body).resolve definitions = .ok term →
      ∃ inner, body.resolve definitions = .ok inner
  | [], term, h => ⟨term, h⟩
  | param :: params, term, h => by
    obtain ⟨inner, hinner, -⟩ := of_resolve_lambda h
    exact of_resolve_foldr hinner

/-- A text that is read as a phrase whose names are found is balanced, and so is a token that is more than a
    word. -/
theorem balanced_of_resolve :
    (∀ (place : Place) (text : Text),
      (∃ term, (read place text).resolve definitions = .ok term) → Balanced text) ∧
    (∀ (role : Role) (token : Token), token.kind ≠ .word →
      (∃ term, (readToken role token).resolve definitions = .ok term) → Balanced token.text) ∧
    ∀ rest : Text, (∃ term, (readLiteral rest).resolve definitions = .ok term) → Balanced rest := by
  refine read.mutual_induct _ _ _ ?_ ?_ ?_ ?_ ?_ ?_ ?_ ?_ ?_ ?_
  · intro place text rest htrim ih h
    rw [read_of_dollar htrim] at h
    rw [← balanced_trim, htrim]
    exact (ih h).cons (by decide) (by decide)
  · intro place text inside hdollar hunwrap ih h
    rw [read_of_unwrap hdollar hunwrap] at h
    cases place with
    | expression =>
      obtain ⟨inner, hparens, hopen, rfl⟩ := unwrap?_eq_some_iff.1 hunwrap
      rw [← balanced_trim, hparens, balanced_parens_iff hopen, ← balanced_trim]
      exact ih h
    | body => cases hunwrap
  · intro place text error hdollar hunwrap htokens h
    rw [read_of_error hdollar hunwrap htokens] at h
    obtain ⟨term, hterm⟩ := h
    cases hterm
  · intro place text hdollar hunwrap htokens _
    exact balanced_trim.1 (Token.balanced_of_ofText htokens).1
  · intro place text first later hdollar hunwrap htokens _ _ _
    exact balanced_trim.1 (Token.balanced_of_ofText htokens).1
  · intro role token hkind ih _ h
    rw [readToken_of_group hkind] at h
    obtain ⟨inner, htext, hinside⟩ := Token.exists_parens_of_kind hkind
    have hinner : Balanced inner := balanced_trim.1 (hinside ▸ ih h)
    rw [htext]
    exact hinner.parens
  · intro role token hkind ih _ h
    rw [readToken_of_lambda hkind] at h
    obtain ⟨rest, htext⟩ := List.head?_eq_some_iff.1 ((Token.kind_eq_lambda_iff token).1 hkind)
    rw [htext, List.tail_cons] at ih h
    rw [htext]
    exact (ih h).cons (by decide) (by decide)
  · intro role token hkind hword
    exact absurd hkind hword
  · intro rest error hread h
    rw [readLiteral_of_error hread] at h
    obtain ⟨term, hterm⟩ := h
    cases hterm
  · intro rest literal hread ih h
    rw [readLiteral_of_ok hread] at h
    obtain ⟨term, hterm⟩ := h
    rw [Balance.Balanced, Literal.level_body hread]
    exact ih (of_resolve_foldr hterm)

end Phrase

/-! ### What is written is balanced -/

namespace Term

theorem balanced_arrow : ∀ {term : Term}, term.EveryName Balanced → Balanced term.arrow
  | .var _, h => .of_flat (.letter h)
  | .ref _, h => h
  | .abs param body, h => by
    have hparam : Balanced (parens [param] ++ " => ".toList) :=
      (Balanced.of_flat (.letter h.1)).parens.append (by decide)
    exact hparam.append (balanced_arrow h.2)
  | .app function argument, h => by
    have hfunction := balanced_arrow h.1
    refine Balanced.append ?_ (balanced_arrow h.2).parens
    split
    · exact hfunction.parens
    · exact hfunction

/-- CORRECT: only a text whose parentheses match is parsed, and the term is written with parentheses that
    match. Put behind any text, it closes none of the parentheses that are open there. -/
theorem matched_of_parse (definitions : Definitions) (text : Text) : ∀ parser ∈ parsers,
    (∀ term, parser definitions text = .ok term →
      Matched text ∧ Matched term.arrow ∧
      ∀ before depth, level 0 before = some depth →
        level 0 (before ++ term.arrow) = some depth ∧
        ∀ start, start <+: term.arrow → ∃ opened, level 0 (before ++ start) = some (depth + opened)) ∧
    (¬Matched text → ∃ error, parser definitions text = .error error) := by
  intro parser hparser
  obtain ⟨place, hread⟩ := exists_place hparser
  have hinput : ∀ term, parser definitions text = .ok term → Balanced text := by
    intro term hterm
    rw [hread] at hterm
    exact Phrase.balanced_of_resolve.1 place text ⟨term, hterm⟩
  have houtput : ∀ term, parser definitions text = .ok term → Balanced term.arrow := by
    intro term hterm
    rw [hread] at hterm
    have hnames := everyName_of_resolve _ (Phrase.everyWord_cutFrom place text) hterm
    exact balanced_arrow (hnames.mono fun _ h => h.balanced)
  refine ⟨fun term hterm => ⟨balanced_iff_matched.1 (hinput term hterm),
    balanced_iff_matched.1 (houtput term hterm), fun before depth => (houtput term hterm).keeps_open⟩,
    fun hunmatched => ?_⟩
  cases hterm : parser definitions text with
  | error error => exact ⟨error, rfl⟩
  | ok term => exact absurd (balanced_iff_matched.1 (hinput term hterm)) hunmatched

/-- The name `g(a)` has parentheses of its own. In a statement that prints a number two parentheses are open
    before the expression, and they are open behind it. -/
theorem matched_of_parse_name_with_parentheses :
    Matched "(g(a) ($x.x))".toList ∧ Matched "g(a)((x) => x)".toList ∧
    level 0 ("console.log(toNumber(".toList ++ "g(a)((x) => x)".toList) = some 2 ∧
    ∃ error, parse Table.empty "((a)".toList = .error error := by
  have hparse : parse (Table.empty.insert "g(a)".toList []) "(g(a) ($x.x))".toList =
      .ok (.app (.ref "g(a)".toList) (.abs 'x' (.var 'x'))) := by cbv
  obtain ⟨hinput, houtput, hinserted⟩ :=
    (matched_of_parse _ _ parse List.mem_cons_self).1 _ hparse
  refine ⟨hinput, houtput, (hinserted "console.log(toNumber(".toList 2 (by decide)).1, ?_⟩
  exact (matched_of_parse Table.empty "((a)".toList parse List.mem_cons_self).2 (by decide)

end Term

end LambdaArrow
