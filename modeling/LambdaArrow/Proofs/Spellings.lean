import LambdaArrow.Proofs.Reader
import LambdaArrow.Proofs.Trimming
import LambdaArrow.Term.Parser

/-! Parameters may be written together, in groups between dots, or as literals in each other:

        $fa.f a      $f.a.f a      $f.$a.f a

    Behind the first group and its dot a literal goes on with further groups and its body, wherever the body
    starts. A second group is one more of these, and a second literal is a body that is read on its own. So
    each spelling puts its first letters around what the rest of it stands for, and where the rest fails, it
    fails for the same kind of reason. -/

namespace LambdaArrow

/-! ### Trimming a literal -/

namespace Text

/-- Of a literal only the end of its body is trimmed. -/
theorem trim_literal (front body : Text) :
    trim ('$' :: (front ++ '.' :: body)) = '$' :: (front ++ '.' :: trimRight body) := by
  have hsplit : ∀ back : Text, '$' :: (front ++ '.' :: back) = '$' :: front ++ ['.'] ++ back := by simp
  have hlast : ∀ c ∈ ('$' :: front ++ ['.']).getLast?, isBlank c = false := by
    intro c hc
    rw [List.getLast?_concat] at hc
    cases hc
    decide
  rw [trim, trimLeft_of_head (by simp; decide), hsplit, trimRight_append hlast, ← hsplit]

end Text

/-- A dollar sign starts the body. -/
theorem Literal.further_dollar (rest : Text) : further ('$' :: rest) = ⟨[], '$' :: rest⟩ := by
  apply further_of_startsBody
  rw [StartsBody, List.dropWhile_cons_of_neg (by decide)]
  simp

/-! ### Parameters around a term -/

namespace Term

theorem arity_foldr_abs (params : Text) (body : Term) :
    (params.foldr abs body).arity = params.length + body.arity := by
  induction params with
  | nil => simp
  | cons param params ih =>
    simp only [List.foldr_cons, arity, ih, List.length_cons]
    omega

/-- One result is the other with the letters of `params` around its term, or both fail for one kind of
    reason. -/
def Wraps (params : Text) (inner outer : Except Error Term) : Prop :=
  (∃ term, inner = .ok term ∧ outer = .ok (params.foldr abs term)) ∨
    ∃ error error', inner = .error error ∧ outer = .error error' ∧ error'.kind = error.kind

end Term

namespace Phrase

variable {definitions : Definitions}

/-- Letters around a phrase are abstractions around its term, and its failure is theirs. -/
theorem wraps_foldr {params : Text} (h : ∀ c ∈ params, c.isLower) (body : Phrase) :
    Term.Wraps params (body.resolve definitions) ((params.foldr lambda body).resolve definitions) := by
  induction params with
  | nil =>
    rcases hbody : body.resolve definitions with error | term
    · exact Or.inr ⟨error, error, rfl, hbody, rfl⟩
    · exact Or.inl ⟨term, rfl, hbody⟩
  | cons param params ih =>
    rcases ih fun c hc => h c (List.mem_cons_of_mem _ hc) with
      ⟨term, hbody, hparams⟩ | ⟨error, error', hbody, hparams, hkind⟩
    · exact Or.inl ⟨term, hbody, resolve_lambda_ok (h param List.mem_cons_self) hparams⟩
    · refine Or.inr ⟨error, error', hbody, ?_, hkind⟩
      rw [List.foldr_cons, resolve, hparams]
      rfl

variable {params group : Text}

/-- Two literals with the same body, one of which has the letters of `params` in front of the parameters of
    the other. -/
theorem wraps_of_further {front rest last : Text} (hparams : Literal.isGroup params)
    (hgroup : Literal.isGroup group) (hfront : Literal.isGroup front)
    (hbody : (Literal.further rest).body = (Literal.further last).body)
    (hall : front ++ (Literal.further rest).params = params ++ (group ++ (Literal.further last).params)) :
    Term.Wraps params ((readLiteral (group ++ '.' :: last)).resolve definitions)
      ((readLiteral (front ++ '.' :: rest)).resolve definitions) := by
  have hinner := Literal.read_group hgroup last
  have houter := Literal.read_group hfront rest
  rw [hbody, hall] at houter
  by_cases hempty : Text.trim (Literal.further last).body = []
  · rw [if_pos hempty] at hinner houter
    rw [readLiteral_of_error hinner, readLiteral_of_error houter]
    exact Or.inr ⟨_, _, rfl, rfl, rfl⟩
  · rw [if_neg hempty] at hinner houter
    have hfoldr : readLiteral (front ++ '.' :: rest) =
        params.foldr lambda (readLiteral (group ++ '.' :: last)) := by
      rw [readLiteral_of_ok hinner, readLiteral_of_ok houter]
      exact List.foldr_append
    rw [hfoldr]
    exact wraps_foldr (Literal.isLower_of_isGroup hparams) _

/-- A literal as the body of another is read on its own. -/
theorem readLiteral_nested (hparams : Literal.isGroup params) {rest : Text}
    (htrim : Text.trim ('$' :: rest) = '$' :: rest) :
    readLiteral (params ++ '.' :: '$' :: rest) = params.foldr lambda (readLiteral rest) := by
  have hread := Literal.read_group hparams ('$' :: rest)
  rw [Literal.further_dollar, if_neg (by simp [htrim]), List.append_nil] at hread
  rw [readLiteral_of_ok hread, read_of_dollar htrim]

end Phrase

/-! ### The spellings of a literal -/

/-- Two groups of parameters written together, with a dot between them, and as a literal in the other. -/
def Literal.spellings (params group body : Text) : List Text :=
  ['$' :: (params ++ group ++ '.' :: body), '$' :: (params ++ '.' :: (group ++ '.' :: body)),
    '$' :: (params ++ '.' :: '$' :: (group ++ '.' :: body))]

namespace Term

variable (definitions : Definitions)

theorem parseLiteral_dollar (front body : Text) :
    parseLiteral definitions ('$' :: (front ++ '.' :: body)) =
      (Phrase.readLiteral (front ++ '.' :: Text.trimRight body)).resolve definitions := by
  rw [parseLiteral, Text.trim_literal]
  rfl

/-- Each spelling puts the first group around the literal of the second. -/
theorem wraps_spellings {params group : Text} (hparams : Literal.isGroup params)
    (hgroup : Literal.isGroup group) (body : Text) : ∀ text ∈ Literal.spellings params group body,
      Wraps params (parseLiteral definitions ('$' :: (group ++ '.' :: body)))
        (parseLiteral definitions text) := by
  intro text htext
  simp only [Literal.spellings, List.mem_cons, List.not_mem_nil, or_false] at htext
  rw [parseLiteral_dollar definitions group]
  rcases htext with rfl | rfl | rfl
  · rw [parseLiteral_dollar definitions (params ++ group)]
    exact Phrase.wraps_of_further hparams hgroup (Literal.isGroup_append hparams hgroup) rfl
      (List.append_assoc _ _ _)
  · have hfront := parseLiteral_dollar definitions (params ++ '.' :: group) body
    simp only [List.append_assoc, List.cons_append] at hfront
    rw [hfront]
    have hfurther := Literal.further_group hgroup (Text.trimRight body)
    exact Phrase.wraps_of_further hparams hgroup hparams (by rw [hfurther]) (by rw [hfurther])
  · have hfront := parseLiteral_dollar definitions (params ++ '.' :: '$' :: group) body
    simp only [List.append_assoc, List.cons_append] at hfront
    -- what is trimmed already stays as it is
    have htrim := (Text.trimmed_trim ('$' :: (group ++ '.' :: body))).trim_eq
    rw [Text.trim_literal] at htrim
    rw [hfront, Phrase.readLiteral_nested hparams htrim]
    exact Phrase.wraps_foldr (Literal.isLower_of_isGroup hparams) _

/-- CORRECT: two groups of parameters may be written together, with a dot between them or as one literal in
    the other. All spellings parse to the letters of the first group around the term of the literal that the
    second one starts, or all fail for the same kind of reason, like that literal itself. -/
theorem parseLiteral_spellings (params group body : Text)
    (hparams_ne : params ≠ []) (hparams : ∀ c ∈ params, c.isLower) (hgroup_ne : group ≠ [])
    (hgroup : ∀ c ∈ group, c.isLower) :
    (∃ inner, parseLiteral definitions ('$' :: (group ++ '.' :: body)) = .ok inner ∧
      (∀ text ∈ Literal.spellings params group body,
        parseLiteral definitions text = .ok (params.foldr abs inner)) ∧
      (params.foldr abs inner).arity = params.length + inner.arity) ∨
    ∃ kind, (∃ error, parseLiteral definitions ('$' :: (group ++ '.' :: body)) = .error error ∧
        error.kind = kind) ∧
      ∀ text ∈ Literal.spellings params group body,
        ∃ error, parseLiteral definitions text = .error error ∧ error.kind = kind := by
  have hwraps := wraps_spellings definitions
    (Literal.isGroup_of_forall hparams_ne hparams) (Literal.isGroup_of_forall hgroup_ne hgroup) body
  rcases hinner : parseLiteral definitions ('$' :: (group ++ '.' :: body)) with error | inner
  · refine Or.inr ⟨error.kind, ⟨error, rfl, rfl⟩, fun text htext => ?_⟩
    rcases hwraps text htext with ⟨term, hok, -⟩ | ⟨cause, other, hcause, hother, hkind⟩
    · rw [hinner] at hok
      cases hok
    · rw [hinner] at hcause
      cases hcause
      exact ⟨other, hother, hkind⟩
  · refine Or.inl ⟨inner, rfl, fun text htext => ?_, arity_foldr_abs params inner⟩
    rcases hwraps text htext with ⟨term, hok, houter⟩ | ⟨cause, other, hcause, -⟩
    · rw [hinner] at hok
      cases hok
      exact houter
    · rw [hinner] at hcause
      cases hcause

/-- The body goes on with one more group, which belongs to the parameters in each spelling. -/
theorem parseLiteral_spellings_further_group :
    parseLiteral Table.empty "$abc.x.c x ".toList =
        .ok ("abcx".toList.foldr abs (.app (.var 'c') (.var 'x'))) ∧
      parseLiteral Table.empty "$ab.c.x.c x ".toList =
        .ok ("abcx".toList.foldr abs (.app (.var 'c') (.var 'x'))) ∧
      parseLiteral Table.empty "$ab.$c.x.c x ".toList =
        .ok ("abcx".toList.foldr abs (.app (.var 'c') (.var 'x'))) := by
  have hinner : parseLiteral Table.empty "$c.x.c x ".toList =
      .ok ("cx".toList.foldr abs (.app (.var 'c') (.var 'x'))) := by cbv
  have hparams : ∀ c ∈ "ab".toList, c.isLower := List.all_eq_true.1 (by decide)
  have hgroup : ∀ c ∈ "c".toList, c.isLower := List.all_eq_true.1 (by decide)
  rcases parseLiteral_spellings Table.empty "ab".toList "c".toList "x.c x ".toList (by decide) hparams
    (by decide) hgroup with ⟨inner, hok, hall, -⟩ | ⟨kind, ⟨error, herror, -⟩, -⟩
  · have hsame : Except.ok inner = Except.ok _ := hok.symm.trans hinner
    cases hsame
    exact ⟨hall _ (by decide), hall _ (by decide), hall _ (by decide)⟩
  · have hfailed : Except.error error = Except.ok _ := herror.symm.trans hinner
    cases hfailed

end Term

end LambdaArrow
