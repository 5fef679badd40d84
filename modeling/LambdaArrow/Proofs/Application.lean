import LambdaArrow.Proofs.Agreement
import LambdaArrow.Proofs.Segments

/-! Application, from the source text on. A text is its tokens, each applied to the next from the left, so one
    more token behind a text is the argument of all before it, whatever the text is:

        f a              ──▶ f(a)
        f a (g b)        ──▶ f(a)(g(b))
        (f a) ($x.x)     ──▶ f(a)((x) => x)

    The last text starts with a group whose parentheses are taken off when it stands alone. Behind it the group
    is a token, which is read from the same inside. -/

namespace LambdaArrow

open Balance

namespace Phrase

variable {place : Place} {text word : Text}

/-! ### Texts that are one token -/

/-- A token is read alike wherever it stands in a text. -/
theorem readToken_congr (role : Role) (word : Text) (first second : Nat) :
    readToken role ⟨word, first⟩ = readToken role ⟨word, second⟩ := by
  have hkinds : Token.kind ⟨word, first⟩ = Token.kind ⟨word, second⟩ := rfl
  cases hkind : Token.kind ⟨word, second⟩ with
  | group => rw [readToken_of_group hkind, readToken_of_group (hkinds.trans hkind)]; rfl
  | lambda => rw [readToken_of_lambda hkind, readToken_of_lambda (hkinds.trans hkind)]
  | word => rw [readToken_of_word hkind, readToken_of_word (hkinds.trans hkind)]

/-- A text that is its own only token is read as that token. -/
theorem read_of_token (hword : Token.ofText word = .ok [⟨word, 0⟩]) :
    read place word = readToken place.first ⟨word, 0⟩ := by
  have htrim : word.trim = word := (Token.ofText_eq_self_iff.1 hword).2.trimmed.trim_eq
  by_cases hstart : ∃ rest, word.trim = '$' :: rest
  · obtain ⟨rest, hrest⟩ := hstart
    have hkind : Token.kind ⟨word, 0⟩ = .lambda := by
      rw [Token.kind_eq_lambda_iff, ← htrim, hrest]
      rfl
    rw [read_of_dollar hrest, readToken_of_lambda hkind, ← htrim, hrest]
    rfl
  · exact read_eq_spine (fun rest hrest => hstart ⟨rest, hrest⟩) (by rw [htrim]; exact hword)

/-- What a token stands for first in an expression, it stands for in every role. -/
theorem resolve_readToken_of_head {definitions : Definitions} {token : Token} {term : Term}
    (h : (readToken .head token).resolve definitions = .ok term) (role : Role) :
    (readToken role token).resolve definitions = .ok term := by
  cases hkind : token.kind with
  | group => rwa [readToken_of_group hkind] at h ⊢
  | lambda => rwa [readToken_of_lambda hkind] at h ⊢
  | word =>
    rw [readToken_of_word hkind, resolve, Role.resolve] at h ⊢
    rcases hletter : letter? token.text with _ | name
    · rw [hletter] at h
      cases hknown : definitions.contains token.text with
      | false => simp [Role.refer, hknown] at h
      | true => cases role <;> simpa [Role.refer, hknown] using h
    · rwa [hletter] at h

/-! ### One more token -/

/-- A token behind a text is the argument of what the text is. -/
theorem read_append_token (hdollar : ∀ rest, text.trim ≠ '$' :: rest) (htext : Balanced text)
    (hne : text.trim ≠ []) (hword : Token.ofText word = .ok [⟨word, 0⟩]) :
    read place (text ++ ' ' :: word) =
      .apply (read place text) (readToken place.later ⟨word, 0⟩) := by
  obtain ⟨hword_ne, hunbroken⟩ := Token.ofText_eq_self_iff.1 hword
  have hbalanced : Balanced text.trim := balanced_trim.2 htext
  obtain ⟨gap, hgap_ne, hgap, htrim⟩ :=
    Text.exists_trim_append hne (by decide : Text.isBlank ' ') hunbroken.trimmed hword_ne
  -- the text has a first token, which stays the first
  have htokens := Token.ofText_of_balanced hbalanced
  obtain ⟨first, later, hsplit⟩ : ∃ first later, Token.split text.trim = first :: later := by
    refine List.exists_cons_of_ne_nil fun hnil => hne (Token.trim_eq_nil_of_ofText ?_)
    rw [htokens, hnil]
  rw [hsplit] at htokens
  have hwhole : Token.ofText (text ++ ' ' :: word).trim =
      .ok (first :: (later ++ [⟨word, Text.byteLength (text.trim ++ gap)⟩])) := by
    have hgap_flat : Balanced gap := .of_flat (.of_blank hgap)
    rw [htrim, Token.ofText_of_balanced (hbalanced.append (hgap_flat.append hunbroken.closed)),
      Token.split_append_gap hbalanced hgap hgap_ne, hsplit,
      (Token.Solid.of_unbroken hunbroken hword_ne).splitFrom]
    rfl
  have hdollar' : ∀ rest, (text ++ ' ' :: word).trim ≠ '$' :: rest := by
    intro rest hrest
    obtain ⟨c, cs, hcs⟩ := List.exists_cons_of_ne_nil hne
    rw [htrim, hcs, List.cons_append] at hrest
    exact hdollar cs (by rw [hcs, (List.cons.inj hrest).1])
  rw [read_eq_spine hdollar' hwhole, spine_concat, ← read_eq_spine hdollar htokens,
    readToken_congr _ word _ 0]

/-- Only a text that is not blank stands for a term. -/
theorem trim_ne_nil_of_resolve {definitions : Definitions} {term : Term}
    (h : (read place text).resolve definitions = .ok term) : text.trim ≠ [] := by
  intro hnil
  rw [read_of_blank hnil] at h
  cases h

end Phrase

namespace Term

/-- CORRECT: behind a text that is no literal, an expression in parentheses is the argument of what the text
    is, and fails as it fails alone. So is a text that is one token, without parentheses around it. -/
theorem parse_append_argument (definitions : Definitions) (text : Text) (hdollar : text.trim.head? ≠ some '$') :
    ∀ parser ∈ parsers, ∀ function, parser definitions text = .ok function →
      (∀ inner, Matched inner →
        (∀ argument, parse definitions inner = .ok argument →
          parser definitions (text ++ ' ' :: parens inner) = .ok (.app function argument)) ∧
        ∀ error, parse definitions inner = .error error →
          parser definitions (text ++ ' ' :: parens inner) = .error error) ∧
      ∀ word argument, Token.ofText word = .ok [⟨word, 0⟩] → parse definitions word = .ok argument →
        parser definitions (text ++ ' ' :: word) = .ok (.app function argument) := by
  intro parser hparser function hfunction
  obtain ⟨place, hread⟩ := exists_place hparser
  rw [hread] at hfunction
  have hstart : ∀ rest, text.trim ≠ '$' :: rest := fun rest hrest => hdollar (by rw [hrest]; rfl)
  have hbalanced : Balanced text := Phrase.balanced_of_resolve.1 place text ⟨function, hfunction⟩
  have happend : ∀ {word : Text}, Token.ofText word = .ok [⟨word, 0⟩] →
      parser definitions (text ++ ' ' :: word) =
        (Phrase.apply (Phrase.read place text) (Phrase.readToken place.later ⟨word, 0⟩)).resolve definitions := by
    intro word hword
    rw [hread, Phrase.read_append_token hstart hbalanced (Phrase.trim_ne_nil_of_resolve hfunction) hword]
  refine ⟨fun inner hinner => ?_, fun word argument hword hargument => ?_⟩
  · -- a group is read from its inside, in any role
    have hgroup : Phrase.readToken place.later ⟨parens inner, 0⟩ = Phrase.read .expression inner := by
      rw [Phrase.readToken_of_group (Token.kind_parens _ _), Token.inside_parens, Phrase.read_trim]
    rw [happend (Token.ofText_parens (balanced_iff_matched.2 hinner)), hgroup]
    refine ⟨fun argument hargument => Phrase.resolve_apply_ok hfunction hargument, fun error herror => ?_⟩
    have hinside : (Phrase.read .expression inner).resolve definitions = .error error := herror
    rw [Phrase.resolve, hfunction, hinside]
    rfl
  · rw [parse, Phrase.read_of_token hword] at hargument
    rw [happend hword]
    exact Phrase.resolve_apply_ok hfunction (Phrase.resolve_readToken_of_head hargument place.later)

/-- Alone the first text is unwrapped twice, and in front of an argument it is a group. The argument is a
    literal, in parentheses or one token; a name in parentheses fails as it does alone. -/
theorem parse_append_argument_behind_group :
    parse Table.empty "((a b)) ($x.x y)".toList =
      .ok (.app (.app (.var 'a') (.var 'b')) (.abs 'x' (.app (.var 'x') (.var 'y')))) ∧
    parse Table.empty "((a b)) (Zero)".toList = .error (.unknownName "Zero".toList) ∧
    parseBody Table.empty "((a b)) $x.(x)".toList =
      .ok (.app (.app (.var 'a') (.var 'b')) (.abs 'x' (.var 'x'))) := by
  have hparse : parse Table.empty "((a b))".toList = .ok (.app (.var 'a') (.var 'b')) := by cbv
  have hbody : parseBody Table.empty "((a b))".toList = .ok (.app (.var 'a') (.var 'b')) := by cbv
  have hgroups := (parse_append_argument Table.empty "((a b))".toList (by decide) parse
    List.mem_cons_self _ hparse).1
  have htokens := (parse_append_argument Table.empty "((a b))".toList (by decide) parseBody
    (by simp [parsers]) _ hbody).2
  refine ⟨(hgroups "$x.x y".toList (by decide)).1 _ ?_, (hgroups "Zero".toList (by decide)).2 _ ?_,
    htokens "$x.(x)".toList _ (by decide) ?_⟩
  · cbv
  · cbv
  · cbv

end Term

end LambdaArrow
