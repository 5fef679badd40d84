import LambdaArrow.Proofs.Literals
import LambdaArrow.Proofs.Pieces
import LambdaArrow.Proofs.Reader
import LambdaArrow.Proofs.Trimming
import LambdaArrow.Term.Parser

/-! Where the names of a term come from. Whatever is read from a text is read from a stretch of it: the
    trimmed text, the inside of its parentheses, a token, the body of a literal. So a word of the phrase is
    a token of some stretch, and what holds of such tokens holds of every name of the term, while variables
    and parameters are letters. -/

namespace LambdaArrow

namespace Phrase

/-- Every word satisfies `holds`. -/
def EveryWord (holds : Text → Prop) : Phrase → Prop
  | .word _ text => holds text
  | .lambda _ body => body.EveryWord holds
  | .apply function argument => function.EveryWord holds ∧ argument.EveryWord holds
  | .fault _ => True

variable {holds : Text → Prop}

theorem EveryWord.mono {other : Text → Prop} (hother : ∀ text, holds text → other text)
    {phrase : Phrase} (h : phrase.EveryWord holds) : phrase.EveryWord other := by
  induction phrase with
  | word role text => exact hother text h
  | lambda param body ih => exact ih h
  | apply function argument ihf iha => exact ⟨ihf h.1, iha h.2⟩
  | fault error => trivial

theorem EveryWord.foldl : ∀ {arguments : List Phrase} {function : Phrase}, function.EveryWord holds →
    (∀ argument ∈ arguments, argument.EveryWord holds) → (arguments.foldl apply function).EveryWord holds
  | [], _, hfunction, _ => hfunction
  | argument :: arguments, function, hfunction, harguments => by
    have happly : (apply function argument).EveryWord holds :=
      ⟨hfunction, harguments argument List.mem_cons_self⟩
    exact happly.foldl fun other hother => harguments other (List.mem_cons_of_mem _ hother)

theorem EveryWord.foldr {body : Phrase} (hbody : body.EveryWord holds) (params : Text) :
    (params.foldr lambda body).EveryWord holds := by
  induction params with
  | nil => exact hbody
  | cons param params ih => exact ih

end Phrase

/-! ### Stretches of a text -/

theorem within_of_unwrap? {text inside : Text} (h : unwrap? text = some inside) : inside <:+: text := by
  cases text with
  | nil => cases h
  | cons c cs =>
    rw [unwrap?] at h
    split at h
    · cases h
      exact (Text.trim_within _).trans
        ((List.dropLast_prefix cs).isInfix.trans (List.suffix_cons c cs).isInfix)
    · cases h

theorem Place.within_of_unwrap? {place : Place} {text inside : Text}
    (h : place.unwrap? text = some inside) : inside <:+: text := by
  cases place with
  | expression => exact LambdaArrow.within_of_unwrap? h
  | body => cases h

theorem Token.inside_within (token : Token) : token.inside <:+: token.text :=
  (Text.trim_within _).trans ((List.dropLast_prefix _).isInfix.trans (List.tail_suffix _).isInfix)

theorem Literal.body_within {rest : Text} {literal : Literal} (h : read rest = .ok literal) :
    literal.body <:+: rest := by
  obtain ⟨front, hrest, -⟩ := exists_front h
  exact ⟨front, [], by rw [List.append_nil]; exact hrest.symm⟩

/-! ### Words that are read -/

section

variable {holds : Text → Text → Prop}

/-- What holds of the words among the tokens of a text, and in every longer text, holds of all words that
    are read from a text. -/
theorem Phrase.everyWord_read
    (hmono : ∀ {text more word : Text}, text <:+: more → holds text word → holds more word)
    (hcut : ∀ {text : Text} {tokens : List Token}, Token.ofText text = .ok tokens →
      ∀ token ∈ tokens, token.kind = .word → holds text token.text) :
    (∀ (place : Place) (text : Text), (read place text).EveryWord (holds text)) ∧
      (∀ (role : Role) (token : Token) (text : Text), token.text <:+: text →
        (token.kind = .word → holds text token.text) → (readToken role token).EveryWord (holds text)) ∧
      ∀ rest : Text, (readLiteral rest).EveryWord (holds rest) := by
  refine read.mutual_induct _ _ _ ?_ ?_ ?_ ?_ ?_ ?_ ?_ ?_ ?_ ?_
  · intro place text rest htrim ih
    rw [read_of_dollar htrim]
    have hrest : rest <:+: text := by
      have hsuffix : rest <:+ text.trim := htrim ▸ List.suffix_cons '$' rest
      exact hsuffix.isInfix.trans (Text.trim_within text)
    exact ih.mono fun _ => hmono hrest
  · intro place text inside hdollar hunwrap ih
    rw [read_of_unwrap hdollar hunwrap]
    exact ih.mono fun _ => hmono ((Place.within_of_unwrap? hunwrap).trans (Text.trim_within text))
  · intro place text error hdollar hunwrap htokens
    rw [read_of_error hdollar hunwrap htokens]
    trivial
  · intro place text hdollar hunwrap htokens
    rw [read_of_nil hdollar hunwrap htokens]
    trivial
  · intro place text first later hdollar hunwrap htokens ihfirst ihlater
    rw [read_of_tokens hdollar hunwrap htokens]
    have htrim := Text.trim_within text
    have hwithin := fun token htoken => (Token.cutFrom_of_ofText htokens token htoken).within.trans htrim
    have hwords := fun token htoken hkind => hmono htrim (hcut htokens token htoken hkind)
    refine EveryWord.foldl ?_ fun argument hargument => ?_
    · exact ihfirst text (hwithin first List.mem_cons_self) (hwords first List.mem_cons_self)
    · obtain ⟨token, htoken, rfl⟩ := List.mem_map.1 hargument
      exact ihlater ⟨token, htoken⟩ text (hwithin token (List.mem_cons_of_mem _ htoken))
        (hwords token (List.mem_cons_of_mem _ htoken))
  · intro role token hkind ih text hwithin _
    rw [readToken_of_group hkind]
    exact ih.mono fun _ => hmono (token.inside_within.trans hwithin)
  · intro role token hkind ih text hwithin _
    rw [readToken_of_lambda hkind]
    exact ih.mono fun _ => hmono ((List.tail_suffix _).isInfix.trans hwithin)
  · intro role token hkind text _ hword
    rw [readToken_of_word hkind]
    exact hword hkind
  · intro rest error hread
    rw [readLiteral_of_error hread]
    trivial
  · intro rest literal hread ih
    rw [readLiteral_of_ok hread]
    exact (ih.mono fun _ => hmono (Literal.body_within hread)).foldr literal.params

end

theorem Phrase.everyWord_cutFrom (place : Place) (text : Text) :
    (read place text).EveryWord (Token.CutFrom text) :=
  (everyWord_read (fun hmore hword => hword.mono hmore)
    (fun htokens token htoken _ => Token.cutFrom_of_ofText htokens token htoken)).1 place text

/-! ### Names that are found -/

theorem letter?_eq_some_iff {text : Text} {name : Char} :
    letter? text = some name ↔ text = [name] ∧ name.isLower := by
  rcases text with _ | ⟨c, _ | ⟨d, rest⟩⟩
  · simp [letter?]
  · simp only [letter?, List.cons.injEq, and_true]
    split
    · rename_i hlower
      simp only [Option.some.injEq]
      exact ⟨fun h => ⟨h, h ▸ hlower⟩, fun h => h.1⟩
    · rename_i hlower
      simp only [reduceCtorEq, false_iff]
      rintro ⟨rfl, h⟩
      exact hlower h
  · simp [letter?]

/-- A word stands for the letter it is, or for itself as a name. -/
theorem Role.of_resolve {definitions : Definitions} {role : Role} {text : Text} {term : Term}
    (h : role.resolve definitions text = .ok term) :
    (∃ name, text = [name] ∧ name.isLower ∧ term = .var name) ∨
      (letter? text = none ∧ term = .ref text) := by
  rw [resolve] at h
  cases hletter : letter? text with
  | some name =>
    rw [hletter] at h
    obtain ⟨htext, hlower⟩ := letter?_eq_some_iff.1 hletter
    exact Or.inl ⟨name, htext, hlower, (Except.ok.inj h).symm⟩
  | none =>
    simp only [hletter] at h
    refine Or.inr ⟨rfl, ?_⟩
    cases role with
    | verbatim => exact (Except.ok.inj h).symm
    | head =>
      rw [refer] at h
      split at h
      · exact (Except.ok.inj h).symm
      · cases h
    | argument =>
      rw [refer] at h
      split at h
      · exact (Except.ok.inj h).symm
      · cases h

theorem Phrase.isLower_of_resolve_lambda {definitions : Definitions} {param : Char} {body : Phrase}
    {term : Term} (h : (lambda param body).resolve definitions = .ok term) : param.isLower := by
  obtain ⟨inner, hbody, -⟩ := of_resolve_lambda h
  by_contra hparam
  simp [resolve, hbody, hparam, bind, Except.bind] at h

namespace Term

/-- Variables and parameters are lowercase letters, and every name satisfies `holds`. -/
def EveryName (holds : Text → Prop) : Term → Prop
  | .var name => name.isLower
  | .ref name => holds name
  | .abs param body => param.isLower ∧ body.EveryName holds
  | .app function argument => function.EveryName holds ∧ argument.EveryName holds

theorem EveryName.mono {holds other : Text → Prop} (hother : ∀ text, holds text → other text) :
    ∀ {term : Term}, term.EveryName holds → term.EveryName other
  | .var _, h => h
  | .ref name, h => hother name h
  | .abs _ _, h => ⟨h.1, h.2.mono hother⟩
  | .app _ _, h => ⟨h.1.mono hother, h.2.mono hother⟩

/-- What holds of every word that is no letter holds of every name. -/
theorem everyName_of_unlettered {holds : Text → Prop} {definitions : Definitions} (phrase : Phrase) :
    ∀ {term : Term}, phrase.EveryWord (fun word => letter? word = none → holds word) →
      phrase.resolve definitions = .ok term → term.EveryName holds := by
  induction phrase with
  | word role text =>
    intro term hword h
    rcases Role.of_resolve h with ⟨name, -, hlower, rfl⟩ | ⟨hletter, rfl⟩
    · exact hlower
    · exact hword hletter
  | lambda param body ih =>
    intro term hwords h
    have hparam := Phrase.isLower_of_resolve_lambda h
    obtain ⟨inner, hbody, rfl⟩ := Phrase.of_resolve_lambda h
    exact ⟨hparam, ih hwords hbody⟩
  | apply function argument ihf iha =>
    intro term hwords h
    obtain ⟨f, a, hfunction, hargument, rfl⟩ := Phrase.of_resolve_apply h
    exact ⟨ihf hwords.1 hfunction, iha hwords.2 hargument⟩
  | fault error =>
    intro term _ h
    cases h

theorem everyName_of_resolve {holds : Text → Prop} {definitions : Definitions} (phrase : Phrase)
    {term : Term} (hwords : phrase.EveryWord holds) (h : phrase.resolve definitions = .ok term) :
    term.EveryName holds := by
  refine everyName_of_unlettered phrase (hwords.mono ?_) h
  exact fun word hword _ => hword

theorem everyName_of_parse {definitions : Definitions} {text : Text} {term : Term}
    (h : parse definitions text = .ok term) : term.EveryName (Token.CutFrom text) :=
  everyName_of_resolve _ (Phrase.everyWord_cutFrom .expression text) h

end Term

end LambdaArrow
