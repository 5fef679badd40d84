import LambdaArrow.Proofs.Application
import LambdaArrow.Proofs.Causes
import LambdaArrow.Proofs.History
import LambdaArrow.Proofs.Surface

/-! Which names a term can have. A name comes out of groups and literals nested in any way, but in the end it
    is a word among the tokens of some stretch of the text. Such a word stands as one token wherever it is put,
    so whatever a term refers to, one can write down alone:

        (g(a b) $x.x Later)     ──▶ `g(a b)`, `Later`

    A definition asks less of its name, only a capital letter at the start. So there are names that can be
    defined and then not be used, in no text and by no parser:

        Zero:=$fa.a             `Zero` stands for itself
        A B:=$fa.a              two words, neither of them `A B`
        A(:=$fa.a               no tokens at all -/

namespace LambdaArrow

open Balance

namespace Token

/-! ### Words of a text -/

/-- A stretch of a text that is its own only token, and that is a word. -/
structure WordIn (text word : Text) : Prop where
  within : word <:+: text
  alone : ofText word = .ok [⟨word, 0⟩]
  kind : Token.kind ⟨word, 0⟩ = .word

theorem WordIn.mono {text more word : Text} (h : WordIn text word) (hmore : text <:+: more) :
    WordIn more word :=
  ⟨h.within.trans hmore, h.alone, h.kind⟩

/-- The words among the tokens of a text are such stretches. -/
theorem wordIn_of_ofText {text : Text} {tokens : List Token} (h : ofText text = .ok tokens) :
    ∀ token ∈ tokens, token.kind = .word → WordIn text token.text := by
  intro token htoken hkind
  obtain ⟨hne, hunbroken, before, after, htext, -⟩ := (cuts_of_ofText h).exists_append token htoken
  exact ⟨⟨before, after, htext.symm⟩, ofText_eq_self_iff.2 ⟨hne, hunbroken⟩, hkind⟩

theorem WordIn.ne_nil {text word : Text} (h : WordIn text word) : word ≠ [] :=
  (ofText_eq_self_iff.1 h.alone).1

/-- A word starts neither like a group nor like a literal. -/
theorem WordIn.head?_ne {text word : Text} (h : WordIn text word) :
    word.head? ≠ some '(' ∧ word.head? ≠ some '$' := by
  have hunbroken : Unbroken 0 (Token.mk word 0).text := (ofText_eq_self_iff.1 h.alone).2
  constructor
  · intro hopening
    have hkind := h.kind
    rw [hunbroken.kind_eq_group_iff.2 hopening] at hkind
    cases hkind
  · intro hdollar
    have hkind := h.kind
    rw [(kind_eq_lambda_iff ⟨word, 0⟩).2 hdollar] at hkind
    cases hkind

end Token

theorem Phrase.everyWord_wordIn (place : Place) (text : Text) :
    (read place text).EveryWord (Token.WordIn text) :=
  (everyWord_read (fun hmore hword => hword.mono hmore) Token.wordIn_of_ofText).1 place text

theorem Error.OfParsing.kind_ne {error : Error} (h : error.OfParsing) : error.kind ≠ .invalidParameter := by
  cases h <;> simp [kind, ofFault, atColumn]

namespace Term

theorem EveryName.of_at? {holds : Text → Prop} {name : Text} : ∀ {term : Term} {path : List Step},
    term.EveryName holds → term.at? path = some (.ref name) → holds name
  | term, [], h, hat => by
    cases hat
    exact h
  | .abs _ _, .body :: _, h, hat => h.2.of_at? hat
  | .app _ _, .function :: _, h, hat => h.1.of_at? hat
  | .app _ _, .argument :: _, h, hat => h.2.of_at? hat

/-- Every name of a term is a word of the text it was parsed from, and no letter. -/
theorem everyName_wordIn {definitions : Definitions} {text : Text} {term : Term}
    {parser : Definitions → Text → Except Error Term} (hparser : parser ∈ parsers)
    (h : parser definitions text = .ok term) :
    term.EveryName fun name => Token.WordIn text name ∧ letter? name = none := by
  obtain ⟨place, hread⟩ := exists_place hparser
  rw [hread] at h
  refine everyName_of_unlettered _ ((Phrase.everyWord_wordIn place text).mono ?_) h
  exact fun word hword hletter => ⟨hword, hletter⟩

/-- CORRECT: no parser ever complains about a parameter. In what it returns, variables and parameters are
    lowercase letters, and every name is a stretch of the text that stands as one word by itself, other than
    a letter. -/
theorem wellFormed_of_parse (definitions : Definitions) (text : Text) : ∀ parser ∈ parsers,
    (∀ error, parser definitions text = .error error → error.kind ≠ .invalidParameter) ∧
    ∀ term, parser definitions text = .ok term → term.EveryName fun name =>
      name ≠ [] ∧ name <:+: text ∧ name.head? ≠ some '(' ∧ name.head? ≠ some '$' ∧
      (∀ c, c.isLower → name ≠ [c]) ∧
      Token.ofText name = .ok [⟨name, 0⟩] ∧ Token.kind ⟨name, 0⟩ = .word := by
  intro parser hparser
  constructor
  · intro error herror
    obtain ⟨place, hread⟩ := exists_place hparser
    rw [hread] at herror
    exact (Phrase.Regular.ofParsing_of_resolve _ (Phrase.regular_read.1 place text) herror).kind_ne
  · intro term hterm
    refine (everyName_wordIn hparser hterm).mono fun name ⟨hword, hletter⟩ => ?_
    refine ⟨hword.ne_nil, hword.within, hword.head?_ne.1, hword.head?_ne.2, ?_, hword.alone, hword.kind⟩
    intro c hc hname
    rw [letter?_eq_some_iff.2 ⟨hname, hc⟩] at hletter
    cases hletter

/-- In a group the name `g(a b)` has parentheses and a blank of its own, and it is one word. A parameter that
    is no letter makes the whole literal malformed. -/
theorem wellFormed_of_parse_nested :
    (Term.app (.ref "g(a b)".toList) (.abs 'x' (.ref "Later".toList))).EveryName (fun name =>
      name ≠ [] ∧ name <:+: "(g(a b) $x.Later)".toList ∧ name.head? ≠ some '(' ∧ name.head? ≠ some '$' ∧
      (∀ c, c.isLower → name ≠ [c]) ∧
      Token.ofText name = .ok [⟨name, 0⟩] ∧ Token.kind ⟨name, 0⟩ = .word) ∧
    ∃ error, parseLiteral Table.empty "$F.x".toList = .error error ∧ error.kind ≠ .invalidParameter := by
  have hparse : parse (Table.empty.insert "g(a b)".toList []) "(g(a b) $x.Later)".toList =
      .ok (.app (.ref "g(a b)".toList) (.abs 'x' (.ref "Later".toList))) := by cbv
  have hmalformed : parseLiteral Table.empty "$F.x".toList = .error
      (.malformedLambda "$F.x".toList "no valid parameters in lambda expression".toList) := by cbv
  exact ⟨(wellFormed_of_parse _ _ parse List.mem_cons_self).2 _ hparse, _, hmalformed,
    (wellFormed_of_parse _ _ parseLiteral (by simp [parsers])).1 _ hmalformed⟩

/-! ### Names that are defined -/

/-- A name with a capital letter at its start is no letter, and neither a group nor a literal. -/
theorem word_of_isDefinable {name : Text} (h : Directive.isDefinable name) (place : Nat) :
    letter? name = none ∧ Token.kind ⟨name, place⟩ = .word := by
  obtain ⟨c, rest, rfl, hc⟩ : ∃ c rest, name = c :: rest ∧ c.isUpper := by
    cases name with
    | nil => cases h
    | cons c rest => exact ⟨c, rest, rfl, h⟩
  have hne : ∀ {other : Char}, other.isUpper = false → (c :: rest).head? ≠ some other := by
    rintro other hother hhead
    cases hhead
    rw [hc] at hother
    cases hother
  refine ⟨?_, Token.kind_word (hne (by decide)) (hne (by decide)) place⟩
  cases hletter : letter? (c :: rest) with
  | none => rfl
  | some letter =>
    obtain ⟨hname, hlower⟩ := letter?_eq_some_iff.1 hletter
    rw [← (List.cons.inj hname).1, isLower_of_isUpper hc] at hlower
    cases hlower

/-- A defined name that is one token stands for itself. -/
theorem parse_of_token {definitions : Definitions} {name : Text} (hname : Directive.isDefinable name)
    (hdefined : name ∈ definitions.keys) (htoken : Token.ofText name = .ok [⟨name, 0⟩]) :
    parse definitions name = .ok (.ref name) := by
  obtain ⟨hletter, hkind⟩ := word_of_isDefinable hname 0
  have hcontains : definitions.contains name = true := (Table.contains_iff definitions name).2 hdefined
  rw [parse, Phrase.read_of_token htoken, Phrase.readToken_of_word hkind]
  simp [Phrase.resolve, Role.resolve, hletter, Place.first, Role.refer, hcontains]

/-- CORRECT: a name that has been defined stands for itself exactly when it is one token. Any other defined
    name is in the table and in the output all the same, but no parser finds it in any text, whatever is
    defined. -/
theorem parse_defined_name_iff (session : Session) (name expression : Text) (compiled : Compiled)
    (after : Session) (h : session.compile (.define name expression) = .ok (compiled, after)) :
    (parse after.definitions name = .ok (.ref name) ↔ Token.ofText name = .ok [⟨name, 0⟩]) ∧
    (Token.ofText name ≠ .ok [⟨name, 0⟩] → ∀ definitions text, ∀ parser ∈ parsers, ∀ term,
      parser definitions text = .ok term → ∀ path, term.at? path ≠ some (.ref name)) ∧
    name ∈ after.definitions.keys ∧
    ∃ body, session.definitions.compile expression = .ok body ∧
      compiled.line = some ⟨.definition, "const ".toList ++ name ++ " = ".toList ++ body ++ [';']⟩ := by
  obtain ⟨made, hmade, heq⟩ := Session.compile_eq_ok_iff.1 h
  obtain ⟨rfl, rfl⟩ := Prod.mk.inj heq
  obtain ⟨hname, body, hbody, rfl⟩ := Directive.compileDefinition_eq_ok_iff.1 hmade
  have hdefined : name ∈ (session.definitions.insert name body.arrow).keys :=
    Table.mem_keys_insert.2 (Or.inr rfl)
  have hfound : ∀ {definitions text term}, ∀ parser ∈ parsers, parser definitions text = .ok term →
      ∀ path, term.at? path = some (.ref name) → Token.ofText name = .ok [⟨name, 0⟩] := by
    intro definitions text term parser hparser hterm path hat
    exact ((everyName_wordIn hparser hterm).of_at? hat).1.alone
  refine ⟨⟨fun hparse => ?_, parse_of_token hname hdefined⟩, ?_, hdefined, body.arrow,
    Directive.compile_eq_ok_iff.2 ⟨body, hbody, rfl⟩, rfl⟩
  · exact hfound parse List.mem_cons_self hparse [] rfl
  · exact fun hunusable definitions text parser hparser term hterm path hat =>
      hunusable (hfound parser hparser hterm path hat)

/-- `Zero` is one token and `A B` is two. Both can be defined; the first is found again, and the second is not
    found where it stands in a lambda body. -/
theorem parse_defined_name_iff_two_words :
    (∃ compiled after, (Session.start ⟨2025, .february, 24⟩).compile
        (.define "Zero".toList "$fa.a".toList) = .ok (compiled, after) ∧
      parse after.definitions "Zero".toList = .ok (.ref "Zero".toList)) ∧
    ∃ compiled after, (Session.start ⟨2025, .february, 24⟩).compile
        (.define "A B".toList "$fa.a".toList) = .ok (compiled, after) ∧
      "A B".toList ∈ after.definitions.keys ∧
      parse after.definitions "A B".toList ≠ .ok (.ref "A B".toList) ∧
      ∀ term, parseBody after.definitions "A B".toList = .ok term →
        ∀ path, term.at? path ≠ some (.ref "A B".toList) := by
  have hdefine : ∀ name, Directive.isDefinable name → ∃ compiled after,
      (Session.start ⟨2025, .february, 24⟩).compile (.define name "$fa.a".toList) = .ok (compiled, after) := by
    intro name hname
    have hbody : parse (Session.start ⟨2025, .february, 24⟩).definitions "$fa.a".toList =
        .ok (.abs 'f' (.abs 'a' (.var 'a'))) := by cbv
    exact ⟨_, _, Session.compile_eq_ok_iff.2
      ⟨_, Directive.compileDefinition_eq_ok_iff.2 ⟨hname, _, hbody, rfl⟩, rfl⟩⟩
  obtain ⟨compiled, after, hzero⟩ := hdefine "Zero".toList (by decide)
  obtain ⟨compiled', after', htwo⟩ := hdefine "A B".toList (by decide)
  have htokens : Token.ofText "A B".toList ≠ .ok [⟨"A B".toList, 0⟩] := by decide
  obtain ⟨hiff, hlost, hkept, -⟩ := parse_defined_name_iff _ _ _ _ _ htwo
  exact ⟨⟨compiled, after, hzero, (parse_defined_name_iff _ _ _ _ _ hzero).1.2 (by decide)⟩,
    compiled', after', htwo, hkept, fun hparse => htokens (hiff.1 hparse),
    hlost htokens _ _ parseBody (by simp [parsers])⟩

end Term

end LambdaArrow
