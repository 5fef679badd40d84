import LambdaArrow.Directive
import LambdaArrow.Proofs.Cutting

/-! Directives and the lines that ask for them. The first character of a trimmed line decides, and then the
    first `:=` in it:

        `#e`  `?e`  `@e`  `!e`     ──▶ print `e`
        `name := e`                ──▶ define `name`
        anything else              ──▶ compute it

    Written down without blanks, a directive is read back. For that nothing in it may be taken for something
    else: a name, and an expression to compute, starts with no mark and has no `:=` in it. A name may end with
    a colon, since `::=` has only one `:=` in it. -/

namespace LambdaArrow.Directive

open Text

/-- What stands between a name and its expression. -/
def sign : Text := ":=".toList

/-- A mark and the directive that it makes of what follows it. -/
inductive Marks : Char → (Text → Directive) → Prop
  | number : Marks '#' .number
  | boolean : Marks '?' .boolean
  | label : Marks '@' .label
  | source : Marks '!' .source

/-- A text that starts with no mark. -/
def Unmarked (text : Text) : Prop := ∀ c ∈ text.head?, c ∉ ['#', '?', '@', '!']

/-- The texts that a directive is made of. -/
def texts : Directive → List Text
  | .define name expression => [name, expression]
  | .number expression => [expression]
  | .boolean expression => [expression]
  | .label text => [text]
  | .source expression => [expression]
  | .compute expression => [expression]
  | .nothing => []

/-- A directive written down as a line. -/
def print : Directive → Text
  | .define name expression => name ++ sign ++ expression
  | .number expression => '#' :: expression
  | .boolean expression => '?' :: expression
  | .label text => '@' :: text
  | .source expression => '!' :: expression
  | .compute expression => expression
  | .nothing => []

/-- A directive that can be told from its line. -/
structure Proper (directive : Directive) : Prop where
  trimmed : ∀ text ∈ directive.texts, Trimmed text
  named : ∀ name expression, directive = .define name expression → Unmarked name ∧ ¬ sign <:+: name
  computed : ∀ expression, directive = .compute expression →
    expression ≠ [] ∧ Unmarked expression ∧ ¬ sign <:+: expression

theorem sign_ne_nil : sign ≠ [] := List.cons_ne_nil _ _

theorem isBlank_of_mem_sign : ∀ c ∈ sign, isBlank c = false := by
  have hcolon : isBlank ':' = false := by decide
  have hequals : isBlank '=' = false := by decide
  simp [sign, hcolon, hequals]

/-! ### How a line is read -/

variable {line : Text} {directive : Directive} {mark : Char} {make : Text → Directive}

/-- How a trimmed line is read, with one case for each thing that can decide. -/
inductive Reads : Text → Directive → Prop
  | nothing : Reads [] .nothing
  | marked {mark : Char} {make : Text → Directive} (rest : Text) : Marks mark make →
      Reads (mark :: rest) (make (trim rest))
  | define {line before after : Text} : Unmarked line → cut? sign line = some (before, after) →
      Reads line (.define (trim before) (trim after))
  | compute {line : Text} : line ≠ [] → Unmarked line → ¬ sign <:+: line → Reads line (.compute line)

theorem reads_parse (line : Text) : Reads (trim line) (parse line) := by
  rw [parse]
  split
  · rename_i htrim
    rw [htrim]
    exact .nothing
  · rename_i c rest htrim
    rw [htrim]
    split_ifs with hnumber hboolean hlabel hsource
    · exact hnumber ▸ .marked rest .number
    · exact hboolean ▸ .marked rest .boolean
    · exact hlabel ▸ .marked rest .label
    · exact hsource ▸ .marked rest .source
    · have hunmarked : Unmarked (c :: rest) := by simp [Unmarked, hnumber, hboolean, hlabel, hsource]
      rw [ofUnmarked]
      split
      · rename_i before after hcut
        exact .define hunmarked hcut
      · rename_i hcut
        exact .compute (List.cons_ne_nil c rest) hunmarked ((cut?_eq_none_iff sign_ne_nil).1 hcut)

theorem parse_of_unmarked (hne : trim line ≠ []) (h : Unmarked (trim line)) :
    parse line = ofUnmarked (trim line) := by
  obtain ⟨c, rest, htrim⟩ := List.exists_cons_of_ne_nil hne
  have hc : c ≠ '#' ∧ c ≠ '?' ∧ c ≠ '@' ∧ c ≠ '!' := by simpa [Unmarked, htrim] using h
  simp [parse, htrim, hc]

/-- A line is read in one way only. -/
theorem parse_of_reads (h : Reads (trim line) directive) : parse line = directive := by
  generalize htrim : trim line = trimmed at h
  cases h with
  | nothing => simp [parse, htrim]
  | marked rest hmark => cases hmark <;> simp [parse, htrim]
  | define hunmarked hcut =>
    have hne : trimmed ≠ [] := by
      rintro rfl
      simp [cut?] at hcut
    rw [parse_of_unmarked (htrim ▸ hne) (htrim ▸ hunmarked), htrim, ofUnmarked, ← sign, hcut]
  | compute hne hunmarked hsign =>
    rw [parse_of_unmarked (htrim ▸ hne) (htrim ▸ hunmarked), htrim, ofUnmarked, ← sign,
      (cut?_eq_none_iff sign_ne_nil).2 hsign]

theorem Reads.eq_nil (h : Reads line directive) (hnothing : directive = .nothing) : line = [] := by
  cases h with
  | nothing => rfl
  | marked rest hmark => cases hmark <;> cases hnothing
  | define _ _ => cases hnothing
  | compute _ _ _ => cases hnothing

theorem parse_eq_nothing_iff : parse line = .nothing ↔ trim line = [] :=
  ⟨(reads_parse line).eq_nil, fun htrim => parse_of_reads (htrim ▸ .nothing)⟩

/-! ### What a directive is made of -/

theorem Marks.texts_eq (h : Marks mark make) (text : Text) : (make text).texts = [text] := by
  cases h <;> rfl

theorem Reads.within (h : Reads line directive) : ∀ text ∈ directive.texts, text <:+: line := by
  cases h with
  | nothing => simp [texts]
  | marked rest hmark =>
    rw [hmark.texts_eq, List.forall_mem_singleton]
    exact (trim_within rest).trans (List.suffix_cons _ rest).isInfix
  | @define _ before after _ hcut =>
    obtain ⟨rfl, -⟩ := of_cut?_eq_some hcut
    intro text htext
    rcases List.mem_cons.1 htext with rfl | htext
    · exact (trim_within before).trans ⟨[], sign ++ after, by simp⟩
    · rw [List.mem_singleton.1 htext]
      exact (trim_within after).trans (List.suffix_append _ after).isInfix
  | compute _ _ _ => simp [texts]

/-- What a directive is made of stands in its line. -/
theorem within_of_mem_texts {text : Text} (h : text ∈ (parse line).texts) : text <:+: line :=
  ((reads_parse line).within text h).trans (trim_within line)

/-- The name starts as its line does, or the line starts with the sign. -/
theorem unmarked_iff_of_cut? {before after : Text} (hline : Trimmed line)
    (hcut : cut? sign line = some (before, after)) : Unmarked line ↔ Unmarked (trim before) := by
  obtain ⟨rfl, -⟩ := of_cut?_eq_some hcut
  cases before with
  | nil => simp [Unmarked, sign, trim, trimLeft, trimRight]
  | cons c before =>
    have hc : isBlank c = false := hline.1 c rfl
    simp [Unmarked, head?_trim hc]

/-- What is read from a trimmed line is proper. -/
theorem Reads.proper (hline : Trimmed line) (h : Reads line directive) : directive.Proper := by
  cases h with
  | nothing => exact ⟨by simp [texts], by simp, by simp⟩
  | marked rest hmark =>
    refine ⟨?_, ?_, ?_⟩
    · rw [hmark.texts_eq, List.forall_mem_singleton]
      exact trimmed_trim rest
    · cases hmark <;> simp
    · cases hmark <;> simp
  | @define _ before after hunmarked hcut =>
    refine ⟨by simp [texts, trimmed_trim], ?_, by simp⟩
    rintro name expression ⟨rfl, rfl⟩
    refine ⟨(unmarked_iff_of_cut? hline hcut).1 hunmarked, fun hsign => ?_⟩
    exact not_within_of_cut? sign_ne_nil hcut (hsign.trans (trim_within before))
  | compute hne hunmarked hsign =>
    refine ⟨by simpa [texts] using hline, by simp, ?_⟩
    rintro expression ⟨rfl⟩
    exact ⟨hne, hunmarked, hsign⟩

/-! ### Lines written down -/

/-- A definition, with any blanks around its parts. -/
theorem parse_definition {name expression left inner next right : Text} (hname : Trimmed name)
    (hexpression : Trimmed expression) (hunmarked : Unmarked name) (hsign : ¬ sign <:+: name)
    (hleft : ∀ c ∈ left, isBlank c) (hinner : ∀ c ∈ inner, isBlank c) (hnext : ∀ c ∈ next, isBlank c)
    (hright : ∀ c ∈ right, isBlank c) :
    parse (left ++ name ++ inner ++ (sign ++ (next ++ expression ++ right))) = .define name expression := by
  have hbefore := hname.trim_between hleft hinner
  have hafter := hexpression.trim_between hnext hright
  -- the sign that was put in is the first one
  have hfirst : cut? sign (left ++ name ++ inner ++ (sign ++ (next ++ expression ++ right))) =
      some (left ++ name ++ inner, next ++ expression ++ right) := by
    refine cut?_append_marker (by decide) ?_ _
    rwa [← hbefore, within_trim_iff sign_ne_nil isBlank_of_mem_sign] at hsign
  -- trimming the line takes blanks off both sides of the cut, which are trimmed there anyway
  generalize left ++ name ++ inner ++ (sign ++ (next ++ expression ++ right)) = line at hfirst ⊢
  obtain ⟨outer, rest, houter, hrest, hcut⟩ :=
    exists_cut?_eq_map_trim sign_ne_nil isBlank_of_mem_sign line
  rw [hfirst] at hcut
  obtain ⟨⟨before, after⟩, hcut, heq⟩ := Option.map_eq_some_iff.1 hcut.symm
  obtain ⟨hstart, hend⟩ := Prod.mk.inj heq
  have hname_eq : trim before = name := by rw [← hbefore, ← hstart, trim_blanks_append houter]
  have hexpression_eq : trim after = expression := by rw [← hafter, ← hend, trim_append_blanks hrest]
  have hline : Unmarked (trim line) := by
    rwa [unmarked_iff_of_cut? (trimmed_trim line) hcut, hname_eq]
  rw [← hname_eq, ← hexpression_eq]
  exact parse_of_reads (.define hline hcut)

theorem Marks.isBlank_eq (h : Marks mark make) : isBlank mark = false := by
  cases h <;> decide

theorem parse_marked (h : Marks mark make) {text : Text} (htext : Trimmed text) :
    parse (mark :: text) = make text := by
  apply parse_of_reads
  rw [(htext.cons h.isBlank_eq).trim_eq]
  simpa [htext.trim_eq] using Reads.marked text h

/-- What is written down is read back. -/
theorem Proper.parse_print_eq (h : directive.Proper) : parse directive.print = directive := by
  cases directive with
  | define name expression =>
    obtain ⟨hunmarked, hsign⟩ := h.named name expression rfl
    have hnone : ∀ c ∈ ([] : Text), isBlank c = true := List.forall_mem_nil _
    have hparse := parse_definition (h.trimmed name (by simp [texts])) (h.trimmed expression (by simp [texts]))
      hunmarked hsign hnone hnone hnone hnone
    simpa [print] using hparse
  | number expression => exact parse_marked .number (h.trimmed expression (by simp [texts]))
  | boolean expression => exact parse_marked .boolean (h.trimmed expression (by simp [texts]))
  | label text => exact parse_marked .label (h.trimmed text (by simp [texts]))
  | source expression => exact parse_marked .source (h.trimmed expression (by simp [texts]))
  | compute expression =>
    obtain ⟨hne, hunmarked, hsign⟩ := h.computed expression rfl
    have htrim : trim expression = expression := (h.trimmed expression (by simp [texts])).trim_eq
    exact parse_of_reads (htrim.symm ▸ .compute hne hunmarked hsign)
  | nothing => exact parse_of_reads .nothing

/-- CORRECT: what a line asks for is proper, and a proper directive is read back from its line. A definition is
    read from its name, `:=` and its expression, with any blanks before, between and behind them. -/
theorem parse_print :
    (∀ line, (parse line).Proper ∧ parse (parse line).print = parse line) ∧
    (∀ directive : Directive, directive.Proper → parse directive.print = directive) ∧
    ∀ name expression left inner next right : Text, Trimmed name → Trimmed expression → Unmarked name →
      ¬ sign <:+: name → (∀ c ∈ left, isBlank c) → (∀ c ∈ inner, isBlank c) → (∀ c ∈ next, isBlank c) →
        (∀ c ∈ right, isBlank c) →
          parse (left ++ name ++ inner ++ (sign ++ (next ++ expression ++ right))) =
            .define name expression := by
  have hproper : ∀ line, (parse line).Proper := fun line => (reads_parse line).proper (trimmed_trim line)
  refine ⟨fun line => ⟨hproper line, (hproper line).parse_print_eq⟩, fun _ => Proper.parse_print_eq, ?_⟩
  intro name expression left inner next right hname hexpression hunmarked hsign hleft hinner hnext hright
  exact parse_definition hname hexpression hunmarked hsign hleft hinner hnext hright

/-- A name that ends with a colon and an expression with a sign of its own, with blanks around them and
    without. -/
theorem parse_print_colon :
    (Trimmed "A:".toList ∧ Unmarked "A:".toList ∧ ¬ sign <:+: "A:".toList) ∧ Trimmed "B := C".toList ∧
    parse "\tA:\u00a0:= B := C\u3000".toList = .define "A:".toList "B := C".toList ∧
    parse "A::=B := C".toList = .define "A:".toList "B := C".toList := by
  have hname : Trimmed "A:".toList := by simp [Trimmed]; decide
  have hexpression : Trimmed "B := C".toList := by simp [Trimmed]; decide
  have hunmarked : Unmarked "A:".toList := by simp [Unmarked]
  have hsign : ¬ sign <:+: "A:".toList := by decide
  have hparse : parse "\tA:\u00a0:= B := C\u3000".toList = .define "A:".toList "B := C".toList :=
    parse_print.2.2 _ _ "\t".toList "\u00a0".toList " ".toList "\u3000".toList hname hexpression hunmarked hsign
      (by simp; decide) (by simp; decide) (by simp; decide) (by simp; decide)
  have hagain := (parse_print.1 "\tA:\u00a0:= B := C\u3000".toList).2
  rw [hparse] at hagain
  exact ⟨⟨hname, hunmarked, hsign⟩, hexpression, hparse, hagain⟩

end LambdaArrow.Directive
