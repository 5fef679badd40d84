import LambdaArrow.CodeLine
import LambdaArrow.Proofs.Trimming

/-! Where a line is cut. A cut is made at the first place of the marker. For the parts of a line the marker is the
    one that starts a comment, so the code is all that stands before its first place. Blanks around a line move
    the cut along and are trimmed from both sides of it:

        `  Zero := $fa.a  // zero  `
        `Zero := $fa.a  // zero`       the same code and the same comment -/

namespace LambdaArrow

namespace Text

variable {marker : Text}

/-! ### The first place of a marker -/

theorem of_cut?_eq_some : ∀ {text before after : Text}, cut? marker text = some (before, after) →
    text = before ++ marker ++ after ∧
      ∀ other rest, text = other ++ marker ++ rest → before.length ≤ other.length
  | [], _, _, h => by simp [cut?] at h
  | c :: cs, before, after, h => by
    rw [cut?] at h
    split at h
    · rename_i rest hrest
      cases h
      exact ⟨(List.isPrefixOf?_eq_some_iff_append_eq.1 hrest).symm, fun _ _ _ => Nat.zero_le _⟩
    · rename_i hnone
      obtain ⟨⟨start, rest⟩, hcut, heq⟩ := Option.map_eq_some_iff.1 h
      cases heq
      obtain ⟨htext, hfirst⟩ := of_cut?_eq_some hcut
      refine ⟨by simp [htext], fun other tail hother => ?_⟩
      cases other with
      | nil =>
        -- the marker would stand at the very start
        have hsome : marker.isPrefixOf? (c :: cs) = some tail :=
          List.isPrefixOf?_eq_some_iff_append_eq.2 hother.symm
        rw [hnone] at hsome
        cases hsome
      | cons d ds =>
        have hds := hfirst ds tail (List.cons.inj hother).2
        simp only [List.length_cons]
        omega

theorem of_cut?_eq_none (hmarker : marker ≠ []) : ∀ {text : Text}, cut? marker text = none →
    ∀ before after, text ≠ before ++ marker ++ after
  | [], _, before, after => by simp [hmarker]
  | c :: cs, h, before, after => by
    rw [cut?] at h
    split at h
    · simp at h
    · rename_i hnone
      intro htext
      cases before with
      | nil =>
        have hsome : marker.isPrefixOf? (c :: cs) = some after :=
          List.isPrefixOf?_eq_some_iff_append_eq.2 htext.symm
        rw [hnone] at hsome
        cases hsome
      | cons d ds =>
        have hcut : cut? marker cs = none := by simpa using h
        exact of_cut?_eq_none hmarker hcut ds after (List.cons.inj htext).2

theorem cut?_eq_none_iff (hmarker : marker ≠ []) {text : Text} : cut? marker text = none ↔ ¬ marker <:+: text := by
  constructor
  · rintro hnone ⟨before, after, htext⟩
    exact of_cut?_eq_none hmarker hnone before after htext.symm
  · intro hwithin
    rcases hcut : cut? marker text with _ | ⟨before, after⟩
    · rfl
    · exact absurd ⟨before, after, (of_cut?_eq_some hcut).1.symm⟩ hwithin

/-- The marker does not stand in what is before the cut. -/
theorem not_within_of_cut? (hmarker : marker ≠ []) {text before after : Text}
    (h : cut? marker text = some (before, after)) : ¬ marker <:+: before := by
  rintro ⟨start, rest, hbefore⟩
  obtain ⟨htext, hfirst⟩ := of_cut?_eq_some h
  have hlength := hfirst start (rest ++ marker ++ after) (by simp [htext, ← hbefore])
  have hpos := List.length_pos_of_ne_nil hmarker
  simp only [← hbefore, List.length_append] at hlength
  omega

/-- A marker whose first character does not come again in it stands first where it is put, behind any text
    without it: no place of it can reach over the seam. -/
theorem cut?_append_marker {m : Char} {ms : Text} (hm : m ∉ ms) : ∀ {before : Text}, ¬ m :: ms <:+: before →
    ∀ after : Text, cut? (m :: ms) (before ++ (m :: ms ++ after)) = some (before, after)
  | [], _, after => by
    have hprefix : (m :: ms).isPrefixOf? (m :: ms ++ after) = some after :=
      List.isPrefixOf?_eq_some_iff_append_eq.2 rfl
    simp only [List.nil_append, List.cons_append] at hprefix ⊢
    rw [cut?, hprefix]
  | c :: before, hwithin, after => by
    have ih := cut?_append_marker hm (fun h => hwithin (h.trans (List.suffix_cons c before).isInfix)) after
    have hnone : (m :: ms).isPrefixOf? (c :: (before ++ (m :: ms ++ after))) = none := by
      by_contra hsome
      obtain ⟨rest, hrest⟩ := Option.ne_none_iff_exists'.1 hsome
      have hseam := List.isPrefixOf?_eq_some_iff_append_eq.1 hrest
      rw [List.cons_append, List.cons.injEq] at hseam
      obtain ⟨rfl, hseam⟩ := hseam
      rcases List.append_eq_append_iff.1 hseam with ⟨more, rfl, -⟩ | ⟨_ | ⟨d, more⟩, rfl, hmore⟩
      · exact hwithin ⟨[], more, rfl⟩
      · exact hwithin ⟨[], [], by simp⟩
      · -- the place would reach over the seam, with the first character of the marker inside
        rw [List.cons_append, List.cons_append, List.cons.injEq] at hmore
        exact hm (by simp [hmore.1])
    rw [List.cons_append, cut?, hnone, ih]
    rfl

/-! ### Characters that are not in the marker -/

theorem isPrefixOf?_concat {c : Char} : ∀ {marker : Text}, c ∉ marker → ∀ text : Text,
    marker.isPrefixOf? (text ++ [c]) = (marker.isPrefixOf? text).map (· ++ [c])
  | [], _, text => by simp [List.isPrefixOf?]
  | m :: ms, hc, [] => by
    have hne : m ≠ c := fun h => hc (h ▸ List.mem_cons_self)
    simp [List.isPrefixOf?, hne]
  | m :: ms, hc, d :: ds => by
    have ih := isPrefixOf?_concat (fun h => hc (List.mem_cons_of_mem m h)) ds
    by_cases h : m = d <;> simp [List.isPrefixOf?, h, ih]

/-- A character behind a text that is not in the marker goes to what is behind the cut. -/
theorem cut?_concat {c : Char} (hmarker : marker ≠ []) (hc : c ∉ marker) : ∀ text : Text,
    cut? marker (text ++ [c]) = (cut? marker text).map fun (before, after) => (before, after ++ [c])
  | [] => by
    have hprefix := isPrefixOf?_concat hc []
    have hnil : marker.isPrefixOf? [] = none := by
      cases marker with
      | nil => exact absurd rfl hmarker
      | cons m ms => rfl
    rw [hnil, List.nil_append, Option.map_none] at hprefix
    simp [cut?, hprefix]
  | d :: ds => by
    have ih := cut?_concat hmarker hc ds
    have hprefix := isPrefixOf?_concat hc (d :: ds)
    rw [List.cons_append] at hprefix ⊢
    rw [cut?, cut?, hprefix, ih]
    cases marker.isPrefixOf? (d :: ds) with
    | some after => rfl
    | none => cases cut? marker ds <;> rfl

/-- A character before a text that is not in the marker goes to what is before the cut. -/
theorem cut?_cons {c : Char} (hmarker : marker ≠ []) (hc : c ∉ marker) (text : Text) :
    cut? marker (c :: text) = (cut? marker text).map fun (before, after) => (c :: before, after) := by
  have hnone : marker.isPrefixOf? (c :: text) = none := by
    cases marker with
    | nil => exact absurd rfl hmarker
    | cons m ms =>
      have hne : m ≠ c := fun h => hc (h ▸ List.mem_cons_self)
      simp [List.isPrefixOf?, hne]
  rw [cut?, hnone]

/-- The same for a text in front whose characters are all not in the marker. -/
theorem cut?_append_left (hmarker : marker ≠ []) : ∀ {left : Text}, (∀ c ∈ left, c ∉ marker) → ∀ text : Text,
    cut? marker (left ++ text) = (cut? marker text).map fun (before, after) => (left ++ before, after)
  | [], _, text => by simp
  | c :: left, h, text => by
    have ih := cut?_append_left hmarker (fun d hd => h d (List.mem_cons_of_mem c hd)) text
    rw [List.cons_append, cut?_cons hmarker (h c List.mem_cons_self), ih, Option.map_map]
    rfl

theorem cut?_append_right (hmarker : marker ≠ []) {right : Text} (h : ∀ c ∈ right, c ∉ marker) (text : Text) :
    cut? marker (text ++ right) = (cut? marker text).map fun (before, after) => (before, after ++ right) := by
  induction right using List.reverseRecOn with
  | nil => simp
  | append_singleton right c ih =>
    rw [← List.append_assoc, cut?_concat hmarker (h c (by simp)), ih fun d hd => h d (by simp [hd]),
      Option.map_map]
    cases cut? marker text <;> simp

/-! ### Blanks at the ends of a text -/

/-- Blanks around a text stay on their side of the cut. -/
theorem exists_cut?_eq_map_trim (hmarker : marker ≠ []) (hblank : ∀ c ∈ marker, isBlank c = false) (text : Text) :
    ∃ left right, (∀ c ∈ left, isBlank c) ∧ (∀ c ∈ right, isBlank c) ∧ cut? marker text =
      (cut? marker (trim text)).map fun (before, after) => (left ++ before, after ++ right) := by
  obtain ⟨left, right, htext, hleft, hright⟩ := exists_trim_eq text
  have houtside : ∀ {blanks : Text}, (∀ c ∈ blanks, isBlank c) → ∀ c ∈ blanks, c ∉ marker := by
    intro blanks hblanks c hc hmem
    have hc := hblanks c hc
    rw [hblank c hmem] at hc
    cases hc
  refine ⟨left, right, hleft, hright, ?_⟩
  conv_lhs => rw [htext]
  rw [cut?_append_right hmarker (houtside hright), cut?_append_left hmarker (houtside hleft), Option.map_map]
  rfl

/-- A marker without blanks stands in a text where it stands in the trimmed text. -/
theorem within_trim_iff (hmarker : marker ≠ []) (hblank : ∀ c ∈ marker, isBlank c = false) {text : Text} :
    marker <:+: trim text ↔ marker <:+: text := by
  obtain ⟨left, right, -, -, hcut⟩ := exists_cut?_eq_map_trim hmarker hblank text
  rw [← not_iff_not, ← cut?_eq_none_iff hmarker, ← cut?_eq_none_iff hmarker, hcut, Option.map_eq_none_iff]

end Text

namespace CodeLine

open Text

theorem commentMark_ne_nil : commentMark ≠ [] := List.cons_ne_nil _ _

theorem isBlank_of_mem_commentMark : ∀ c ∈ commentMark, isBlank c = false := by
  have hslash : isBlank '/' = false := by decide
  simp [commentMark, hslash]

/-- Blanks around a line matter neither to its code nor to its comment. -/
theorem parts_trim (line : Text) : parts (trim line) = parts line := by
  obtain ⟨left, right, hleft, hright, hcut⟩ :=
    exists_cut?_eq_map_trim commentMark_ne_nil isBlank_of_mem_commentMark line
  rw [parts, parts, hcut]
  cases cut? commentMark (trim line) with
  | none => simp [(trimmed_trim line).trim_eq]
  | some cut =>
    simp [trim_blanks_append hleft, ← List.append_assoc, trimRight_append_blanks hright]

/-! ### The code of a line -/

/-- The code of a line: what stands before the first comment mark, or the whole line if there is none. -/
structure IsCode (line code : Text) : Prop where
  start : code <+: line
  clear : ∀ before after, line = before ++ commentMark ++ after → code.length ≤ before.length
  stop : code = line ∨ code ++ commentMark <+: line

/-- Code that a mark ends is no longer than any other code of the line. -/
theorem IsCode.length_le {line code other : Text} (hcode : IsCode line code) (hother : IsCode line other) :
    code.length ≤ other.length := by
  rcases hother.stop with rfl | ⟨after, hafter⟩
  · exact hcode.start.length_le
  · exact hcode.clear other after hafter.symm

theorem IsCode.unique {line code other : Text} (hcode : IsCode line code) (hother : IsCode line other) :
    code = other := by
  have hlength : code.length = other.length :=
    Nat.le_antisymm (hcode.length_le hother) (hother.length_le hcode)
  have hprefix := List.prefix_of_prefix_length_le hcode.start hother.start hlength.le
  exact hprefix.eq_of_length hlength

/-- The parts of a line are its code, trimmed, and what is behind it, if a mark stands in the line. -/
theorem exists_parts_eq (line : Text) : ∃ code comment, IsCode line code ∧ line = code ++ comment ∧
    parts line = (trim code, if commentMark <:+: line then some (trimRight comment) else none) := by
  cases hcut : cut? commentMark line with
  | none =>
    have hmark := (cut?_eq_none_iff commentMark_ne_nil).1 hcut
    refine ⟨line, [], ⟨List.prefix_rfl, fun before after h => ?_, Or.inl rfl⟩, by simp, ?_⟩
    · exact absurd ⟨before, after, h.symm⟩ hmark
    · simp [parts, hcut, hmark]
  | some cut =>
    obtain ⟨code, after⟩ := cut
    obtain ⟨hline, hfirst⟩ := of_cut?_eq_some hcut
    have hmark : commentMark <:+: line := ⟨code, after, hline.symm⟩
    have happend : line = code ++ (commentMark ++ after) := by rw [hline, List.append_assoc]
    refine ⟨code, commentMark ++ after, ⟨⟨_, happend.symm⟩, hfirst, Or.inr ⟨after, hline.symm⟩⟩, happend, ?_⟩
    simp [parts, hcut, hmark]

theorem exists_isCode (line : Text) : ∃ code, IsCode line code ∧ (parts line).1 = trim code := by
  obtain ⟨code, comment, hcode, -, hparts⟩ := exists_parts_eq line
  exact ⟨code, hcode, by rw [hparts]⟩

/-- The trimmed code is the first part of a line. -/
theorem IsCode.trim_eq {line code : Text} (h : IsCode line code) : trim code = (parts line).1 := by
  obtain ⟨other, hother, hparts⟩ := exists_isCode line
  rw [hparts, h.unique hother]

end CodeLine

end LambdaArrow
