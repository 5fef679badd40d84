import Mathlib
import LambdaArrow.Text.Blank

/-! Trimming stops at the first character that is not blank, from either end. So a text whose first and
    last characters are no blanks is left as it is. -/

namespace LambdaArrow.Text

/-- Neither the first nor the last character is blank. -/
def Trimmed (text : Text) : Prop :=
  (∀ c ∈ text.head?, isBlank c = false) ∧ ∀ c ∈ text.getLast?, isBlank c = false

theorem trimLeft_of_head {text : Text} (h : ∀ c ∈ text.head?, isBlank c = false) :
    trimLeft text = text := by
  cases text with
  | nil => rfl
  | cons c cs => rw [trimLeft, List.dropWhile_cons, h c rfl]; rfl

theorem trimRight_of_getLast {text : Text} (h : ∀ c ∈ text.getLast?, isBlank c = false) :
    trimRight text = text := by
  have hreverse : trimLeft text.reverse = text.reverse :=
    trimLeft_of_head (by rwa [List.head?_reverse])
  rw [trimLeft] at hreverse
  rw [trimRight, hreverse, List.reverse_reverse]

theorem Trimmed.trim_eq {text : Text} (h : Trimmed text) : trim text = text := by
  rw [trim, trimLeft_of_head h.1, trimRight_of_getLast h.2]

/-- Two trimmed texts that are not empty, with anything between them. -/
theorem Trimmed.append {first last : Text} (hfirst : Trimmed first) (hlast : Trimmed last)
    (hfirst_ne : first ≠ []) (hlast_ne : last ≠ []) (middle : Text) :
    Trimmed (first ++ (middle ++ last)) := by
  constructor
  · rw [List.head?_append, List.head?_eq_some_head hfirst_ne, Option.some_or,
      ← List.head?_eq_some_head hfirst_ne]
    exact hfirst.1
  · rw [← List.append_assoc, List.getLast?_append, List.getLast?_eq_some_getLast hlast_ne,
      Option.some_or, ← List.getLast?_eq_some_getLast hlast_ne]
    exact hlast.2

theorem Trimmed.cons {c : Char} {text : Text} (h : Trimmed text) (hc : isBlank c = false) :
    Trimmed (c :: text) := by
  refine ⟨by simpa using hc, ?_⟩
  rw [List.getLast?_cons]
  cases hlast : text.getLast? with
  | none => simpa using hc
  | some last => simpa using h.2 last hlast

theorem exists_trimRight_eq (text : Text) :
    ∃ right, text = trimRight text ++ right ∧ ∀ c ∈ right, isBlank c := by
  refine ⟨(text.reverse.takeWhile isBlank).reverse, ?_, ?_⟩
  · rw [trimRight, ← List.reverse_append, List.takeWhile_append_dropWhile, List.reverse_reverse]
  · exact fun c hc => List.mem_takeWhile_imp (List.mem_reverse.1 hc)

/-- Trimming takes blanks off both ends and nothing else. -/
theorem exists_trim_eq (text : Text) : ∃ left right, text = left ++ trim text ++ right ∧
    (∀ c ∈ left, isBlank c) ∧ ∀ c ∈ right, isBlank c := by
  obtain ⟨right, hright, hblank⟩ := exists_trimRight_eq (trimLeft text)
  refine ⟨text.takeWhile isBlank, right, ?_, fun c hc => List.mem_takeWhile_imp hc, hblank⟩
  rw [trim, List.append_assoc, ← hright, trimLeft, List.takeWhile_append_dropWhile]

theorem trim_within (text : Text) : trim text <:+: text := by
  obtain ⟨left, right, htext, -, -⟩ := exists_trim_eq text
  exact ⟨left, right, htext.symm⟩

theorem trimRight_start (text : Text) : trimRight text <+: text := by
  obtain ⟨right, hright, -⟩ := exists_trimRight_eq text
  exact ⟨right, hright.symm⟩

/-- A first character that is not blank stays the first. -/
theorem head?_trimRight {c : Char} (hc : isBlank c = false) (text : Text) :
    (trimRight (c :: text)).head? = some c := by
  rw [trimRight, List.reverse_cons, List.dropWhile_append]
  split
  · simp [hc]
  · simp

theorem head?_trim {c : Char} (hc : isBlank c = false) (text : Text) : (trim (c :: text)).head? = some c := by
  rw [trim, trimLeft_of_head (by simpa using hc), head?_trimRight hc]

/-- What trimming leaves is trimmed. -/
theorem trimmed_trim (text : Text) : Trimmed (trim text) := by
  have hfirst : ∀ other : Text, ∀ c ∈ (other.dropWhile isBlank).head?, isBlank c = false := by
    intro other c hc
    have hnot := List.head?_dropWhile_not isBlank other
    rw [Option.mem_def.1 hc] at hnot
    simpa using hnot
  constructor
  · intro c hc
    obtain ⟨rest, hrest⟩ := trimRight_start (trimLeft text)
    refine hfirst text c ?_
    rw [trim] at hc
    rw [← trimLeft, ← hrest, List.head?_append, Option.mem_def.1 hc]
    rfl
  · intro c hc
    rw [trim, trimRight, List.getLast?_reverse] at hc
    exact hfirst _ c hc

/-! ### Blanks around a text -/

theorem trimRight_append_blanks {right : Text} (hright : ∀ c ∈ right, isBlank c) (text : Text) :
    trimRight (text ++ right) = trimRight text := by
  rw [trimRight, List.reverse_append, List.dropWhile_append_of_pos (by simpa using hright), trimRight]

/-- Behind a character that is not blank only the end is trimmed. -/
theorem trimRight_append {front : Text} (h : ∀ c ∈ front.getLast?, isBlank c = false) (back : Text) :
    trimRight (front ++ back) = front ++ trimRight back := by
  have hfront : front.reverse.dropWhile isBlank = front.reverse := by
    have := trimRight_of_getLast h
    rwa [trimRight, List.reverse_eq_iff] at this
  rw [trimRight, trimRight, List.reverse_append, List.dropWhile_append]
  split
  · rename_i hempty
    simp [List.isEmpty_iff.1 hempty, hfront]
  · simp

theorem trim_blanks_append {left : Text} (hleft : ∀ c ∈ left, isBlank c) (text : Text) :
    trim (left ++ text) = trim text := by
  rw [trim, trimLeft, List.dropWhile_append_of_pos hleft, ← trimLeft, ← trim]

theorem trim_append_blanks {right : Text} (hright : ∀ c ∈ right, isBlank c) (text : Text) :
    trim (text ++ right) = trim text := by
  rw [trim, trim, trimLeft, trimLeft, List.dropWhile_append]
  split
  · rename_i hempty
    rw [List.isEmpty_iff.1 hempty, List.dropWhile_eq_nil_iff.2 hright]
  · exact trimRight_append_blanks hright _

theorem Trimmed.trim_between {left text right : Text} (h : Trimmed text) (hleft : ∀ c ∈ left, isBlank c)
    (hright : ∀ c ∈ right, isBlank c) : trim (left ++ text ++ right) = text := by
  rw [trim_append_blanks hright, trim_blanks_append hleft, h.trim_eq]

/-- Behind a text that is not blank, a blank and a trimmed text stay as they are, with the blanks between. -/
theorem exists_trim_append {first last : Text} {blank : Char} (hfirst : trim first ≠ [])
    (hblank : isBlank blank) (hlast : Trimmed last) (hne : last ≠ []) : ∃ gap, gap ≠ [] ∧
      (∀ c ∈ gap, isBlank c) ∧ trim (first ++ blank :: last) = trim first ++ (gap ++ last) := by
  obtain ⟨left, right, htext, hleft, hright⟩ := exists_trim_eq first
  refine ⟨right ++ [blank], by simp, ?_, ?_⟩
  · intro c hc
    rcases List.mem_append.1 hc with hc | hc
    · exact hright c hc
    · rw [List.mem_singleton.1 hc]
      exact hblank
  · have happend : first ++ blank :: last = left ++ (trim first ++ (right ++ [blank] ++ last)) := by
      conv_lhs => rw [htext]
      simp
    rw [happend, trim_blanks_append hleft]
    exact ((trimmed_trim first).append hlast hfirst hne (right ++ [blank])).trim_eq

/-- Nothing is left of blanks alone. -/
theorem trim_eq_nil_iff {text : Text} : trim text = [] ↔ ∀ c ∈ text, isBlank c := by
  constructor
  · intro htrim
    obtain ⟨left, right, htext, hleft, hright⟩ := exists_trim_eq text
    rw [htrim, List.append_nil] at htext
    rw [htext]
    exact fun c hc => (List.mem_append.1 hc).elim (hleft c) (hright c)
  · intro hblank
    exact trim_append_blanks hblank []

/-- A text without any blank. -/
theorem Trimmed.of_forall {text : Text} (h : ∀ c ∈ text, isBlank c = false) : Trimmed text :=
  ⟨fun c hc => h c (List.mem_of_mem_head? hc), fun c hc => h c (List.mem_of_mem_getLast? hc)⟩

theorem isBlank_of_isLower {c : Char} (h : c.isLower) : isBlank c = false := by
  simp only [Char.isLower, Bool.and_eq_true, decide_eq_true_eq, ge_iff_le] at h
  have hge : 97 ≤ c.toNat := UInt32.le_iff_toNat_le.1 h.1
  have hle : c.toNat ≤ 122 := UInt32.le_iff_toNat_le.1 h.2
  simp only [isBlank, blankRuns, List.any_cons, List.any_nil, Bool.or_false, Bool.or_eq_false_iff,
    Bool.and_eq_false_iff, decide_eq_false_iff_not]
  omega

end LambdaArrow.Text
