import Mathlib
import LambdaArrow.Text.Line

/-! Lines at a seam. A line feed between two texts ends the last line of the first one, so every piece of
    the first text counts as a line, also an empty one; the lines of the second text follow unchanged. -/

namespace LambdaArrow.Text

theorem ofPieces_append {more : List Text} (hmore : more ≠ []) : ∀ pieces : List Text,
    ofPieces (pieces ++ more) = pieces.map dropReturn ++ ofPieces more
  | [] => rfl
  | [piece] => by
    obtain ⟨next, rest, rfl⟩ := List.exists_cons_of_ne_nil hmore
    rfl
  | piece :: next :: rest => by
    have ih := ofPieces_append hmore (next :: rest)
    simp only [List.cons_append] at ih ⊢
    rw [ofPieces, ih]
    rfl

/-- The lines of a text that a line feed follows. -/
def endedLines (text : Text) : List Text := (text.splitOn '\n').map dropReturn

theorem splitOn_append (first second : Text) :
    (first ++ '\n' :: second).splitOn '\n' = first.splitOn '\n' ++ second.splitOn '\n' :=
  List.splitOnP_append_cons first second (beq_self_eq_true '\n')

theorem lines_append (first second : Text) :
    lines (first ++ '\n' :: second) = endedLines first ++ lines second := by
  rw [lines, splitOn_append, ofPieces_append (List.splitOn_ne_nil _ _)]
  rfl

theorem splitOn_of_not_mem {text : Text} (h : '\n' ∉ text) : text.splitOn '\n' = [text] := by
  simpa using List.splitOn_intercalate '\n' (by simpa using h) (List.cons_ne_nil text [])

/-- Induction line by line: a text is its last line, or a line that a line feed ends and the rest. -/
@[elab_as_elim]
theorem line_induction {motive : Text → Prop} (last : ∀ text, '\n' ∉ text → motive text)
    (ended : ∀ piece rest, '\n' ∉ piece → motive rest → motive (piece ++ '\n' :: rest)) (text : Text) :
    motive text := by
  induction hcount : text.count '\n' generalizing text with
  | zero => exact last text (List.count_eq_zero.1 hcount)
  | succ count ih =>
    have hmem : '\n' ∈ text := List.count_pos_iff.1 (by omega)
    obtain ⟨piece, rest, rfl, hpiece⟩ := List.eq_append_cons_of_mem hmem
    exact ended piece rest hpiece (ih rest (by simpa [List.count_eq_zero.2 hpiece] using hcount))

/-- No piece between line feeds has one. -/
theorem not_mem_of_mem_splitOn {text piece : Text} (h : piece ∈ text.splitOn '\n') : '\n' ∉ piece := by
  induction text using line_induction with
  | last text htext =>
    rw [splitOn_of_not_mem htext, List.mem_singleton] at h
    rwa [h]
  | ended first rest hfirst ih =>
    rw [splitOn_append, splitOn_of_not_mem hfirst] at h
    rcases List.mem_append.1 h with h | h
    · rwa [List.mem_singleton.1 h]
    · exact ih h

/-- A line that a line feed ends, and the lines behind it. -/
theorem lines_ended {piece : Text} (h : '\n' ∉ piece) (rest : Text) :
    lines (piece ++ '\n' :: rest) = dropReturn piece :: lines rest := by
  rw [lines_append, endedLines, splitOn_of_not_mem h]
  rfl

theorem dropReturn_start (line : Text) : dropReturn line <+: line := by
  unfold dropReturn
  split
  · exact List.dropLast_prefix line
  · exact List.prefix_rfl

theorem not_mem_of_mem_ofPieces : ∀ {pieces : List Text}, (∀ piece ∈ pieces, '\n' ∉ piece) →
    ∀ line ∈ ofPieces pieces, '\n' ∉ line
  | [], _, line, hline => by simp [ofPieces] at hline
  | [last], h, line, hline => by
    rw [ofPieces] at hline
    split at hline
    · simp at hline
    · exact h line hline
  | piece :: next :: rest, h, line, hline => by
    rw [ofPieces] at hline
    rcases List.mem_cons.1 hline with rfl | hline
    · exact fun hmem => h piece List.mem_cons_self ((dropReturn_start piece).subset hmem)
    · exact not_mem_of_mem_ofPieces (fun other hother => h other (List.mem_cons_of_mem _ hother)) line hline

/-- No line of a text has a line feed. -/
theorem not_mem_of_mem_lines {text line : Text} (h : line ∈ lines text) : '\n' ∉ line :=
  not_mem_of_mem_ofPieces (fun _ => not_mem_of_mem_splitOn) line h

/-- Pieces put together: a separator behind each of the first ones. -/
theorem intercalate_append (separator : Char) {rest : List Text} (hrest : rest ≠ []) :
    ∀ front : List Text, [separator].intercalate (front ++ rest) =
      front.flatMap (· ++ [separator]) ++ [separator].intercalate rest
  | [] => rfl
  | [piece] => by
    obtain ⟨next, rest, rfl⟩ := List.exists_cons_of_ne_nil hrest
    simp [List.intercalate_cons_cons]
  | piece :: next :: front => by
    have ih := intercalate_append separator hrest (next :: front)
    simp only [List.cons_append] at ih ⊢
    rw [List.intercalate_cons_cons, ih]
    simp

/-! ### Ended lines put together -/

theorem unlines_cons (line : Text) (rest : List Text) :
    unlines (line :: rest) = line ++ '\n' :: unlines rest := by
  simp [unlines]

/-- Lines that are each ended are lines with ends between them and one behind the last. -/
theorem unlines_eq_intercalate {lines : List Text} (h : lines ≠ []) :
    unlines lines = ['\n'].intercalate lines ++ ['\n'] := by
  obtain ⟨front, last, rfl⟩ := (List.eq_nil_or_concat lines).resolve_left h
  rw [List.concat_eq_append, intercalate_append '\n' (List.cons_ne_nil last []), List.intercalate_singleton]
  simp [unlines]

/-- The pieces of ended lines are those of each line, with nothing behind the last line feed. -/
theorem splitOn_unlines : ∀ lines : List Text,
    (unlines lines).splitOn '\n' = lines.flatMap (·.splitOn '\n') ++ [[]]
  | [] => splitOn_of_not_mem List.not_mem_nil
  | line :: rest => by
    rw [unlines_cons, splitOn_append, splitOn_unlines rest, List.flatMap_cons, List.append_assoc]

theorem flatMap_splitOn : ∀ {lines : List Text}, (∀ line ∈ lines, '\n' ∉ line) →
    lines.flatMap (·.splitOn '\n') = lines
  | [], _ => rfl
  | line :: rest, h => by
    have ih := flatMap_splitOn fun other hother => h other (List.mem_cons_of_mem line hother)
    rw [List.flatMap_cons, splitOn_of_not_mem (h line List.mem_cons_self), ih, List.singleton_append]

/-- Where the last line ends with no line feed of its own, there is one at the end and no more. -/
theorem exists_unlines_concat {line : Text} {last : Char} (hlast : last ∈ line.getLast?)
    (before : List Text) : ∃ start, unlines (before ++ [line]) = start ++ [last, '\n'] := by
  obtain ⟨start, rfl⟩ := List.getLast?_eq_some_iff.1 hlast
  exact ⟨unlines before ++ start, by simp [unlines]⟩

/-! ### Characters replaced -/

/-- The text with `new` in every place of the character `old`. -/
def replace (old : Char) (new text : Text) : Text := text.flatMap fun c => if c = old then new else [c]

theorem replace_append (old : Char) (new first second : Text) :
    replace old new (first ++ second) = replace old new first ++ replace old new second :=
  List.flatMap_append

theorem replace_of_not_mem {old : Char} {text : Text} (h : old ∉ text) (new : Text) :
    replace old new text = text := by
  induction text with
  | nil => rfl
  | cons c text ih =>
    simp only [List.mem_cons, not_or] at h
    have hrest := ih h.2
    simp only [replace] at hrest ⊢
    rw [List.flatMap_cons, hrest, if_neg (Ne.symm h.1), List.singleton_append]

/-! ### Counting lines -/

/-- There is one line more than there are line feeds. -/
theorem length_endedLines (text : Text) : (endedLines text).length = text.count '\n' + 1 := by
  rw [endedLines, List.length_map]
  induction text using line_induction with
  | last text h => rw [splitOn_of_not_mem h, List.count_eq_zero.2 h, List.length_singleton]
  | ended piece rest h ih =>
    have hcount : (piece ++ '\n' :: rest).count '\n' = rest.count '\n' + 1 := by
      simp [List.count_eq_zero.2 h]
    rw [splitOn_append, splitOn_of_not_mem h, List.length_append, ih, hcount, List.length_singleton, add_comm]

/-- The last line of a text is not ended: it keeps its carriage return, and it is no line when empty. -/
theorem exists_lines_eq (text : Text) : ∃ ended last, endedLines text = ended ++ [dropReturn last] ∧
    lines text = ended ++ if last = [] then [] else [last] := by
  obtain ⟨pieces, last, hpieces⟩ := (List.eq_nil_or_concat (text.splitOn '\n')).resolve_left
    (List.splitOn_ne_nil _ _)
  rw [List.concat_eq_append] at hpieces
  refine ⟨pieces.map dropReturn, last, by simp [endedLines, hpieces], ?_⟩
  rw [lines, hpieces, ofPieces_append (List.cons_ne_nil _ _)]
  rfl

/-! ### The first lines of a text -/

/-- The start of a text up to a line feed, so that it has `count` lines, or the whole text if it has no
    more lines than that. -/
def firstLines : Nat → Text → Text
  | _, [] => []
  | 0, _ :: _ => []
  | count + 1, c :: cs => c :: firstLines (if c = '\n' then count else count + 1) cs

theorem firstLines_prefix : ∀ (text : Text) (count : Nat), firstLines count text <+: text
  | [], _ => List.prefix_rfl
  | _ :: _, 0 => List.nil_prefix
  | c :: cs, count + 1 => by
    rw [firstLines, List.prefix_cons_inj]
    exact firstLines_prefix cs _

theorem firstLines_append (count : Nat) : ∀ {piece : Text}, '\n' ∉ piece → ∀ rest : Text,
    firstLines (count + 1) (piece ++ rest) = piece ++ firstLines (count + 1) rest
  | [], _, _ => rfl
  | c :: cs, h, rest => by
    have hne : c ≠ '\n' := fun heq => h (heq ▸ List.mem_cons_self)
    have ih := firstLines_append count (fun hmem => h (List.mem_cons_of_mem c hmem)) rest
    rw [List.cons_append, firstLines, if_neg hne, ih, List.cons_append]

theorem lines_of_not_mem {text : Text} (h : '\n' ∉ text) :
    lines text = if text = [] then [] else [text] := by
  rw [lines, splitOn_of_not_mem h, ofPieces]

theorem lines_firstLines (count : Nat) (text : Text) :
    lines (firstLines count text) = (lines text).take count := by
  induction count generalizing text with
  | zero => cases text <;> rfl
  | succ count ih =>
    by_cases hmem : '\n' ∈ text
    · obtain ⟨piece, rest, rfl, hpiece⟩ := List.eq_append_cons_of_mem hmem
      rw [firstLines_append count hpiece, firstLines, if_pos rfl, lines_ended hpiece, lines_ended hpiece, ih,
        List.take_succ_cons]
    · have hwhole : firstLines (count + 1) text = text := by
        have := firstLines_append count hmem []
        rwa [List.append_nil, firstLines, List.append_nil] at this
      rw [hwhole, lines_of_not_mem hmem]
      split <;> simp

end LambdaArrow.Text
