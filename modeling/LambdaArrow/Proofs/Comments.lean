import LambdaArrow.Proofs.Cutting

/-! No line of a program is lost on the way to its entries. Comments wait, and three things end the waiting: code,
    which takes them along, and a blank line or the end of the program, which leave them in an entry of their
    own. A line of code may end one wait and start the next:

        1   // a
        2   Zero := $fa.a // b      ──▶ 2 `Zero := $fa.a` with `// a`
        3                           ──▶ 3 `// b` alone
        4   // c
        5   One := $fa.f a // d     ──▶ 5 `One := $fa.f a` with `// c`
                                    ──▶ 5 `// d` alone

    What waits is told from the lines seen so far: it is the comments of the last few of them. -/

namespace LambdaArrow.CodeLine

/-! ### What lines hold -/

/-- The comments of lines, in order. -/
def commentsOf (lines : List Text) : List Text := lines.filterMap fun line => (parts line).2

/-- The code of the lines behind line `number` that have any, each with its own number. -/
def codesOf (number : Nat) (lines : List Text) : List (Nat × Text) :=
  (lines.zipIdx (number + 1)).filterMap fun line =>
    if (parts line.1).1 = [] then none else some (line.2, (parts line.1).1)

theorem commentsOf_cons (line : Text) (rest : List Text) :
    commentsOf (line :: rest) = (parts line).2.toList ++ commentsOf rest := by
  unfold commentsOf
  cases hcomment : (parts line).2 <;> simp [hcomment]

theorem commentsOf_append (first second : List Text) :
    commentsOf (first ++ second) = commentsOf first ++ commentsOf second :=
  List.filterMap_append

theorem codesOf_of_blank {line : Text} (h : (parts line).1 = []) (number : Nat) (rest : List Text) :
    codesOf number (line :: rest) = codesOf (number + 1) rest := by
  simp [codesOf, h]

theorem codesOf_of_code {line : Text} (h : (parts line).1 ≠ []) (number : Nat) (rest : List Text) :
    codesOf number (line :: rest) = (number + 1, (parts line).1) :: codesOf (number + 1) rest := by
  simp [codesOf, h]

/-! ### Comments alone -/

theorem comments_alone (number : Nat) (comments : List Text) :
    (alone number comments).flatMap (·.comments) = comments := by
  unfold alone
  split <;> simp [*]

theorem of_mem_alone {entry : CodeLine} {number : Nat} {comments : List Text}
    (h : entry ∈ alone number comments) : entry = ⟨number, [], comments⟩ ∧ comments ≠ [] := by
  unfold alone at h
  split at h
  · cases h
  · exact ⟨List.mem_singleton.1 h, by assumption⟩

/-! ### Line by line -/

/-- How the lines behind line `number` become entries while the comments `waiting` wait: one case for the end
    and one for each kind of line. -/
inductive Collects : Nat → List Text → List Text → List CodeLine → Prop
  | done (number : Nat) (waiting : List Text) : Collects number waiting [] (alone number waiting)
  | comment {number : Nat} {waiting rest : List Text} {line comment : Text} {entries : List CodeLine} :
      parts line = ([], some comment) → Collects (number + 1) (waiting ++ [comment]) rest entries →
        Collects number waiting (line :: rest) entries
  | blank {number : Nat} {waiting rest : List Text} {line : Text} {entries : List CodeLine} :
      parts line = ([], none) → Collects (number + 1) [] rest entries →
        Collects number waiting (line :: rest) (alone (number + 1) waiting ++ entries)
  | code {number : Nat} {waiting rest : List Text} {line code : Text} {comment : Option Text}
      {entries : List CodeLine} : parts line = (code, comment) → code ≠ [] →
        Collects (number + 1) comment.toList rest entries →
          Collects number waiting (line :: rest) (⟨number + 1, code, waiting⟩ :: entries)

theorem collects_collect (lines : List Text) : ∀ (number : Nat) (waiting : List Text),
    Collects number waiting lines (collect number waiting lines) := by
  induction lines with
  | nil => exact .done
  | cons line rest ih =>
    intro number waiting
    rcases hparts : parts line with ⟨_ | ⟨c, code⟩, comment⟩
    · cases comment with
      | none =>
        simp only [collect, hparts]
        exact .blank hparts (ih _ _)
      | some comment =>
        simp only [collect, hparts]
        exact .comment hparts (ih _ _)
    · simp only [collect, hparts]
      exact .code hparts (List.cons_ne_nil _ _) (ih _ _)

theorem collects_ofProgram (program : Text) : Collects 0 [] (Text.lines program) (ofProgram program) :=
  collects_collect _ 0 []

/-! ### Single entries -/

/-- An entry that is not empty, from one of the `count` lines behind line `number`, or else made of what waited
    there. -/
structure Placed (number : Nat) (waiting : List Text) (count : Nat) (entry : CodeLine) : Prop where
  full : entry.text ≠ [] ∨ entry.comments ≠ []
  above : number < entry.number ∨ (entry.number = number ∧ waiting ≠ [])
  below : entry.number ≤ number + count

theorem Placed.of_succ {number count : Nat} {later : List Text} {entry : CodeLine}
    (h : Placed (number + 1) later count entry) (waiting : List Text) :
    Placed number waiting (count + 1) entry := by
  have hbelow := h.below
  refine ⟨h.full, Or.inl ?_, by omega⟩
  rcases h.above with hlt | ⟨heq, -⟩ <;> omega

namespace Collects

variable {number : Nat} {waiting lines : List Text} {entries : List CodeLine}

/-! ### Nothing is lost -/

/-- The comments of the entries are those that waited and those of the lines. -/
theorem comments_eq (h : Collects number waiting lines entries) :
    entries.flatMap (·.comments) = waiting ++ commentsOf lines := by
  induction h with
  | done number waiting => simp [comments_alone, commentsOf]
  | comment hparts _ ih => simp [ih, commentsOf_cons, hparts]
  | blank hparts _ ih => simp [ih, comments_alone, commentsOf_cons, hparts]
  | code hparts _ _ ih => simp [ih, commentsOf_cons, hparts]

/-- The entries with code are the lines with code. -/
theorem codes_eq (h : Collects number waiting lines entries) :
    (entries.filter (·.text ≠ [])).map (fun entry => (entry.number, entry.text)) =
      codesOf number lines := by
  have halone : ∀ number comments, (alone number comments).filter (·.text ≠ []) = [] := by
    intro number comments
    rw [List.filter_eq_nil_iff]
    intro entry hentry
    simp [(of_mem_alone hentry).1]
  induction h with
  | done number waiting => rw [halone]; rfl
  | comment hparts _ ih => rw [ih, codesOf_of_blank (by rw [hparts])]
  | blank hparts _ ih =>
    rw [List.filter_append, halone, List.nil_append, ih, codesOf_of_blank (by rw [hparts])]
  | code hparts hcode _ ih =>
    rw [codesOf_of_code (by rwa [hparts]), hparts, List.filter_cons_of_pos (by simpa using hcode),
      List.map_cons, ih]

/-- An entry is full and has the number of one of the lines. -/
theorem placed (h : Collects number waiting lines entries) :
    ∀ entry ∈ entries, Placed number waiting lines.length entry := by
  induction h with
  | done number waiting =>
    intro entry hentry
    obtain ⟨rfl, hne⟩ := of_mem_alone hentry
    exact ⟨Or.inr hne, Or.inr ⟨rfl, hne⟩, le_rfl⟩
  | comment _ _ ih => exact fun entry hentry => (ih entry hentry).of_succ _
  | blank _ _ ih =>
    intro entry hentry
    rcases List.mem_append.1 hentry with hentry | hentry
    · obtain ⟨rfl, hne⟩ := of_mem_alone hentry
      exact ⟨Or.inr hne, Or.inl (Nat.lt_succ_self _), by simp⟩
    · exact (ih entry hentry).of_succ _
  | code _ hcode _ ih =>
    intro entry hentry
    rcases List.mem_cons.1 hentry with rfl | hentry
    · exact ⟨Or.inl hcode, Or.inl (Nat.lt_succ_self _), by simp⟩
    · exact (ih entry hentry).of_succ _

end Collects

/-! ### Numbers in order -/

/-- Numbers that rise from `number` on, except that comments alone may end the list at the number before. -/
def Rises : Nat → List CodeLine → Prop
  | _, [] => True
  | number, entry :: rest =>
    (number < entry.number ∧ Rises entry.number rest) ∨
      (entry.number = number ∧ entry.text = [] ∧ rest = [])

theorem Rises.of_succ {number : Nat} {entries : List CodeLine} (h : Rises (number + 1) entries) :
    Rises number entries := by
  cases entries with
  | nil => trivial
  | cons entry rest =>
    rcases h with ⟨hlt, hrest⟩ | ⟨heq, -, rfl⟩
    · exact Or.inl ⟨by omega, hrest⟩
    · exact Or.inl ⟨by omega, trivial⟩

theorem Collects.rises {number : Nat} {waiting lines : List Text} {entries : List CodeLine}
    (h : Collects number waiting lines entries) : Rises number entries := by
  induction h with
  | done number waiting =>
    unfold alone
    split
    · trivial
    · exact Or.inr ⟨rfl, rfl, rfl⟩
  | comment _ _ ih => exact ih.of_succ
  | blank _ _ ih =>
    unfold alone
    split
    · exact ih.of_succ
    · exact Or.inl ⟨Nat.lt_succ_self _, ih⟩
  | code _ _ _ ih => exact Or.inl ⟨Nat.lt_succ_self _, ih⟩

/-- Of two entries beside each other the second has the larger number, or it is the last and without code. -/
theorem Rises.lt_or_last {first second : CodeLine} {later : List CodeLine} :
    ∀ {earlier : List CodeLine} {number : Nat}, Rises number (earlier ++ first :: second :: later) →
      first.number < second.number ∨ (second.number = first.number ∧ second.text = [] ∧ later = [])
  | [], _, h => by
    rcases h with ⟨-, hsecond⟩ | ⟨-, -, hnil⟩
    · exact hsecond.imp_left And.left
    · cases hnil
  | entry :: earlier, _, h => by
    rcases h with ⟨-, hrest⟩ | ⟨-, -, hnil⟩
    · exact hrest.lt_or_last
    · cases earlier <;> cases hnil

/-! ### Where comments come from -/

/-- The comments `waiting` behind the lines `seen`, when the comments `gone` wait no more: those of the last
    few lines, one of each, of which only the first may have code. -/
def Waits (gone seen waiting : List Text) : Prop :=
  ∃ before run, seen = before ++ run ∧ gone = commentsOf before ∧
    run.map (fun line => (parts line).2) = waiting.map some ∧ ∀ line ∈ run.tail, (parts line).1 = []

theorem Waits.commentsOf_eq {gone seen waiting : List Text} (h : Waits gone seen waiting) :
    commentsOf seen = gone ++ waiting := by
  obtain ⟨before, run, rfl, rfl, hrun, -⟩ := h
  have hcomments : commentsOf run = waiting := by
    have hmap : commentsOf run = (run.map fun line => (parts line).2).filterMap id := by
      rw [List.filterMap_map]
      rfl
    rw [hmap, hrun]
    simp
  rw [commentsOf_append, hcomments]

theorem Waits.nil : Waits [] [] [] := ⟨[], [], rfl, rfl, rfl, by simp⟩

/-- A line of comment alone makes the wait longer. -/
theorem Waits.comment {gone seen waiting : List Text} {line comment : Text} (h : Waits gone seen waiting)
    (hparts : parts line = ([], some comment)) : Waits gone (seen ++ [line]) (waiting ++ [comment]) := by
  obtain ⟨before, run, rfl, hgone, hrun, hcode⟩ := h
  refine ⟨before, run ++ [line], by simp, hgone, by simp [hrun, hparts], ?_⟩
  intro other hother
  rcases run with _ | ⟨first, run⟩
  · simp at hother
  · rcases List.mem_append.1 hother with hother | hother
    · exact hcode other hother
    · rw [List.mem_singleton.1 hother, hparts]

/-- Any other line ends it, and its own comment starts the next. -/
theorem Waits.fresh {gone seen waiting : List Text} (h : Waits gone seen waiting) (line : Text) :
    Waits (gone ++ waiting) (seen ++ [line]) (parts line).2.toList := by
  rw [← h.commentsOf_eq]
  cases hcomment : (parts line).2 with
  | none => exact ⟨seen ++ [line], [], by simp, by simp [commentsOf, hcomment], rfl, by simp⟩
  | some comment => exact ⟨seen, [line], rfl, rfl, by simp [hcomment], by simp⟩

/-- Code takes along what waits behind the lines above it. -/
theorem Collects.waits {number : Nat} {waiting lines : List Text} {entries : List CodeLine}
    (h : Collects number waiting lines entries) : ∀ {gone seen : List Text}, seen.length = number →
      Waits gone seen waiting → ∀ {earlier : List CodeLine} {entry : CodeLine} {later : List CodeLine},
        entries = earlier ++ entry :: later → entry.text ≠ [] →
          Waits (gone ++ earlier.flatMap (·.comments)) ((seen ++ lines).take (entry.number - 1))
            entry.comments := by
  -- behind a line the invariant holds again, with the line among those seen
  have hseen : ∀ (seen : List Text) line rest, seen ++ line :: rest = seen ++ [line] ++ rest := by simp
  have hlength : ∀ {seen : List Text} {number}, seen.length = number → ∀ line,
      (seen ++ [line]).length = number + 1 := by simp
  induction h with
  | done number waiting =>
    intro gone seen _ _ earlier entry later heq hcode
    have hmem : entry ∈ alone number waiting := by simp [heq]
    exact absurd (by rw [(of_mem_alone hmem).1]) hcode
  | comment hparts _ ih =>
    intro gone seen hnumber hwaits earlier entry later heq hcode
    rw [hseen]
    exact ih (hlength hnumber _) (hwaits.comment hparts) heq hcode
  | @blank number waiting rest line entries hparts _ ih =>
    intro gone seen hnumber hwaits earlier entry later heq hcode
    have hfresh := hwaits.fresh line
    rw [hparts] at hfresh
    -- the entry is behind the comments alone, since it has code
    obtain ⟨between, rfl, hrest⟩ : ∃ between, earlier = alone (number + 1) waiting ++ between ∧
        entries = between ++ entry :: later := by
      rcases List.append_eq_append_iff.1 heq with hbetween | ⟨_ | ⟨first, held⟩, halone, hrest⟩
      · exact hbetween
      · exact ⟨[], by simpa using halone.symm, hrest.symm⟩
      · obtain ⟨rfl, -⟩ := List.cons.inj hrest
        have hmem : entry ∈ alone (number + 1) waiting := by simp [halone]
        exact absurd (by rw [(of_mem_alone hmem).1]) hcode
    rw [hseen, List.flatMap_append, comments_alone, ← List.append_assoc]
    exact ih (hlength hnumber _) hfresh hrest hcode
  | @code number waiting rest line code comment entries hparts _ _ ih =>
    intro gone seen hnumber hwaits earlier entry later heq hcode
    have hfresh := hwaits.fresh line
    rw [hparts] at hfresh
    rcases earlier with _ | ⟨first, earlier⟩
    · obtain ⟨rfl, -⟩ := List.cons.inj heq
      simpa [← hnumber] using hwaits
    · obtain ⟨rfl, hrest⟩ := List.cons.inj heq
      rw [hseen, List.flatMap_cons, ← List.append_assoc]
      exact ih (hlength hnumber _) hfresh hrest hcode

/-- CORRECT: the entries of a program hold the comments of all its lines and the code of all its lines, each
    once and in order, and none is empty. They have numbers of lines that rise, but for comments alone at the
    end. The comments that code has are those of the lines right above it, one of each, and of these lines only
    the first may have code, which its comment trails. -/
theorem ofProgram_lossless (program : Text) :
    (∀ line ∈ Text.lines program, ∃ code comment, IsCode line code ∧ line = code ++ comment ∧
      parts line =
        (Text.trim code, if commentMark <:+: line then some (Text.trimRight comment) else none)) ∧
    (ofProgram program).flatMap (·.comments) = commentsOf (Text.lines program) ∧
    ((ofProgram program).filter (·.text ≠ [])).map (fun entry => (entry.number, entry.text)) =
      codesOf 0 (Text.lines program) ∧
    (∀ entry ∈ ofProgram program, (entry.text ≠ [] ∨ entry.comments ≠ []) ∧
      1 ≤ entry.number ∧ entry.number ≤ (Text.lines program).length) ∧
    (∀ earlier first second later, ofProgram program = earlier ++ first :: second :: later →
      first.number < second.number ∨ (second.number = first.number ∧ second.text = [] ∧ later = [])) ∧
    ∀ earlier entry later, ofProgram program = earlier ++ entry :: later → entry.text ≠ [] →
      ∃ before run, (Text.lines program).take (entry.number - 1) = before ++ run ∧
        earlier.flatMap (·.comments) = commentsOf before ∧
        run.map (fun line => (parts line).2) = entry.comments.map some ∧
        ∀ line ∈ run.tail, (parts line).1 = [] := by
  have hcollects := collects_ofProgram program
  refine ⟨fun line _ => exists_parts_eq line, hcollects.comments_eq, hcollects.codes_eq, ?_, ?_, ?_⟩
  · intro entry hentry
    have hplaced := hcollects.placed entry hentry
    exact ⟨hplaced.full, hplaced.above.resolve_right (by simp), by simpa using hplaced.below⟩
  · intro earlier first second later heq
    have hrises := hcollects.rises
    rw [heq] at hrises
    exact hrises.lt_or_last
  · intro earlier entry later heq hcode
    exact hcollects.waits rfl .nil heq hcode

/-- Three ways to end a wait: line 2 takes the comment above it and leaves its own, which the blank line 3 ends;
    the comment of the last line stands alone under the number of that line. -/
theorem ofProgram_lossless_three_ends :
    ofProgram "// a\nZero:=x // b\n\n// c\nOne:=y// d".toList =
      [⟨2, "Zero:=x".toList, ["// a".toList]⟩, ⟨3, [], ["// b".toList]⟩,
        ⟨5, "One:=y".toList, ["// c".toList]⟩, ⟨5, [], ["// d".toList]⟩] ∧
    commentsOf (Text.lines "// a\nZero:=x // b\n\n// c\nOne:=y// d".toList) =
      ["// a".toList, "// b".toList, "// c".toList, "// d".toList] ∧
    codesOf 0 (Text.lines "// a\nZero:=x // b\n\n// c\nOne:=y// d".toList) =
      [(2, "Zero:=x".toList), (5, "One:=y".toList)] ∧
    ∃ before run, (Text.lines "// a\nZero:=x // b\n\n// c\nOne:=y// d".toList).take 4 = before ++ run ∧
      ["// a".toList, "// b".toList] = commentsOf before ∧
      run.map (fun line => (parts line).2) = ["// c".toList].map some ∧
      ∀ line ∈ run.tail, (parts line).1 = [] := by
  have hentries : ofProgram "// a\nZero:=x // b\n\n// c\nOne:=y// d".toList =
      [⟨2, "Zero:=x".toList, ["// a".toList]⟩, ⟨3, [], ["// b".toList]⟩,
        ⟨5, "One:=y".toList, ["// c".toList]⟩, ⟨5, [], ["// d".toList]⟩] := by cbv
  obtain ⟨-, hcomments, hcodes, -, -, hsources⟩ :=
    ofProgram_lossless "// a\nZero:=x // b\n\n// c\nOne:=y// d".toList
  rw [hentries] at hcomments hcodes hsources
  exact ⟨hentries, hcomments.symm, hcodes.symm,
    hsources [⟨2, "Zero:=x".toList, ["// a".toList]⟩, ⟨3, [], ["// b".toList]⟩] _ _ rfl (by decide)⟩

end LambdaArrow.CodeLine
