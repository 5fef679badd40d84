import LambdaArrow.Literal
import LambdaArrow.Proofs.Lines

/-! Reading a literal takes the parameters off its front. A group of letters and a dot are parameters, and
    what is behind them goes on with further groups and then the body. So a letter and a dot in front of a
    body make a literal of one parameter, provided the body does not itself go on with a group of letters
    and a dot; and a letter in front of a literal is one parameter more. -/

namespace LambdaArrow.Literal

/-- A body that does not start with a group of letters and a dot, which would be parameters. -/
def StartsBody (body : Text) : Prop := (body.dropWhile Char.isLower).head? ≠ some '.'

theorem dot_not_mem_of_isGroup {piece : Text} (h : isGroup piece) : '.' ∉ piece := by
  intro hmem
  rw [isGroup, Bool.and_eq_true, List.all_eq_true] at h
  exact absurd (h.2 '.' hmem) (by decide)

theorem isLower_of_isGroup {piece : Text} (h : isGroup piece) : ∀ c ∈ piece, c.isLower := by
  rw [isGroup, Bool.and_eq_true, List.all_eq_true] at h
  exact h.2

/-- The first of two or more pieces between dots is followed by a dot. -/
theorem eq_append_of_splitOn {text piece next : Text} {rest : List Text}
    (h : text.splitOn '.' = piece :: next :: rest) :
    text = piece ++ '.' :: ['.'].intercalate (next :: rest) := by
  have : ['.'].intercalate (text.splitOn '.') = text := List.intercalate_splitOn '.'
  rw [h, List.intercalate_cons_cons] at this
  simpa using this.symm

theorem dropWhile_isLower_group {piece : Text} (h : isGroup piece) (rest : Text) :
    ((piece ++ '.' :: rest).dropWhile Char.isLower).head? = some '.' := by
  rw [List.dropWhile_append_of_pos (isLower_of_isGroup h)]
  rfl

/-- No piece of such a body is a parameter group. -/
theorem groups_of_startsBody {body : Text} (h : StartsBody body) : groups (body.splitOn '.') = [] := by
  match hpieces : body.splitOn '.' with
  | [] => rfl
  | [_] => rfl
  | piece :: next :: rest =>
    rw [groups, List.dropLast_cons_cons, List.takeWhile_cons, if_neg]
    intro hgroup
    apply h
    rw [eq_append_of_splitOn hpieces]
    exact dropWhile_isLower_group hgroup _

theorem groups_cons {piece : Text} (hgroup : isGroup piece) {rest : List Text} (hrest : rest ≠ []) :
    groups (piece :: rest) = piece :: groups rest := by
  rw [groups, List.dropLast_cons_of_ne_nil hrest, List.takeWhile_cons, if_pos hgroup]
  rfl

theorem isGroup_singleton {param : Char} (h : param.isLower) : isGroup [param] := by
  simp [isGroup, h]

theorem isGroup_of_forall {piece : Text} (hne : piece ≠ []) (h : ∀ c ∈ piece, c.isLower) : isGroup piece := by
  simpa [isGroup, hne] using h

theorem isGroup_append {first second : Text} (hfirst : isGroup first) (hsecond : isGroup second) :
    isGroup (first ++ second) := by
  have hne : first ≠ [] := by
    rintro rfl
    exact absurd hfirst (by decide)
  refine isGroup_of_forall (List.append_ne_nil_of_left_ne_nil hne second) fun c hc => ?_
  rcases List.mem_append.1 hc with hc | hc
  · exact isLower_of_isGroup hfirst c hc
  · exact isLower_of_isGroup hsecond c hc

/-- The further parameters and the body, from the text behind the first group and its dot. -/
def further (rest : Text) : Literal :=
  ⟨(groups (rest.splitOn '.')).flatten, bodyOf (rest.splitOn '.')⟩

theorem further_of_startsBody {body : Text} (h : StartsBody body) : further body = ⟨[], body⟩ := by
  have hgroups := groups_of_startsBody h
  have hbody : bodyOf (body.splitOn '.') = body := by
    rw [bodyOf, hgroups]
    exact List.intercalate_splitOn '.'
  rw [further, hgroups, hbody]
  rfl

theorem splitOn_group {group : Text} (h : isGroup group) (rest : Text) :
    (group ++ '.' :: rest).splitOn '.' = group :: rest.splitOn '.' :=
  List.splitOn_append_cons_self_of_not_mem (dot_not_mem_of_isGroup h) _

theorem bodyOf_cons {group : Text} (h : isGroup group) {pieces : List Text} (hpieces : pieces ≠ []) :
    bodyOf (group :: pieces) = bodyOf pieces := by
  rw [bodyOf, bodyOf, groups_cons h hpieces]
  rfl

/-- Another group of letters and a dot are further parameters. -/
theorem further_group {group : Text} (h : isGroup group) (rest : Text) :
    further (group ++ '.' :: rest) = ⟨group ++ (further rest).params, (further rest).body⟩ := by
  have hpieces := List.splitOn_ne_nil '.' rest
  rw [further, splitOn_group h, groups_cons h hpieces, bodyOf_cons h hpieces]
  rfl

/-- A group, a dot and more: a literal, unless there is no body. -/
theorem read_group {group : Text} (h : isGroup group) (rest : Text) :
    read (group ++ '.' :: rest) =
      if Text.trim (further rest).body = [] then .error (.emptyExpression ('$' :: (group ++ '.' :: rest)))
      else .ok ⟨group ++ (further rest).params, (further rest).body⟩ := by
  have hpieces := List.splitOn_ne_nil '.' rest
  have hlength : ¬(group :: rest.splitOn '.').length < 2 := by
    have := List.length_pos_iff.2 hpieces
    rw [List.length_cons]
    omega
  simp only [read]
  rw [splitOn_group h, if_neg hlength, groups_cons h hpieces, if_neg (List.cons_ne_nil _ _),
    bodyOf_cons h hpieces]
  rfl

/-- One letter, a dot and a body. -/
theorem read_letter_dot {param : Char} {body : Text} (hparam : param.isLower)
    (hbody : StartsBody body) (hne : Text.trim body ≠ []) :
    read (param :: '.' :: body) = .ok ⟨[param], body⟩ := by
  have hread := read_group (isGroup_singleton hparam) body
  rw [further_of_startsBody hbody, if_neg hne] at hread
  exact hread

/-- A literal is read only from pieces that start with a parameter group and go on behind it. -/
theorem of_read_eq_ok {rest : Text} {literal : Literal} (h : read rest = .ok literal) :
    ∃ piece pieces, rest.splitOn '.' = piece :: pieces ∧ pieces ≠ [] ∧ isGroup piece ∧
      Text.trim (bodyOf (piece :: pieces)) ≠ [] ∧
      literal = ⟨(groups (piece :: pieces)).flatten, bodyOf (piece :: pieces)⟩ := by
  simp only [read] at h
  cases hpieces : rest.splitOn '.' with
  | nil => exact absurd hpieces (List.splitOn_ne_nil '.' rest)
  | cons piece pieces =>
    rw [hpieces] at h
    split at h
    · cases h
    · rename_i hlength
      split at h
      · cases h
      · rename_i hgroups
        split at h
        · cases h
        · rename_i hbody
          have hne : pieces ≠ [] := by
            rintro rfl
            exact hlength Nat.one_lt_two
          refine ⟨piece, pieces, rfl, hne, ?_, hbody, (Except.ok.inj h).symm⟩
          rw [groups, List.dropLast_cons_of_ne_nil hne, List.takeWhile_cons] at hgroups
          split at hgroups
          · assumption
          · exact absurd rfl hgroups

/-- A literal starts with a group and a dot. -/
theorem exists_group_of_read {rest : Text} {literal : Literal} (h : read rest = .ok literal) :
    ∃ group more, rest = group ++ '.' :: more ∧ isGroup group := by
  obtain ⟨piece, pieces, hpieces, hne, hgroup, -, -⟩ := of_read_eq_ok h
  obtain ⟨next, others, rfl⟩ := List.exists_cons_of_ne_nil hne
  exact ⟨piece, _, eq_append_of_splitOn hpieces, hgroup⟩

/-- Pieces put together again: the groups at their start, a dot behind each, and what is left. -/
theorem groups_append_bodyOf (rest : Text) :
    (groups (rest.splitOn '.')).flatMap (· ++ ['.']) ++ bodyOf (rest.splitOn '.') = rest := by
  have hgroups : groups (rest.splitOn '.') <+: rest.splitOn '.' :=
    (List.takeWhile_prefix _).trans (List.dropLast_prefix _)
  have hbody : (rest.splitOn '.').drop (groups (rest.splitOn '.')).length ≠ [] := by
    have hlength := (List.takeWhile_prefix isGroup (l := (rest.splitOn '.').dropLast)).length_le
    have hpos := List.length_pos_iff.2 (List.splitOn_ne_nil '.' rest)
    rw [List.length_dropLast] at hlength
    rw [ne_eq, List.drop_eq_nil_iff, groups]
    omega
  have hsplit : rest.splitOn '.' = groups (rest.splitOn '.') ++
      (rest.splitOn '.').drop (groups (rest.splitOn '.')).length := by
    conv_lhs => rw [← List.take_append_drop (groups (rest.splitOn '.')).length (rest.splitOn '.')]
    rw [← List.prefix_iff_eq_take.1 hgroups]
  have hrest : ['.'].intercalate (rest.splitOn '.') = rest := List.intercalate_splitOn '.'
  rw [hsplit, Text.intercalate_append '.' hbody] at hrest
  exact hrest

/-- In front of the body stand the parameters, letters and dots. -/
theorem exists_front {rest : Text} {literal : Literal} (h : read rest = .ok literal) :
    ∃ front, rest = front ++ literal.body ∧ ∀ c ∈ front, c.isLower ∨ c = '.' := by
  obtain ⟨piece, pieces, hpieces, -, -, -, rfl⟩ := of_read_eq_ok h
  rw [← hpieces]
  refine ⟨_, (groups_append_bodyOf rest).symm, ?_⟩
  intro c hc
  obtain ⟨group, hgroup, hmem⟩ := List.mem_flatMap.1 hc
  rcases List.mem_append.1 hmem with hmem | hmem
  · exact Or.inl (isLower_of_isGroup (List.mem_takeWhile_imp hgroup) c hmem)
  · exact Or.inr (List.mem_singleton.1 hmem)

/-- Parameters and body together are no longer than the text. -/
theorem length_params_add_le {rest : Text} {literal : Literal} (h : read rest = .ok literal) :
    literal.params.length + literal.body.length ≤ rest.length := by
  obtain ⟨piece, pieces, hpieces, -, -, -, rfl⟩ := of_read_eq_ok h
  rw [← hpieces]
  have hdots : ∀ pieces : List Text, pieces.flatten.length ≤ (pieces.flatMap (· ++ ['.'])).length := by
    intro pieces
    induction pieces with
    | nil => exact le_rfl
    | cons piece pieces ih =>
      simp only [List.flatten_cons, List.flatMap_cons, List.length_append]
      omega
  have hlength := congrArg List.length (groups_append_bodyOf rest)
  have hparams := hdots (groups (rest.splitOn '.'))
  rw [List.length_append] at hlength
  dsimp only
  omega

/-- A literal has at least one parameter. -/
theorem params_ne_nil {rest : Text} {literal : Literal} (h : read rest = .ok literal) :
    literal.params ≠ [] := by
  obtain ⟨piece, pieces, -, hne, hgroup, -, rfl⟩ := of_read_eq_ok h
  have hpiece : piece ≠ [] := by
    rintro rfl
    exact absurd hgroup (by decide)
  rw [groups_cons hgroup hne, List.flatten_cons]
  exact List.append_ne_nil_of_left_ne_nil hpiece _

theorem isGroup_cons {param : Char} {piece : Text} (hparam : param.isLower) (h : isGroup piece) :
    isGroup (param :: piece) := by
  rw [isGroup, Bool.and_eq_true, List.all_cons, hparam, Bool.true_and]
  rw [isGroup, Bool.and_eq_true] at h
  exact ⟨by simp, h.2⟩

/-- A letter in front of a literal is one parameter more. -/
theorem read_cons {param : Char} {rest : Text} {literal : Literal} (hparam : param.isLower)
    (h : read rest = .ok literal) :
    read (param :: rest) = .ok ⟨param :: literal.params, literal.body⟩ := by
  obtain ⟨group, more, rfl, hgroup⟩ := exists_group_of_read h
  rw [read_group hgroup] at h
  split at h
  · cases h
  · rename_i hbody
    cases h
    have hread := read_group (isGroup_cons hparam hgroup) more
    rwa [if_neg hbody] at hread

end LambdaArrow.Literal
