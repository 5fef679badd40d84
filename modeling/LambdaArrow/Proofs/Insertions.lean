import LambdaArrow.Proofs.Keys

/-! Many insertions, one after the other. A key takes its place when it first comes, and its value is the
    last one that came with it:

        insertions   A ↦ 1   B ↦ 2   A ↦ 3
        table        A ↦ 3   B ↦ 2

    So making the same insertions once more changes nothing. -/

namespace LambdaArrow.Table

variable {κ α : Type} [DecidableEq κ]

/-! ### One insertion -/

theorem map_place (key : κ) (value : α) : ∀ entries : List (κ × α),
    (place key value entries).map (·.1) =
      if key ∈ entries.map (·.1) then entries.map (·.1) else entries.map (·.1) ++ [key]
  | [] => by simp [place]
  | entry :: rest => by
    rw [place]
    by_cases h : entry.1 = key
    · simp [h]
    · have hne : key ≠ entry.1 := fun heq => h heq.symm
      rw [if_neg h, List.map_cons, map_place key value rest]
      simp only [List.map_cons, List.mem_cons, hne, false_or]
      split <;> simp

theorem keys_insert (table : Table κ α) (key : κ) (value : α) :
    (table.insert key value).keys = if key ∈ table.keys then table.keys else table.keys ++ [key] :=
  map_place key value table.entries

theorem keys_prefix_insert (table : Table κ α) (key : κ) (value : α) :
    table.keys <+: (table.insert key value).keys := by
  rw [keys_insert]
  split
  · exact List.prefix_rfl
  · exact List.prefix_append _ _

theorem nodup_keys_insert {table : Table κ α} (h : table.keys.Nodup) (key : κ) (value : α) :
    (table.insert key value).keys.Nodup := by
  rw [keys_insert]
  split
  · exact h
  · rename_i hkey
    rw [← List.concat_eq_append]
    exact h.concat hkey

theorem mem_place {key other : κ} {value found : α} : ∀ {entries : List (κ × α)},
    (entries.map (·.1)).Nodup → ((other, found) ∈ place key value entries ↔
      (other = key ∧ found = value) ∨ (other ≠ key ∧ (other, found) ∈ entries))
  | [], _ => by simp [place]
  | (first, old) :: rest, h => by
    obtain ⟨hfirst, hrest⟩ := List.nodup_cons.1 h
    rw [place]
    by_cases hkey : first = key
    · -- the other entries have other keys, as no key stands twice
      have hother : (other, found) ∈ rest → other ≠ key := by
        rintro hmem rfl
        exact hfirst (hkey ▸ List.mem_map.2 ⟨_, hmem, rfl⟩)
      simp only [hkey, if_true, List.mem_cons, Prod.mk.injEq]
      grind
    · simp only [if_neg hkey, List.mem_cons, mem_place hrest, Prod.mk.injEq]
      grind

/-- The second value of a key replaces the first. -/
theorem place_place (key : κ) (value old : α) : ∀ entries : List (κ × α),
    place key value (place key old entries) = place key value entries
  | [] => by simp [place]
  | entry :: rest => by
    by_cases h : entry.1 = key
    · simp [place, h]
    · simp [place, h, place_place key value old rest]

/-- A key that has its place keeps it, whichever of two keys gets its value first. -/
theorem place_comm {key other : κ} (hne : key ≠ other) (value more : α) : ∀ {entries : List (κ × α)},
    key ∈ entries.map (·.1) →
      place other more (place key value entries) = place key value (place other more entries)
  | [], h => by simp at h
  | entry :: rest, h => by
    by_cases hkey : entry.1 = key
    · simp [place, hkey, hne]
    · have hrest : key ∈ rest.map (·.1) := by
        rcases List.mem_cons.1 h with heq | hmem
        · exact absurd heq.symm hkey
        · exact hmem
      by_cases hother : entry.1 = other
      · simp [place, hother, hne.symm]
      · simp [place, hkey, hother, place_comm hne value more hrest]

/-! ### Insertions one after the other -/

/-- Gives keys their values, one after the other. -/
def insertAll (table : Table κ α) (insertions : List (κ × α)) : Table κ α :=
  insertions.foldl (fun table entry => table.insert entry.1 entry.2) table

theorem insertAll_append (table : Table κ α) (first second : List (κ × α)) :
    table.insertAll (first ++ second) = (table.insertAll first).insertAll second :=
  List.foldl_append

theorem insertAll_concat (table : Table κ α) (insertions : List (κ × α)) (key : κ) (value : α) :
    table.insertAll (insertions ++ [(key, value)]) = (table.insertAll insertions).insert key value :=
  insertAll_append table insertions [(key, value)]

theorem keys_prefix_insertAll (insertions : List (κ × α)) : ∀ table : Table κ α,
    table.keys <+: (table.insertAll insertions).keys := by
  induction insertions with
  | nil => exact fun _ => List.prefix_rfl
  | cons entry rest ih => exact fun table => (table.keys_prefix_insert entry.1 entry.2).trans (ih _)

theorem nodup_keys_insertAll (insertions : List (κ × α)) : ∀ {table : Table κ α},
    table.keys.Nodup → (table.insertAll insertions).keys.Nodup := by
  induction insertions with
  | nil => exact fun h => h
  | cons entry rest ih => exact fun h => ih (nodup_keys_insert h entry.1 entry.2)

/-- The keys stand in the order in which they first came. -/
theorem keys_insertAll_empty [BEq κ] [LawfulBEq κ] (insertions : List (κ × α)) :
    ((empty : Table κ α).insertAll insertions).keys = (insertions.map (·.1)).eraseDups := by
  induction insertions using List.reverseRecOn with
  | nil => rfl
  | append_singleton earlier entry ih =>
    obtain ⟨key, value⟩ := entry
    rw [insertAll_concat, keys_insert, ih, List.map_append, List.eraseDups_append]
    by_cases h : key ∈ earlier.map (·.1)
    · simp [List.mem_eraseDups.2 h, List.removeAll, h]
    · simp [mt List.mem_eraseDups.1 h, List.removeAll, h, List.eraseDups_cons]

/-- The last value that came with a key. -/
def Latest (insertions : List (κ × α)) (key : κ) (value : α) : Prop :=
  ∃ earlier later, insertions = earlier ++ (key, value) :: later ∧ key ∉ later.map (·.1)

omit [DecidableEq κ] in
theorem latest_concat {insertions : List (κ × α)} {key other : κ} {value found : α} :
    Latest (insertions ++ [(key, value)]) other found ↔
      (other = key ∧ found = value) ∨ (other ≠ key ∧ Latest insertions other found) := by
  constructor
  · rintro ⟨earlier, later, heq, hlater⟩
    rcases List.eq_nil_or_concat later with rfl | ⟨start, last, rfl⟩
    · obtain ⟨-, hlast⟩ := List.append_inj' heq rfl
      simp only [List.cons.injEq, Prod.mk.injEq] at hlast
      exact Or.inl ⟨hlast.1.1.symm, hlast.1.2.symm⟩
    · rw [List.concat_eq_append] at heq hlater
      rw [← List.cons_append, ← List.append_assoc] at heq
      obtain ⟨hinsertions, hlast⟩ := List.append_inj' heq rfl
      cases hlast
      simp only [List.map_append, List.map_cons, List.map_nil, List.mem_append, List.mem_singleton,
        not_or] at hlater
      exact Or.inr ⟨hlater.2, earlier, start, hinsertions, hlater.1⟩
  · rintro (⟨rfl, rfl⟩ | ⟨hne, earlier, later, rfl, hlater⟩)
    · exact ⟨insertions, [], rfl, List.not_mem_nil⟩
    · exact ⟨earlier, later ++ [(key, value)], by simp, by simpa [hne] using hlater⟩

/-- A table holds the last value that came with each key. -/
theorem mem_entries_insertAll_empty (insertions : List (κ × α)) (key : κ) (value : α) :
    (key, value) ∈ ((empty : Table κ α).insertAll insertions).entries ↔ Latest insertions key value := by
  induction insertions using List.reverseRecOn with
  | nil =>
    constructor
    · intro h
      cases h
    · rintro ⟨earlier, later, heq, -⟩
      simp at heq
  | append_singleton earlier entry ih =>
    have hnodup : ((empty : Table κ α).insertAll earlier).keys.Nodup :=
      nodup_keys_insertAll earlier List.nodup_nil
    obtain ⟨other, more⟩ := entry
    rw [insertAll_concat, latest_concat, ← ih]
    exact mem_place hnodup

/-! ### The same insertions again -/

/-- A value given to a key that has its place is lost if the key comes again, and else may be given last. -/
theorem insertAll_insert {key : κ} (value : α) (insertions : List (κ × α)) : ∀ {table : Table κ α},
    key ∈ table.keys → (table.insert key value).insertAll insertions =
      if key ∈ insertions.map (·.1) then table.insertAll insertions
      else (table.insertAll insertions).insert key value := by
  induction insertions with
  | nil => simp [insertAll]
  | cons entry rest ih =>
    intro table hkey
    obtain ⟨other, more⟩ := entry
    by_cases hsame : key = other
    · subst hsame
      have hinsert : (table.insert key value).insert key more = table.insert key more :=
        congrArg Table.mk (place_place key more value table.entries)
      simp [insertAll, hinsert]
    · have hinsert : (table.insert key value).insert other more =
          (table.insert other more).insert key value :=
        congrArg Table.mk (place_comm hsame value more hkey)
      have hstays : key ∈ (table.insert other more).keys := mem_keys_insert.2 (Or.inl hkey)
      have hrest := ih hstays
      simp only [insertAll, List.foldl_cons, List.map_cons, List.mem_cons, hsame, false_or] at hrest ⊢
      rw [hinsert]
      exact hrest

theorem insertAll_insertAll (insertions : List (κ × α)) : ∀ table : Table κ α,
    (table.insertAll insertions).insertAll insertions = table.insertAll insertions := by
  induction insertions with
  | nil => exact fun _ => rfl
  | cons entry rest ih =>
    intro table
    obtain ⟨key, value⟩ := entry
    have hkey : key ∈ (table.insert key value).keys := mem_keys_insert.2 (Or.inr rfl)
    have hstays : key ∈ ((table.insert key value).insertAll rest).keys :=
      (keys_prefix_insertAll rest _).subset hkey
    -- the first insertion is repeated behind the others, where it changes nothing
    have hagain := insertAll_insert value rest hstays
    rw [ih] at hagain
    show (((table.insert key value).insertAll rest).insert key value).insertAll rest =
      (table.insert key value).insertAll rest
    rw [hagain]
    split
    · rfl
    · rename_i hnew
      have htwice : (table.insert key value).insert key value = table.insert key value :=
        congrArg Table.mk (place_place key value value table.entries)
      have hlast := insertAll_insert value rest hkey
      rw [htwice, if_neg hnew] at hlast
      exact hlast.symm

end LambdaArrow.Table
