import LambdaArrow.Proofs.Lines
import LambdaArrow.Sandbox.FileTree

/-! What writing a file does to a tree. A path is followed through folders only, and what is written to is
    no folder. So a path leads where it led before, and all that is changed is the file at its end:

        `out/p.js`     home ──▶ out ──▶ p.js      home and out are folders, before and after
                                        ↑ new bytes

    A sink takes the bytes and keeps nothing. What the tree refuses is the same before and after; a file that
    may be written but not read holds the bytes all the same. -/

namespace LambdaArrow

namespace Table

variable {κ α : Type} [DecidableEq κ]

theorem lookup_cons_of_ne {key other : κ} (h : other ≠ key) (value : α) (entries : List (κ × α)) :
    List.lookup other ((key, value) :: entries) = entries.lookup other := by
  rw [List.lookup_cons, beq_eq_false_iff_ne.2 h]

theorem lookup_place (key other : κ) (value : α) : ∀ entries : List (κ × α),
    (place key value entries).lookup other = if other = key then some value else entries.lookup other
  | [] => by
    rw [place]
    by_cases h : other = key
    · simp [h]
    · rw [lookup_cons_of_ne h, if_neg h]
  | (first, found) :: rest => by
    have ih := lookup_place key other value rest
    rw [place]
    split
    · rename_i hfirst
      cases hfirst
      by_cases h : other = first
      · simp [h]
      · rw [lookup_cons_of_ne h, lookup_cons_of_ne h, if_neg h]
    · rename_i hfirst
      by_cases h : other = first
      · cases h
        rw [if_neg hfirst, List.lookup_cons_self, List.lookup_cons_self]
      · rw [lookup_cons_of_ne h, lookup_cons_of_ne h, ih]

theorem find?_insert (table : Table κ α) (key other : κ) (value : α) :
    (table.insert key value).find? other = if other = key then some value else table.find? other :=
  lookup_place key other value table.entries

end Table

namespace Path

/-- The last name of a path that does not end with a slash is not empty. -/
theorem exists_names_eq {path : Text} (hne : path ≠ []) (hslash : path.getLast? ≠ some '/') :
    ∃ above name, names path = above ++ [name] ∧ name ≠ [] := by
  obtain ⟨above, name, hnames⟩ := (List.eq_nil_or_concat (names path)).resolve_left
    (List.splitOn_ne_nil _ _)
  rw [List.concat_eq_append] at hnames
  refine ⟨above, name, hnames, ?_⟩
  rintro rfl
  have hpath : ['/'].intercalate (above ++ [[]]) = path := by
    rw [← hnames]
    exact List.intercalate_splitOn '/'
  rcases List.eq_nil_or_concat above with rfl | ⟨others, last, rfl⟩
  · exact hne hpath.symm
  · rw [List.concat_eq_append, Text.intercalate_append '/' (List.cons_ne_nil _ _)] at hpath
    refine hslash ?_
    rw [← hpath]
    simp

end Path

namespace FileTree

variable {tree after : FileTree}

/-! ### Where paths lead -/

theorem follow_eq_ok_iff {location found : Location} {name : Text} :
    tree.follow location name = .ok found ↔
      tree.node? location = some .folder ∧ tree.refusal? .enter location = none ∧
        found = if Path.isHere name then location
          else if Path.isAbove name then location.dropLast
          else location ++ [name] := by
  unfold follow
  cases tree.node? location with
  | none => simp
  | some node =>
    cases node with
    | folder =>
      cases hrefusal : tree.refusal? .enter location with
      | none =>
        simp only [allow, hrefusal, bind, Except.bind, pure, Except.pure, Except.ok.injEq, true_and]
        exact eq_comm
      | some fault => simp [allow, hrefusal, bind, Except.bind]
    | file bytes => simp
    | sink => simp

/-- Where all folders stay and the same is refused, names are followed as before. -/
theorem foldlM_follow_mono
    (hfolders : ∀ location, tree.node? location = some .folder → after.node? location = some .folder)
    (hrefusal : after.refusal? = tree.refusal?) :
    ∀ {names : List Text} {location found : Location},
      names.foldlM tree.follow location = .ok found → names.foldlM after.follow location = .ok found
  | [], _, _, h => h
  | name :: rest, location, found, h => by
    rw [List.foldlM_cons] at h ⊢
    cases hnext : tree.follow location name with
    | error fault =>
      rw [hnext] at h
      cases h
    | ok next =>
      rw [hnext] at h
      obtain ⟨hfolder, hentered, heq⟩ := follow_eq_ok_iff.1 hnext
      rw [follow_eq_ok_iff.2 ⟨hfolders location hfolder, hrefusal ▸ hentered, heq⟩]
      exact foldlM_follow_mono hfolders hrefusal h

theorem locateFile_eq {path : Text} (hne : path ≠ []) (hslash : path.getLast? ≠ some '/') :
    tree.locateFile path = tree.locate path := by
  obtain ⟨above, name, hnames, hname⟩ := Path.exists_names_eq hne hslash
  have hlast : (Path.names path).reverse.dropWhile (· = []) = name :: above.reverse := by
    simp [hnames, hname]
  unfold locateFile
  rw [hlast, locate, hnames, List.foldlM_append]
  simp only [List.reverse_reverse, hslash, if_false, List.foldlM_cons, List.foldlM_nil]
  rfl

/-- The path of a file leads to the file. -/
theorem locate_of_locateFile {path : Text} {location : Location} (h : tree.locateFile path = .ok location) :
    tree.locate path = .ok location := by
  have hne : path ≠ [] := by
    rintro rfl
    cases h
  have hslash : path.getLast? ≠ some '/' := by
    intro hslash
    unfold locateFile at h
    split at h
    · cases h
    · rename_i name above hnames
      cases hfolder : above.reverse.foldlM tree.follow (tree.start path) with
      | error fault => simp [hfolder, bind, Except.bind] at h
      | ok folder =>
        cases hfollow : tree.follow folder name with
        | error fault => simp [hfolder, hfollow, bind, Except.bind] at h
        | ok found => simp [hfolder, hfollow, hslash, bind, Except.bind] at h
  rw [← locateFile_eq hne hslash, h]

/-! ### Writing -/

/-- The tree afterwards has the bytes in the file that the path leads to, which may be read there unless
    reading is refused, and is else as before; if the path leads to a sink, nothing is changed. -/
def Stores (before : FileTree) (path : Text) (bytes : ByteArray) (after : FileTree) : Prop :=
  ∃ location, before.locate path = .ok location ∧
    ((before.node? location = some .sink ∧ after = before) ∨
      (after.locate path = .ok location ∧ after.node? location = some (.file bytes) ∧
        (before.refusal? .read location = none → after.read path = .ok bytes) ∧
        after.home = before.home ∧ after.refusal? = before.refusal? ∧
        ∀ other, other ≠ location → after.node? other = before.node? other))

theorem node?_put (location other : Location) (node : Node) :
    (tree.put location node).node? other = if other = location then some node else tree.node? other :=
  Table.find?_insert tree.nodes location other node

/-- Where something is put in the place of no folder, paths are followed as before. -/
theorem locate_put {path : Text} {location : Location} (h : tree.locate path = .ok location)
    {place : Location} (hplace : tree.node? place ≠ some .folder) (node : Node) :
    (tree.put place node).locate path = .ok location := by
  have hfolders : ∀ other, tree.node? other = some .folder →
      (tree.put place node).node? other = some .folder := by
    intro other hother
    have hne : other ≠ place := by
      rintro rfl
      exact hplace hother
    rw [node?_put, if_neg hne]
    exact hother
  exact foldlM_follow_mono hfolders rfl h

theorem read_eq_ok {path : Text} {location : Location} {bytes : ByteArray}
    (h : tree.locate path = .ok location) (hnode : tree.node? location = some (.file bytes))
    (hread : tree.refusal? .read location = none) : tree.read path = .ok bytes := by
  simp [read, h, hnode, allow, hread, bind, Except.bind]

/-- What a tree that has taken bytes looks like: a folder does not take any, a sink is left alone, and a file
    or nothing gives way. -/
theorem of_write_eq_ok {path : Text} {bytes : ByteArray} (h : tree.write path bytes = .ok after) :
    ∃ location, tree.locateFile path = .ok location ∧
      ((tree.node? location = some .sink ∧ after = tree) ∨
        (tree.node? location ≠ some .folder ∧ after = tree.put location (.file bytes))) := by
  cases hfile : tree.locateFile path with
  | error fault => simp [write, hfile, bind, Except.bind] at h
  | ok location =>
    refine ⟨location, rfl, ?_⟩
    simp only [write, hfile, bind, Except.bind] at h
    split at h
    · cases h
    · rename_i hfolder
      cases hallow : tree.allow (.write bytes) location with
      | error fault =>
        rw [hallow] at h
        cases h
      | ok done =>
        rw [hallow] at h
        dsimp only at h
        split at h
        · rename_i hsink
          exact Or.inl ⟨hsink, (Except.ok.inj h).symm⟩
        · exact Or.inr ⟨hfolder, (Except.ok.inj h).symm⟩

theorem stores_of_write {path : Text} {bytes : ByteArray} (h : tree.write path bytes = .ok after) :
    tree.Stores path bytes after := by
  obtain ⟨location, hfile, hplace⟩ := of_write_eq_ok h
  have hlocate := locate_of_locateFile hfile
  refine ⟨location, hlocate, hplace.imp_right ?_⟩
  rintro ⟨hfolder, rfl⟩
  have hpath : (tree.put location (.file bytes)).locate path = .ok location := locate_put hlocate hfolder _
  have hheld : (tree.put location (.file bytes)).node? location = some (.file bytes) := by
    rw [node?_put, if_pos rfl]
  refine ⟨hpath, hheld, fun hread => read_eq_ok hpath hheld hread, rfl, rfl, fun other hother => ?_⟩
  rw [node?_put, if_neg hother]

end FileTree

end LambdaArrow
