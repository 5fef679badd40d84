import Mathlib
import LambdaArrow.Table

/-! The keys of a table, seen as a set: looking a key up asks whether it is among them, and an insertion
    adds at most one. -/

namespace LambdaArrow.Table

variable {κ α : Type} [DecidableEq κ]

theorem isSome_lookup (key : κ) : ∀ entries : List (κ × α),
    (entries.lookup key).isSome ↔ key ∈ entries.map (·.1)
  | [] => by simp
  | (other, value) :: rest => by
    rw [List.lookup_cons, List.map_cons, List.mem_cons]
    by_cases h : key = other
    · simp [h]
    · have hbeq : (key == other) = false := beq_eq_false_iff_ne.2 h
      rw [hbeq, isSome_lookup key rest]
      exact ⟨Or.inr, fun hmem => hmem.resolve_left h⟩

theorem contains_iff (table : Table κ α) (key : κ) : table.contains key ↔ key ∈ table.keys :=
  isSome_lookup key table.entries

theorem mem_map_place (key other : κ) (value : α) : ∀ entries : List (κ × α),
    other ∈ (place key value entries).map (·.1) ↔ other ∈ entries.map (·.1) ∨ other = key
  | [] => by simp [place]
  | entry :: rest => by
    rw [place]
    split
    · rename_i h
      rw [List.map_cons, List.map_cons, List.mem_cons, List.mem_cons, h]
      exact ⟨fun hmem => hmem.elim Or.inr (Or.inl ∘ Or.inr),
        fun hmem => hmem.elim id Or.inl⟩
    · rw [List.map_cons, List.map_cons, List.mem_cons, List.mem_cons, mem_map_place key other value rest,
        or_assoc]

theorem mem_keys_insert {table : Table κ α} {key other : κ} {value : α} :
    other ∈ (table.insert key value).keys ↔ other ∈ table.keys ∨ other = key :=
  mem_map_place key other value table.entries

end LambdaArrow.Table
