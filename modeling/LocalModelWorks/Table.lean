import Mathlib.Data.List.Basic

/-!
# Lookup by key in a list of rows

A table is the list of its rows and a key finds the first row that has it.
-/

namespace LocalModelWorks.Table

universe u v

variable {α : Type u} {κ : Type v} [DecidableEq κ]

def lookup (key : α → κ) (rows : List α) (k : κ) : Option α := rows.find? fun row => key row = k

variable {key : α → κ} {rows : List α} {k : κ} {row : α}

theorem key_of_lookup (h : lookup key rows k = some row) : key row = k := by
  simpa using List.find?_some h

theorem mem_of_lookup (h : lookup key rows k = some row) : row ∈ rows := List.mem_of_find?_eq_some h

theorem lookup_cons : lookup key (row :: rows) k = if key row = k then some row else lookup key rows k := by
  unfold lookup
  by_cases h : key row = k
  · simp [h]
  · simp [h]

theorem lookup_append (more : List α) : lookup key (rows ++ more) k = (lookup key rows k).or (lookup key more k) :=
  List.find?_append

theorem lookup_of_mem (hKeys : (rows.map key).Nodup) (hMem : row ∈ rows) : lookup key rows (key row) = some row := by
  induction rows with
  | nil => cases hMem
  | cons head rows ih =>
    obtain ⟨hHead, hKeys⟩ := List.nodup_cons.mp hKeys
    rw [lookup_cons]
    rcases List.mem_cons.mp hMem with rfl | hMem
    · rw [if_pos rfl]
    have hNe : key head ≠ key row := fun h => hHead (h ▸ List.mem_map_of_mem hMem)
    rw [if_neg hNe]
    exact ih hKeys hMem

theorem lookup_map {f : α → α} (hKey : ∀ row, key (f row) = key row) :
    lookup key (rows.map f) k = (lookup key rows k).map f := by
  induction rows with
  | nil => rfl
  | cons row rows ih =>
    rw [List.map_cons, lookup_cons, lookup_cons, hKey]
    split
    · rfl
    · exact ih

theorem lookup_filter {keep : α → Bool} (hKeep : ∀ row, key row = k → keep row = true) :
    lookup key (rows.filter keep) k = lookup key rows k := by
  induction rows with
  | nil => rfl
  | cons row rows ih =>
    rw [List.filter_cons, lookup_cons]
    by_cases hKey : key row = k
    · rw [if_pos (hKeep row hKey), lookup_cons, if_pos hKey, if_pos hKey]
    split
    · rw [lookup_cons, if_neg hKey, ih]
    · exact ih

end LocalModelWorks.Table
