import Mathlib.Data.List.Basic

/-!
# Texts with separators

A field that does not hold the separator ends where the separator first stands.
-/

namespace LocalModelWorks.Separator

open List

variable {α : Type} {c : α} {u v a b : List α}

theorem append_inj (hU : c ∉ u) (hV : c ∉ v) (h : u ++ c :: a = v ++ c :: b) : u = v ∧ a = b := by
  induction u generalizing v with
  | nil =>
    cases v with
    | nil => exact ⟨rfl, tail_eq_of_cons_eq h⟩
    | cons y v => exact absurd (head_eq_of_cons_eq h ▸ mem_cons_self) hV
  | cons x u ih =>
    cases v with
    | nil => exact absurd (head_eq_of_cons_eq h ▸ mem_cons_self) hU
    | cons y v =>
      obtain ⟨rfl, hTail⟩ := List.cons.inj h
      obtain ⟨rfl, hRest⟩ := ih (not_mem_of_not_mem_cons hU) (not_mem_of_not_mem_cons hV) hTail
      exact ⟨rfl, hRest⟩

end LocalModelWorks.Separator
