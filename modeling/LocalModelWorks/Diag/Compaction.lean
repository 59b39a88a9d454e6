import Mathlib.Data.List.Induction
import LocalModelWorks.Diag

/-!
# Compacting diagnostics in place

`Compact` and `Upsert` write into the array of the slice that they read.
-/

namespace LocalModelWorks.Diag

open List
open Diagnostic (keyOf)

/-- The backing array and how many of its cells the slice shows. What `append` does is the same to a reader of the
slice whether or not the array had room. -/
structure Slice where
  cells : Nat → Diagnostic
  len : Nat

namespace Slice

variable (s : Slice) (d : Diagnostic) (i : Nat)

def toList : List Diagnostic := (range s.len).map s.cells

def set : Slice := { s with cells := Function.update s.cells i d }

def append : Slice := ⟨Function.update s.cells s.len d, s.len + 1⟩

structure Loop where
  compacted : Slice
  positions : String × String → Option Nat

/-- The range reads a cell when it comes to it, from the array that `compacted` shares. -/
def compactStep (loop : Loop) : Loop :=
  let d := loop.compacted.cells i
  match loop.positions d.keyOf with
  | some position => { loop with compacted := loop.compacted.set d position }
  | none => ⟨loop.compacted.append d, Function.update loop.positions d.keyOf (some loop.compacted.len)⟩

def compactLoop : Nat → Loop
  | 0 => ⟨⟨s.cells, 0⟩, fun _ => none⟩
  | i + 1 => compactStep i (compactLoop i)

def compact : Slice := (s.compactLoop s.len).compacted

def upsert : Slice :=
  match s.compact.toList.findIdx? fun e => e.keyOf = d.keyOf with
  | some i => s.compact.set d i
  | none => s.compact.append d

end Slice

variable (d : Diagnostic) (l : List Diagnostic)

theorem put_eq : put d l =
    match l.findIdx? fun e => e.keyOf = d.keyOf with
    | some i => l.set i d
    | none => l ++ [d] := by
  induction l with
  | nil => rfl
  | cons e rest ih =>
    rw [put, findIdx?_cons]
    by_cases hKey : e.keyOf = d.keyOf
    · simp [hKey]
    · rw [if_neg hKey, ih]
      cases hFind : rest.findIdx? fun e => e.keyOf = d.keyOf <;> simp [hKey]

theorem keys_put : (put d l).map keyOf = if d.keyOf ∈ l.map keyOf then l.map keyOf else l.map keyOf ++ [d.keyOf] := by
  induction l with
  | nil => rfl
  | cons e rest ih =>
    rw [put]
    by_cases hKey : e.keyOf = d.keyOf
    · simp [hKey]
    · rw [if_neg hKey, map_cons, ih]
      simp only [map_cons, mem_cons, Ne.symm hKey, false_or]
      split <;> rfl

theorem find_put (k : String × String) : (put d l).find? (fun e => e.keyOf = k) =
    if d.keyOf = k then some d else l.find? fun e => e.keyOf = k := by
  induction l with
  | nil => by_cases hk : d.keyOf = k <;> simp [put, hk]
  | cons e rest ih =>
    rw [put]
    by_cases hKey : e.keyOf = d.keyOf
    · by_cases hk : d.keyOf = k <;> simp [hKey, hk]
    rw [if_neg hKey]
    by_cases hk : e.keyOf = k
    · subst hk
      simp [Ne.symm hKey]
    · simp [hk, ih]

theorem compact_concat : compact (l ++ [d]) = put d (compact l) := by
  rw [compact, foldl_append]
  rfl

theorem nodup_compact : ((compact l).map keyOf).Nodup := by
  induction l using reverseRecOn with
  | nil => exact nodup_nil
  | append_singleton l d ih =>
    rw [compact_concat, keys_put]
    split
    · exact ih
    · refine nodup_append.mpr ⟨ih, by simp, fun k hk k' hk' hSame => ‹¬ _› ?_⟩
      rwa [← mem_singleton.mp hk', ← hSame]

theorem keys_compact : (compact l).map keyOf = (l.map keyOf).eraseDups := by
  induction l using reverseRecOn with
  | nil => rfl
  | append_singleton l d ih =>
    rw [compact_concat, keys_put, ih, map_append, eraseDups_append]
    by_cases hMem : d.keyOf ∈ l.map keyOf
    · simp [hMem, cons_removeAll]
    · simp [hMem, cons_removeAll, eraseDups_cons]

theorem find_compact (k : String × String) :
    (compact l).find? (fun e => e.keyOf = k) = l.reverse.find? fun e => e.keyOf = k := by
  induction l using reverseRecOn with
  | nil => rfl
  | append_singleton l d ih =>
    rw [compact_concat, find_put, ih, reverse_append, reverse_singleton, singleton_append, find?_cons]
    split <;> simp [*]

variable {d l}

theorem compact_of_nodup (h : (l.map keyOf).Nodup) : compact l = l := by
  induction l using reverseRecOn with
  | nil => rfl
  | append_singleton l d ih =>
    rw [map_append, nodup_append] at h
    rw [compact_concat, ih h.1, put_eq, findIdx?_eq_none_iff.mpr]
    intro e he
    simpa using h.2.2 _ (mem_map_of_mem he) d.keyOf (by simp)

namespace Slice

variable (s : Slice) (d : Diagnostic)

theorem toList_set (i : Nat) : (s.set d i).toList = s.toList.set i d := by
  refine ext_getElem (by simp [toList, set]) fun j _ _ => ?_
  simp [toList, set, getElem_set, Function.update_apply, eq_comm]

theorem toList_append : (s.append d).toList = s.toList ++ [d] := by
  have hFront : (range s.len).map (Function.update s.cells s.len d) = s.toList :=
    map_congr_left fun j hj => Function.update_of_ne (Nat.ne_of_lt (mem_range.mp hj)) _ _
  simp [toList, append, range_succ, hFront]

/-- The cells before `i` are compacted in the front of the array, and those from `i` on are as they were. -/
structure Compacting (i : Nat) (loop : Loop) : Prop where
  shown : loop.compacted.toList = Diag.compact ((range i).map s.cells)
  behind : loop.compacted.len ≤ i
  rest : ∀ j, i ≤ j → loop.compacted.cells j = s.cells j
  positions : ∀ k, loop.positions k = (loop.compacted.toList.map keyOf).findIdx? (· = k)

variable {s d}

theorem Compacting.step {i : Nat} {loop : Loop} (h : s.Compacting i loop) :
    s.Compacting (i + 1) (compactStep i loop) := by
  have hMore : put (s.cells i) loop.compacted.toList = Diag.compact ((range (i + 1)).map s.cells) := by
    rw [h.shown, ← compact_concat, range_succ, map_append]
    rfl
  have hFound := (h.positions (s.cells i).keyOf).trans findIdx?_map
  have hKeys := keys_put (s.cells i) loop.compacted.toList
  have hMem := @findIdx?_isSome _ (loop.compacted.toList.map keyOf) (· = (s.cells i).keyOf)
  rw [← h.positions] at hMem
  have hBehind := h.behind
  unfold compactStep
  rw [h.rest i (Nat.le_refl i)]
  dsimp only
  cases hPos : loop.positions (s.cells i).keyOf with
  | some position =>
    rw [hPos] at hFound hMem
    have hShown : (loop.compacted.set (s.cells i) position).toList = put (s.cells i) loop.compacted.toList := by
      rw [put_eq, toList_set]
      exact hFound ▸ rfl
    have hLess := (findIdx?_eq_some_iff_findIdx_eq.mp hFound.symm).1
    rw [toList, length_map, length_range] at hLess
    refine ⟨hShown.trans hMore, Nat.le_succ_of_le hBehind, fun j hj => ?_, fun k => ?_⟩
    · exact (Function.update_of_ne (by omega) _ _).trans (h.rest j (Nat.le_of_succ_le hj))
    · rw [hShown, hKeys, if_pos (by simpa using hMem), h.positions]
  | none =>
    rw [hPos] at hFound hMem
    have hShown : (loop.compacted.append (s.cells i)).toList = put (s.cells i) loop.compacted.toList := by
      rw [put_eq, toList_append]
      exact hFound ▸ rfl
    refine ⟨hShown.trans hMore, Nat.succ_le_succ hBehind, fun j hj => ?_, fun k => ?_⟩
    · exact (Function.update_of_ne (by omega) _ _).trans (h.rest j (Nat.le_of_succ_le hj))
    rw [hShown, hKeys, if_neg (by simpa using hMem), findIdx?_append, ← h.positions]
    by_cases hKey : k = (s.cells i).keyOf
    · simp [hKey, hPos, findIdx?_cons, toList]
    · simp [hKey, Ne.symm hKey, findIdx?_cons]

variable (s d)

theorem compacting_loop : ∀ i, s.Compacting i (s.compactLoop i)
  | 0 => ⟨rfl, Nat.le_refl 0, fun _ _ => rfl, fun _ => rfl⟩
  | i + 1 => (compacting_loop i).step

theorem toList_compact : s.compact.toList = Diag.compact s.toList := (compacting_loop s s.len).shown

theorem toList_upsert : (s.upsert d).toList = put d (Diag.compact s.toList) := by
  unfold upsert
  rw [put_eq, toList_compact]
  split <;> simp [toList_set, toList_append, toList_compact, *]

end Slice

/-- Upserting one diagnostic after the other is compacting them all: every key once, where it was first given and with
the value that was given last. -/
theorem fold_upsert_compact (initial : Slice) (given : List Diagnostic) :
    let result := (given.foldl Slice.upsert initial.compact).toList
    let all := initial.toList ++ given
    (∀ whole : Slice, whole.toList = all → whole.compact.toList = result) ∧ (result.map keyOf).Nodup ∧
      result.map keyOf = (all.map keyOf).eraseDups ∧
      ∀ k, result.find? (fun d => d.keyOf = k) = all.reverse.find? fun d => d.keyOf = k := by
  intro result all
  have hResult : result = compact all := by
    change (given.foldl Slice.upsert initial.compact).toList = compact (initial.toList ++ given)
    induction given using List.reverseRecOn with
    | nil => rw [append_nil, foldl_nil, Slice.toList_compact]
    | append_singleton given d ih =>
      rw [foldl_append, ← append_assoc, compact_concat, foldl_cons, foldl_nil, Slice.toList_upsert, ih,
        compact_of_nodup (nodup_compact _)]
  rw [hResult]
  refine ⟨fun whole hWhole => ?_, nodup_compact all, keys_compact all, find_compact all⟩
  rw [Slice.toList_compact, hWhole]

end LocalModelWorks.Diag
