import Mathlib.Data.List.Sort

/-!
# Finite maps in key order

A finite map is the list of its entries in the strict order of their keys, so that maps
with the same entries are the same list.
-/

namespace LocalModelWorks.KeyMap

open List

variable {κ α : Type} [LinearOrder κ]

def get (k : κ) : List (κ × α) → Option α
  | [] => none
  | (other, a) :: rest => if k = other then some a else get k rest

def put (k : κ) (a : α) : List (κ × α) → List (κ × α)
  | [] => [(k, a)]
  | (other, old) :: rest =>
    if k = other then (k, a) :: rest
    else if k < other then (k, a) :: (other, old) :: rest
    else (other, old) :: put k a rest

def erase (k : κ) : List (κ × α) → List (κ × α)
  | [] => []
  | (other, a) :: rest => if k = other then erase k rest else (other, a) :: erase k rest

def ofEntries (entries : List (κ × α)) : List (κ × α) := entries.foldl (fun m entry => put entry.1 entry.2 m) []

def Ordered (m : List (κ × α)) : Prop := m.Pairwise fun x y => x.1 < y.1

instance (m : List (κ × α)) : Decidable (Ordered m) := inferInstanceAs (Decidable (m.Pairwise _))

variable {k k' : κ} {a : α} {m n : List (κ × α)}

variable {entry : κ × α}

theorem ordered_cons : Ordered (entry :: m) ↔ (∀ x ∈ m, entry.1 < x.1) ∧ Ordered m := pairwise_cons

theorem mem_of_get (h : get k m = some a) : (k, a) ∈ m := by
  induction m with
  | nil => cases h
  | cons entry rest ih =>
    rw [get] at h
    split at h
    · cases h
      subst_vars
      exact mem_cons_self
    · exact mem_cons_of_mem _ (ih h)

theorem get_eq_none_iff : get k m = none ↔ ∀ x ∈ m, k ≠ x.1 := by
  induction m with
  | nil => simp [get]
  | cons entry rest ih =>
    rw [get]
    split
    · simp [*]
    · simp [*]

theorem get_of_nodup (hNodup : (m.map Prod.fst).Nodup) (h : (k, a) ∈ m) : get k m = some a := by
  induction m with
  | nil => cases h
  | cons entry rest ih =>
    obtain ⟨hFresh, hNodup⟩ := nodup_cons.mp hNodup
    rw [get]
    rcases mem_cons.mp h with hSame | hMem
    · cases hSame
      rw [if_pos rfl]
    · rw [if_neg fun hSame => hFresh (mem_map.mpr ⟨_, hMem, hSame⟩), ih hNodup hMem]

theorem nodup_of_ordered (h : Ordered m) : (m.map Prod.fst).Nodup := (pairwise_map.mpr h).imp ne_of_lt

theorem get_put : get k' (put k a m) = if k' = k then some a else get k' m := by
  induction m with
  | nil => rfl
  | cons entry rest ih =>
    obtain ⟨other, old⟩ := entry
    rw [put]
    split
    · subst_vars
      rw [get, get]
      split
      · rfl
      · rfl
    split
    · rw [get]
    rename_i hOther _
    rw [get, ih, get]
    by_cases hKey : k' = other
    · subst hKey
      rw [if_pos rfl, if_neg (Ne.symm hOther), if_pos rfl]
    · rw [if_neg hKey, if_neg hKey]

theorem get_erase : get k' (erase k m) = if k' = k then none else get k' m := by
  induction m with
  | nil => simp [erase, get]
  | cons entry rest ih =>
    obtain ⟨other, old⟩ := entry
    rw [erase]
    split
    · subst_vars
      rw [ih, get]
      split
      · rfl
      · rfl
    next hOther =>
      rw [get, ih, get]
      by_cases hKey : k' = other
      · subst hKey
        rw [if_pos rfl, if_neg (Ne.symm hOther), if_pos rfl]
      · rw [if_neg hKey, if_neg hKey]

theorem mem_put (h : entry ∈ put k a m) : entry = (k, a) ∨ entry ∈ m := by
  induction m with
  | nil => exact .inl (mem_singleton.mp h)
  | cons head rest ih =>
    rw [put] at h
    split at h
    · exact (mem_cons.mp h).imp_right (mem_cons_of_mem _)
    split at h
    · exact mem_cons.mp h
    rcases mem_cons.mp h with rfl | hRest
    · exact .inr mem_cons_self
    · exact (ih hRest).imp_right (mem_cons_of_mem _)

theorem mem_erase (h : entry ∈ erase k m) : entry ∈ m := by
  induction m with
  | nil => cases h
  | cons head rest ih =>
    rw [erase] at h
    split at h
    · exact mem_cons_of_mem _ (ih h)
    rcases mem_cons.mp h with rfl | hRest
    · exact mem_cons_self
    · exact mem_cons_of_mem _ (ih hRest)

theorem ordered_put (h : Ordered m) : Ordered (put k a m) := by
  induction m with
  | nil => exact pairwise_singleton _ _
  | cons head rest ih =>
    obtain ⟨hHead, hRest⟩ := ordered_cons.mp h
    rw [put]
    split
    · subst_vars
      exact ordered_cons.mpr ⟨hHead, hRest⟩
    next hOther =>
      split
      next hLess =>
        refine ordered_cons.mpr ⟨?_, h⟩
        exact forall_mem_cons.mpr ⟨hLess, fun x hx => lt_trans hLess (hHead x hx)⟩
      next hNotLess =>
        refine ordered_cons.mpr ⟨?_, ih hRest⟩
        intro x hx
        rcases mem_put hx with rfl | hMem
        · exact lt_of_le_of_ne (not_lt.mp hNotLess) (Ne.symm hOther)
        · exact hHead x hMem

theorem ordered_erase (h : Ordered m) : Ordered (erase k m) := by
  induction m with
  | nil => exact h
  | cons head rest ih =>
    obtain ⟨hHead, hRest⟩ := ordered_cons.mp h
    rw [erase]
    split
    · exact ih hRest
    · exact ordered_cons.mpr ⟨fun x hx => hHead x (mem_erase hx), ih hRest⟩

theorem get_head_tail (h : Ordered (entry :: m)) : get entry.1 m = none :=
  get_eq_none_iff.mpr fun x hx => ne_of_lt ((ordered_cons.mp h).1 x hx)

theorem ext (hm : Ordered m) (hn : Ordered n) (h : ∀ k, get k m = get k n) : m = n := by
  induction m generalizing n with
  | nil =>
    cases n with
    | nil => rfl
    | cons entry rest =>
      have hGet := h entry.1
      simp [get] at hGet
  | cons head tail ih =>
    cases n with
    | nil =>
      have hGet := h head.1
      simp [get] at hGet
    | cons head' tail' =>
      obtain ⟨k, a⟩ := head
      obtain ⟨k', a'⟩ := head'
      have hLeft : (k', a') ∈ (k, a) :: tail := mem_of_get ((h k').trans (by simp [get]))
      have hRight : (k, a) ∈ (k', a') :: tail' := mem_of_get ((h k).symm.trans (by simp [get]))
      have hHead : (k, a) = (k', a') := by
        rcases mem_cons.mp hLeft with hSame | hTail
        · exact hSame.symm
        rcases mem_cons.mp hRight with hSame | hTail'
        · exact hSame
        · exact absurd ((ordered_cons.mp hm).1 _ hTail) (lt_asymm ((ordered_cons.mp hn).1 _ hTail'))
      cases hHead
      have hTail : ∀ q, get q tail = get q tail' := by
        intro q
        by_cases hq : q = k
        · subst hq
          exact (get_head_tail hm).trans (get_head_tail hn).symm
        · simpa [get, hq] using h q
      rw [ih (ordered_cons.mp hm).2 (ordered_cons.mp hn).2 hTail]

theorem put_last (h : ∀ x ∈ m, x.1 < k) : put k a m = m ++ [(k, a)] := by
  induction m with
  | nil => rfl
  | cons head rest ih =>
    obtain ⟨hHead, hRest⟩ := forall_mem_cons.mp h
    rw [put, if_neg (ne_of_gt hHead), if_neg (lt_asymm hHead), ih hRest, cons_append]

theorem ofEntries_ordered (h : Ordered m) : ofEntries m = m := by
  have hFold : ∀ (entries before : List (κ × α)), Ordered (before ++ entries) →
      entries.foldl (fun m entry => put entry.1 entry.2 m) before = before ++ entries := by
    intro entries
    induction entries with
    | nil => simp
    | cons entry rest ih =>
      intro before hAll
      have hLast : ∀ x ∈ before, x.1 < entry.1 := fun x hx => (pairwise_append.mp hAll).2.2 x hx entry mem_cons_self
      rw [foldl_cons, put_last hLast, ih _ (by simpa using hAll), append_assoc, singleton_append]
  exact hFold m [] h

theorem get_ofEntries {entries : List (κ × α)} (hOne : ∀ x ∈ entries, ∀ y ∈ entries, x.1 = y.1 → x = y) :
    get k (ofEntries entries) = some a ↔ (k, a) ∈ entries := by
  have hFold : ∀ m : List (κ × α), get k (entries.foldl (fun m entry => put entry.1 entry.2 m) m) = some a ↔
      (k, a) ∈ entries ∨ (∀ x ∈ entries, k ≠ x.1) ∧ get k m = some a := by
    induction entries with
    | nil => simp
    | cons entry rest ih =>
      intro m
      obtain ⟨key, value⟩ := entry
      rw [foldl_cons, ih fun x hx y hy => hOne x (.tail _ hx) y (.tail _ hy), get_put]
      by_cases hKey : k = key
      · subst hKey
        rw [if_pos rfl]
        constructor
        · rintro (hMem | ⟨_, hValue⟩)
          · exact .inl (.tail _ hMem)
          · cases hValue
            exact .inl (.head _)
        rintro (hMem | ⟨hNone, _⟩)
        · by_cases hRest : (k, a) ∈ rest
          · exact .inl hRest
          cases (mem_cons.mp hMem).resolve_right hRest
          refine .inr ⟨fun x hx hSame => hRest ?_, rfl⟩
          exact hOne x (.tail _ hx) _ (.head _) hSame.symm ▸ hx
        · exact absurd rfl (hNone _ (.head _))
      · simp [hKey]
  simpa [get, ofEntries] using hFold []

theorem ordered_ofEntries (entries : List (κ × α)) : Ordered (ofEntries entries) :=
  foldlRecOn (motive := Ordered) entries _ Pairwise.nil fun _ h _ _ => ordered_put h

theorem mem_of_get_ofEntries (h : get k (ofEntries m) = some a) : (k, a) ∈ m := by
  refine foldlRecOn (motive := fun n => ∀ e ∈ n, e ∈ m) m _ (forall_mem_nil _) (fun n hn entry hEntry x hx => ?_) _
    (mem_of_get h)
  rcases mem_put hx with rfl | hOld
  · exact hEntry
  · exact hn x hOld

variable {β : Type}

theorem get_map (f : κ → α → β) (m : List (κ × α)) : get k (m.map fun e => (e.1, f e.1 e.2)) = (get k m).map (f k) := by
  induction m with
  | nil => rfl
  | cons entry rest ih =>
    rw [map_cons, get, get]
    split
    next hKey => exact hKey ▸ rfl
    · exact ih

theorem ofEntries_map (f : α → β) (entries : List (κ × α)) :
    ofEntries (entries.map fun e => (e.1, f e.2)) = (ofEntries entries).map fun e => (e.1, f e.2) := by
  rw [ofEntries, foldl_map]
  change foldl _ (map (fun e : κ × α => (e.1, f e.2)) []) entries = _
  refine foldl_hom _ fun m entry => ?_
  induction m with
  | nil => rfl
  | cons head rest ih =>
    simp only [map_cons, put]
    split
    · rfl
    split
    · rfl
    · exact congrArg _ ih

end LocalModelWorks.KeyMap
