import Mathlib.Data.List.Sort
import Mathlib.Data.Prod.Lex

/-!
# Listing by a cursor

The rows of a table are listed in pages by falling key, and the cursor of a page is the key
of its last row.
-/

namespace LocalModelWorks.Keyset

open List

variable {α κ : Type}

/-- The pages from a cursor on, until one comes without a cursor. -/
def follow (page : Option κ → Option (List α × Option κ)) : Nat → Option κ → Option (List α)
  | 0, _ => none
  | fuel + 1, cursor =>
    match page cursor with
    | none => none
    | some (items, none) => some items
    | some (items, some next) => (follow page fuel (some next)).map (items ++ ·)

/-- No key stands on both sides of a page break. -/
def Clear (size : Nat) (keys : List κ) : Prop := ∀ n, (keys.take (n * size)).Disjoint (keys.drop (n * size))

variable {size spare fuel : Nat}

theorem clear_of_length_le {keys : List κ} (h : keys.length ≤ size) : Clear size keys := by
  intro n
  cases n with
  | zero => simp
  | succ n =>
    rw [drop_eq_nil_of_le (h.trans (Nat.le_mul_of_pos_left size n.succ_pos))]
    exact disjoint_nil_right _

theorem clear_append {first rest : List κ} (hSize : first.length = size) :
    Clear size (first ++ rest) ↔ first.Disjoint rest ∧ Clear size rest := by
  have hSplit n : ((first ++ rest).take ((n + 1) * size)).Disjoint ((first ++ rest).drop ((n + 1) * size)) ↔
      first.Disjoint (rest.drop (n * size)) ∧ (rest.take (n * size)).Disjoint (rest.drop (n * size)) := by
    rw [Nat.succ_mul, Nat.add_comm, ← hSize, take_length_add_append, drop_length_add_append, disjoint_append_left]
  constructor
  · intro h
    refine ⟨?_, fun n => ((hSplit n).mp (h (n + 1))).2⟩
    simpa using ((hSplit 0).mp (h 1)).1
  rintro ⟨hFirst, hRest⟩ n
  cases n with
  | zero => simp
  | succ n => exact (hSplit n).mpr ⟨disjoint_of_subset_right (drop_subset _ _) hFirst, hRest n⟩

/-- Cursors may be handed out in another form. -/
theorem follow_encoded {γ : Type} {page : Option κ → Option (List α × Option κ)}
    {encoded : Option γ → Option (List α × Option γ)} (encode : κ → γ)
    (h : ∀ cursor, encoded (cursor.map encode) = (page cursor).map fun p => (p.1, p.2.map encode)) (fuel : Nat)
    (cursor : Option κ) : follow encoded fuel (cursor.map encode) = follow page fuel cursor := by
  induction fuel generalizing cursor with
  | zero => rfl
  | succ fuel ih =>
    rw [follow, follow, h]
    rcases page cursor with _ | ⟨items, _ | next⟩
    · rfl
    · rfl
    · exact congrArg (Option.map (items ++ ·)) (ih (some next))

variable [LinearOrder κ] {key : α → κ}

structure Exact (key : α → κ) (rows items : List α) : Prop where
  perm : items.Perm rows
  sorted : items.Pairwise fun a b => key b ≤ key a

/-- A query may return the rows of equal keys in any order. -/
structure Engine (key : α → κ) where
  order : List α → List α
  exact : ∀ rows, Exact key rows (order rows)

/-- Rows of equal keys in the order of the table. -/
def Engine.stable (key : α → κ) : Engine key where
  order rows := rows.mergeSort fun a b => key b ≤ key a
  exact rows := by
    refine ⟨mergeSort_perm .., ?_⟩
    have h := @pairwise_mergeSort _ (fun a b => decide (key b ≤ key a)) ?_ ?_ rows
    · simpa using h
    · simpa using fun a b c hab hbc => le_trans hbc hab
    · simpa using fun a b => le_total (key b) (key a)

def after (key : α → κ) (rows : List α) (cursor : Option κ) : List α :=
  rows.filter fun row => cursor.all (key row < ·)

/-- The first `size` rows, with a cursor if there were at least `size + spare`. -/
def page (E : Engine key) (rows : List α) (size spare : Nat) (cursor : Option κ) : Option (List α × Option κ) :=
  let found := E.order (after key rows cursor)
  some (found.take size, if size + spare ≤ found.length then found[size - 1]?.map key else none)

def sortedKeys (key : α → κ) (rows : List α) : List κ := (rows.map key).insertionSort (· ≥ ·)

theorem sortedKeys_eq {rows items : List α} (h : Exact key rows items) : sortedKeys key rows = items.map key := by
  have hPerm : (sortedKeys key rows).Perm (items.map key) :=
    (perm_insertionSort _ _).trans (h.perm.map key).symm
  exact hPerm.eq_of_pairwise (fun a b _ _ hab hba => le_antisymm hba hab) (pairwise_insertionSort _ _)
    (pairwise_map.mpr h.sorted)

variable (E : Engine key) {rows : List α}

theorem page_cases (hSize : 0 < size) (hSpare : spare ≤ 1) (cursor : Option κ) :
    (page E rows size spare cursor = some (E.order (after key rows cursor), none) ∧
      (E.order (after key rows cursor)).length ≤ size) ∨
    ∃ first rest, ∃ a ∈ first, E.order (after key rows cursor) = first ++ rest ∧ first.length = size ∧
      (∀ b ∈ first, key a ≤ key b) ∧ page E rows size spare cursor = some (first, some (key a)) := by
  have hSort := (E.exact (after key rows cursor)).sorted
  rw [page]
  generalize E.order (after key rows cursor) = found at hSort ⊢
  split
  · have hLt : size - 1 < found.length := by omega
    have hTake : found.take size = found.take (size - 1) ++ [found[size - 1]] := by
      rw [← take_succ_eq_append_getElem hLt, Nat.sub_add_cancel hSize]
    have hPage := hSort.sublist (take_sublist size found)
    rw [hTake] at hPage
    refine .inr ⟨found.take size, found.drop size, found[size - 1], hTake ▸ mem_concat_self,
      (take_append_drop ..).symm, length_take_of_le (by omega), fun b hb => ?_, ?_⟩
    · rw [hTake] at hb
      rcases mem_append.mp hb with hFront | hLast
      · exact (pairwise_append.mp hPage).2.2 b hFront _ (mem_singleton_self _)
      · exact (congrArg key (mem_singleton.mp hLast)).ge
    · rw [getElem?_eq_getElem hLt]
      rfl
  have hLe : found.length ≤ size := by omega
  rw [take_of_length_le hLe]
  exact .inl ⟨rfl, hLe⟩

theorem mem_after {cursor : Option κ} {row : α} :
    row ∈ after key rows cursor ↔ row ∈ rows ∧ ∀ c ∈ cursor, key row < c := by
  cases cursor <;> simp [after]

variable {cursor : Option κ} {first rest items : List α} {a : α}

/-- The next page starts from the rows behind the page, less those of its last key. -/
theorem after_key (h : Exact key (after key rows cursor) (first ++ rest)) (ha : a ∈ first)
    (hLast : ∀ b ∈ first, key a ≤ key b) : (after key rows (some (key a))).Perm (rest.filter (key · < key a)) := by
  have hCursor := (mem_after.mp (h.perm.subset (mem_append_left rest ha))).2
  have hInner : after key rows (some (key a)) = (after key rows cursor).filter (key · < key a) := by
    rw [after, after, filter_filter]
    refine filter_congr fun b _ => ?_
    cases cursor with
    | none => simp
    | some c => simpa using fun hLt => hLt.trans (hCursor c rfl)
  have hFirst : first.filter (key · < key a) = [] :=
    filter_eq_nil_iff.mpr fun b hb => by simpa using hLast b hb
  have hFilter := h.perm.symm.filter (key · < key a)
  rw [filter_append, hFirst] at hFilter
  exact hInner ▸ hFilter

theorem mem_of_follow (hSize : 0 < size) (hSpare : spare ≤ 1)
    (h : follow (page E rows size spare) fuel cursor = some items) : ∀ b ∈ items, b ∈ after key rows cursor := by
  induction fuel generalizing cursor items with
  | zero => cases h
  | succ fuel ih =>
    have hExact := E.exact (after key rows cursor)
    rcases page_cases E hSize hSpare cursor with ⟨hPage, _⟩ | ⟨first, rest, a, ha, hFound, _, hLast, hPage⟩
    · rw [follow, hPage] at h
      cases h
      exact fun b hb => hExact.perm.subset hb
    rw [follow, hPage] at h
    obtain ⟨later, hLater, rfl⟩ := Option.map_eq_some_iff.mp h
    rw [hFound] at hExact
    intro b hb
    refine hExact.perm.subset ((mem_append.mp hb).elim (mem_append_left rest) fun hb => ?_)
    have hRest := (after_key hExact ha hLast).subset (ih hLater b hb)
    exact mem_append_right first (mem_of_mem_filter hRest)

variable (rows) in
/-- Following the cursors lists every row once and in order exactly if no page ends between equal keys. -/
theorem follow_exact_iff (hSize : 0 < size) (hSpare : spare ≤ 1) (cursor : Option κ) :
    (∃ fuel items, follow (page E rows size spare) fuel cursor = some items ∧
      Exact key (after key rows cursor) items) ↔ Clear size (sortedKeys key (after key rows cursor)) := by
  induction hLen : (after key rows cursor).length using Nat.strong_induction_on generalizing cursor with
  | _ n ih =>
    have hExact := E.exact (after key rows cursor)
    rw [sortedKeys_eq hExact]
    rcases page_cases E hSize hSpare cursor with ⟨hPage, hShort⟩ | ⟨first, rest, a, ha, hFound, hFirst, hLast, hPage⟩
    · exact iff_of_true ⟨1, _, by rw [follow, hPage], hExact⟩ (clear_of_length_le (by rwa [length_map]))
    rw [hFound] at hExact ⊢
    obtain ⟨-, hSort, hAcross⟩ := pairwise_append.mp hExact.sorted
    have hNext := after_key hExact ha hLast
    have hShorter : (after key rows (some (key a))).length < n := by
      rw [← hLen, ← hExact.perm.length_eq, hNext.length_eq, length_append]
      have := length_filter_le (key · < key a) rest
      omega
    have hInner := ih _ hShorter (some (key a)) rfl
    rw [map_append, clear_append (by rwa [length_map])]
    -- with no tie behind the page, its rest is what the next page starts from
    have hRest (hAll : ∀ b ∈ rest, key b < key a) : Exact key (after key rows (some (key a))) rest := by
      rw [filter_eq_self.mpr fun b hb => decide_eq_true (hAll b hb)] at hNext
      exact ⟨hNext.symm, hSort⟩
    constructor
    · rintro ⟨fuel, items, hFollow, hItems⟩
      cases fuel with
      | zero => cases hFollow
      | succ fuel =>
        rw [follow, hPage] at hFollow
        obtain ⟨later, hLater, rfl⟩ := Option.map_eq_some_iff.mp hFollow
        have hSame := (perm_append_left_iff _).mp (hItems.perm.trans hExact.perm.symm)
        have hAll : ∀ b ∈ rest, key b < key a := fun b hb =>
          (mem_after.mp (mem_of_follow E hSize hSpare hLater b (hSame.symm.subset hb))).2 _ rfl
        refine ⟨fun c hc hc' => ?_, sortedKeys_eq (hRest hAll) ▸ hInner.mp ⟨fuel, later, hLater, ?_⟩⟩
        · obtain ⟨x, hx, rfl⟩ := mem_map.mp hc
          obtain ⟨b, hb, hEq⟩ := mem_map.mp hc'
          exact absurd hEq ((hAll b hb).trans_le (hLast x hx)).ne
        · exact ⟨hSame.trans (hRest hAll).perm, (pairwise_append.mp hItems.sorted).2.1⟩
    rintro ⟨hApart, hClear⟩
    have hAll : ∀ b ∈ rest, key b < key a := fun b hb =>
      (hAcross a ha b hb).lt_of_ne fun hEq => hApart (mem_map_of_mem ha) (hEq ▸ mem_map_of_mem hb)
    obtain ⟨fuel, later, hLater, hItems⟩ := hInner.mpr ((sortedKeys_eq (hRest hAll)).symm ▸ hClear)
    have hSame : later.Perm rest := hItems.perm.trans (hRest hAll).perm.symm
    refine ⟨fuel + 1, first ++ later, by simp only [follow, hPage, hLater, Option.map_some],
      (hSame.append_left first).trans hExact.perm, ?_⟩
    exact pairwise_append.mpr ⟨(pairwise_append.mp hExact.sorted).1, hItems.sorted,
      fun x hx b hb => hAcross x hx b (hSame.subset hb)⟩

theorem after_none : after key rows none = rows := filter_eq_self.mpr fun _ _ => rfl

end LocalModelWorks.Keyset
