import Mathlib.Data.List.Sort
import Mathlib.Data.List.Range

/-!
# Edits of a list

An edit replaces the elements from `start` up to `stop` by others; without a range it
inserts.
-/

namespace LocalModelWorks.EditScript

open List

structure Edit (α : Type) where
  start : Nat
  stop : Nat
  lines : List α
  deriving DecidableEq

variable {α : Type} {base side : List α} {e f : Edit α} {es : List (Edit α)} {pos n : Nat}

namespace Edit

structure Fits (n : Nat) (e : Edit α) : Prop where
  ordered : e.start ≤ e.stop
  within : e.stop ≤ n

/-- Two ranges share an element, one inserts strictly inside the other, or both insert at one place. -/
def overlaps (e f : Edit α) : Bool :=
  (e.start < f.stop && f.start < e.stop) || (e.start = e.stop && f.start = f.stop && e.start = f.start)

structure Before (e f : Edit α) : Prop where
  stop_le : e.stop ≤ f.start
  distinct : ¬ (e.start = f.start ∧ e.stop = f.stop)

def le (e f : Edit α) : Prop := e.start < f.start ∨ (e.start = f.start ∧ e.stop ≤ f.stop)

instance : DecidableRel (le (α := α)) := fun _ _ => inferInstanceAs (Decidable (_ ∨ _))

instance : Std.Total (le (α := α)) := ⟨fun e f => by unfold le; omega⟩

instance : IsTrans (Edit α) le := ⟨fun e f g => by unfold le; omega⟩

theorem overlaps_iff : e.overlaps f = true ↔
    e.start < f.stop ∧ f.start < e.stop ∨ (e.start = e.stop ∧ f.start = f.stop) ∧ e.start = f.start := by
  simp [overlaps]

theorem overlaps_comm (e f : Edit α) : e.overlaps f = f.overlaps e := by
  rw [Bool.eq_iff_iff, overlaps_iff, overlaps_iff]
  omega

theorem Before.not_overlaps (h : e.Before f) : e.overlaps f = false := by
  obtain ⟨hStop, hApart⟩ := h
  rw [Bool.eq_false_iff, ne_eq, overlaps_iff]
  omega

theorem before_of_le (h : e.overlaps f = false) (hLe : e.le f) (he : e.start ≤ e.stop) (hf : f.start ≤ f.stop) :
    e.Before f := by
  rw [Bool.eq_false_iff, ne_eq, overlaps_iff] at h
  unfold le at hLe
  exact ⟨by omega, by omega⟩

theorem overlaps_self (he : e.start ≤ e.stop) : e.overlaps e = true := by
  rw [overlaps_iff]
  omega

end Edit

def Apart (es : List (Edit α)) : Prop := es.Pairwise fun e f => e.overlaps f = false

def sort (es : List (Edit α)) : List (Edit α) := es.insertionSort Edit.le

theorem sort_perm (es : List (Edit α)) : (sort es).Perm es := es.perm_insertionSort Edit.le

theorem Apart.perm {es' : List (Edit α)} (h : Apart es) (hPerm : es.Perm es') : Apart es' :=
  List.Pairwise.perm h hPerm fun {e f} hApart => (Edit.overlaps_comm f e).trans hApart

theorem Apart.before_sort (h : Apart es) (hFits : ∀ e ∈ es, e.Fits n) : (sort es).Pairwise Edit.Before := by
  have hSort : (sort es).Pairwise Edit.le := es.pairwise_insertionSort Edit.le
  have hBoth := (h.perm (sort_perm es).symm).and hSort
  refine hBoth.imp_of_mem fun {e f} he hf hPair => ?_
  have hFit (g : Edit α) hg : g.start ≤ g.stop := (hFits g ((sort_perm es).mem_iff.mp hg)).ordered
  exact Edit.before_of_le hPair.1 hPair.2 (hFit e he) (hFit f hf)

def slice (base : List α) (i j : Nat) : List α := (base.drop i).take (j - i)

def apply (base : List α) (pos : Nat) : List (Edit α) → List α
  | [] => base.drop pos
  | e :: es => slice base pos e.start ++ (e.lines ++ apply base e.stop es)

variable {i j k p : Nat}

theorem slice_append_drop (h : i ≤ j) : slice base i j ++ base.drop j = base.drop i := by
  have hDrop : base.drop j = (base.drop i).drop (j - i) := by rw [drop_drop, Nat.add_sub_cancel' h]
  rw [slice, hDrop, take_append_drop]

theorem slice_append_slice (hij : i ≤ j) (hjk : j ≤ k) : slice base i j ++ slice base j k = slice base i k := by
  have hDrop : base.drop j = (base.drop i).drop (j - i) := by rw [drop_drop, Nat.add_sub_cancel' hij]
  have hLen : k - i = (j - i) + (k - j) := by omega
  rw [slice, slice, slice, hDrop, hLen, take_add]

theorem slice_self (base : List α) (i : Nat) : slice base i i = [] := by rw [slice, Nat.sub_self, take_zero]

theorem apply_skip (hij : i ≤ j) (hStarts : ∀ e ∈ es, j ≤ e.start) :
    slice base i j ++ apply base j es = apply base i es := by
  cases es with
  | nil => exact slice_append_drop hij
  | cons e es =>
    rw [apply, apply, ← append_assoc, slice_append_slice hij (hStarts e mem_cons_self)]

def insertedAt (es : List (Edit α)) (p : Nat) : List α :=
  (es.filter fun e => e.start = p ∧ e.stop = p).flatMap Edit.lines

def replacedAt (es : List (Edit α)) (p : Nat) : List α :=
  (es.filter fun e => e.start = p ∧ p < e.stop).flatMap Edit.lines

def covered (es : List (Edit α)) (p : Nat) : Bool := es.any fun e => e.start ≤ p ∧ p < e.stop

/-- What stands at a position: what is inserted there, then what replaces the range that starts there, or the
element itself. -/
def patchedAt (base : List α) (es : List (Edit α)) (p : Nat) : List α :=
  insertedAt es p ++ (replacedAt es p ++ if covered es p then [] else base[p]?.toList)

def patched (base : List α) (es : List (Edit α)) : List α :=
  (List.range (base.length + 1)).flatMap (patchedAt base es)

theorem eq_of_mem_filter (h : Apart es) {keep : Edit α → Bool}
    (hKeep : ∀ e f, keep e = true → keep f = true → e.overlaps f = true) : (es.filter keep).length ≤ 1 := by
  have hApart : (es.filter keep).Pairwise fun e f => e.overlaps f = false := List.Pairwise.filter keep h
  match hList : es.filter keep with
  | [] => exact Nat.zero_le 1
  | [e] => exact Nat.le_refl 1
  | e :: f :: rest =>
    have hMem g (hg : g ∈ e :: f :: rest) : keep g = true := (mem_filter.mp (hList ▸ hg)).2
    rw [hList] at hApart
    have hNot := rel_of_pairwise_cons hApart mem_cons_self
    rw [hKeep e f (hMem e (by simp)) (hMem f (by simp))] at hNot
    cases hNot

theorem eq_of_perm_of_length {l l' : List (Edit α)} (h : l.Perm l') (hLen : l.length ≤ 1) : l = l' := by
  match l with
  | [] => exact (nil_perm.mp h).symm
  | [e] => exact singleton_perm.mp h
  | _ :: _ :: _ => exact absurd hLen (by simp)

theorem patched_perm {es' : List (Edit α)} (h : Apart es) (hPerm : es.Perm es') : patched base es = patched base es' := by
  have hAt p : insertedAt es p = insertedAt es' p ∧ replacedAt es p = replacedAt es' p := by
    unfold insertedAt replacedAt
    constructor
    all_goals
      rw [eq_of_perm_of_length (hPerm.filter _) (eq_of_mem_filter h fun e f he hf => ?_)]
      rw [decide_eq_true_eq] at he hf
      rw [Edit.overlaps_iff]
      omega
  have hCovered p : covered es p = covered es' p := by
    unfold covered
    rw [Bool.eq_iff_iff, any_eq_true, any_eq_true]
    simp only [hPerm.mem_iff]
  unfold patched
  congr 1
  funext p
  rw [patchedAt, patchedAt, (hAt p).1, (hAt p).2, hCovered]

section Chosen

variable {keep : Edit α → Prop} [DecidablePred keep]

theorem chosen_cons : ((e :: es).filter (keep ·)).flatMap Edit.lines =
    (if keep e then e.lines else []) ++ (es.filter (keep ·)).flatMap Edit.lines := by
  by_cases h : keep e
  · rw [filter_cons_of_pos (by simpa using h), flatMap_cons, if_pos h]
  · rw [filter_cons_of_neg (by simpa using h), if_neg h, nil_append]

theorem chosen_eq_nil (h : ∀ e ∈ es, ¬ keep e) : (es.filter (keep ·)).flatMap Edit.lines = [] := by
  rw [filter_eq_nil_iff.mpr fun e he => by simpa using h e he, flatMap_nil]

theorem mem_chosen {a : α} (h : a ∈ (es.filter (keep ·)).flatMap Edit.lines) : ∃ e ∈ es, keep e ∧ a ∈ e.lines := by
  obtain ⟨e, he, hLine⟩ := mem_flatMap.mp h
  obtain ⟨hMem, hAt⟩ := mem_filter.mp he
  exact ⟨e, hMem, of_decide_eq_true hAt, hLine⟩

end Chosen

theorem insertedAt_cons (p : Nat) :
    insertedAt (e :: es) p = (if e.start = p ∧ e.stop = p then e.lines else []) ++ insertedAt es p :=
  chosen_cons

theorem replacedAt_cons (p : Nat) :
    replacedAt (e :: es) p = (if e.start = p ∧ p < e.stop then e.lines else []) ++ replacedAt es p :=
  chosen_cons

theorem covered_cons (p : Nat) : covered (e :: es) p = ((decide (e.start ≤ p ∧ p < e.stop)) || covered es p) := rfl

theorem insertedAt_eq_nil (h : ∀ e ∈ es, ¬ (e.start = p ∧ e.stop = p)) : insertedAt es p = [] := chosen_eq_nil h

theorem replacedAt_eq_nil (h : ∀ e ∈ es, ¬ (e.start = p ∧ p < e.stop)) : replacedAt es p = [] := chosen_eq_nil h

theorem covered_eq_false (h : ∀ e ∈ es, ¬ (e.start ≤ p ∧ p < e.stop)) : covered es p = false := by
  unfold covered
  rw [any_eq_false]
  exact fun e he => by simpa using h e he

theorem patchedAt_of_lt (h : ∀ e ∈ es, p < e.start) : patchedAt base es p = base[p]?.toList := by
  have hInserted : insertedAt es p = [] := insertedAt_eq_nil fun e he => by have := h e he; omega
  have hReplaced : replacedAt es p = [] := replacedAt_eq_nil fun e he => by have := h e he; omega
  have hCovered : covered es p = false := covered_eq_false fun e he => by have := h e he; omega
  rw [patchedAt, hInserted, hReplaced, hCovered]
  rfl

theorem patchedAt_of_ge (h : e.stop ≤ p) (hStart : e.start < p) : patchedAt base (e :: es) p = patchedAt base es p := by
  rw [patchedAt, patchedAt, insertedAt_cons, replacedAt_cons, covered_cons, if_neg (by omega), if_neg (by omega)]
  have hOut : decide (e.start ≤ p ∧ p < e.stop) = false := by simpa using fun _ => h
  rw [hOut, Bool.false_or, nil_append, nil_append]

theorem range'_flatMap_getElem? (base : List α) (i k : Nat) :
    (range' i k).flatMap (fun p => base[p]?.toList) = (base.drop i).take k := by
  induction k generalizing i with
  | zero => simp
  | succ k ih =>
    rw [range'_succ, flatMap_cons, ih]
    by_cases h : i < base.length
    · rw [getElem?_eq_getElem h, drop_eq_getElem_cons h]
      rfl
    · rw [getElem?_eq_none (by omega), drop_of_length_le (by omega), drop_of_length_le (by omega)]
      simp

theorem patchedAt_inside (hPre : ∀ f ∈ es, e.Before f) (hIn : e.start ≤ p ∧ p < e.stop) :
    patchedAt base (e :: es) p = if e.start = p then e.lines else [] := by
  have hInserted : insertedAt (e :: es) p = [] := insertedAt_eq_nil fun f hf => by
    rcases mem_cons.mp hf with rfl | hf
    · omega
    · have := (hPre f hf).stop_le
      omega
  have hReplaced : replacedAt es p = [] := replacedAt_eq_nil fun f hf => by
    have := (hPre f hf).stop_le
    omega
  rw [patchedAt, hInserted, replacedAt_cons, hReplaced, covered_cons, decide_eq_true hIn, Bool.true_or]
  by_cases h : e.start = p
  · rw [if_pos ⟨h, hIn.2⟩, if_pos h]
    simp
  · rw [if_neg (fun hh => h hh.1), if_neg h]
    rfl

theorem patched_range (hPre : ∀ f ∈ es, e.Before f) (hLen : e.stop = e.start + k) (hPos : 0 < k) :
    (range' e.start k).flatMap (patchedAt base (e :: es)) = e.lines := by
  obtain ⟨k, rfl⟩ : ∃ j, k = j + 1 := ⟨k - 1, by omega⟩
  rw [range'_succ, flatMap_cons, patchedAt_inside hPre ⟨le_refl _, by omega⟩, if_pos rfl]
  have hRest : (range' (e.start + 1) k).flatMap (patchedAt base (e :: es)) = [] := by
    rw [flatMap_eq_nil_iff]
    intro p hp
    rw [mem_range'_1] at hp
    rw [patchedAt_inside hPre ⟨by omega, by omega⟩, if_neg (by omega)]
  rw [hRest, append_nil]

theorem patched_insert (hPre : ∀ f ∈ es, e.Before f) (hEmpty : e.start = e.stop) :
    patchedAt base (e :: es) e.stop = e.lines ++ patchedAt base es e.stop := by
  have hOthers : insertedAt es e.stop = [] := insertedAt_eq_nil fun f hf h => by
    have := (hPre f hf).distinct
    omega
  have hOut : decide (e.start ≤ e.stop ∧ e.stop < e.stop) = false := by simp
  rw [patchedAt, patchedAt, insertedAt_cons, replacedAt_cons, covered_cons, if_pos ⟨hEmpty, rfl⟩, if_neg (by omega),
    hOthers, hOut, Bool.false_or, append_nil, nil_append, nil_append]

theorem range'_append_of (hij : i ≤ j) (hjk : j ≤ k) :
    range' i (j - i) ++ range' j (k - j) = range' i (k - i) := by
  have hStart : j = i + (j - i) := by omega
  have hLen : k - i = (j - i) + (k - j) := by omega
  rw [hLen, ← range'_append_1, ← hStart]

theorem apply_eq_patchedFrom (hPre : es.Pairwise Edit.Before) (hFits : ∀ e ∈ es, e.Fits base.length)
    (hStarts : ∀ e ∈ es, pos ≤ e.start) (hPos : pos ≤ base.length) :
    apply base pos es = (range' pos (base.length + 1 - pos)).flatMap (patchedAt base es) := by
  induction es generalizing pos with
  | nil =>
    have hKept : patchedAt base [] = fun p => base[p]?.toList := funext fun p => patchedAt_of_lt fun _ h => by cases h
    rw [apply, hKept, range'_flatMap_getElem?, take_of_length_le (by rw [length_drop]; omega)]
  | cons e es ih =>
    obtain ⟨hFirst, hRest⟩ := pairwise_cons.mp hPre
    have hFit := hFits e mem_cons_self
    have hStart := hStarts e mem_cons_self
    have hWithin := hFit.within
    have hOrd := hFit.ordered
    have hIH := ih hRest (fun f hf => hFits f (mem_cons_of_mem e hf)) (fun f hf => (hFirst f hf).stop_le) hWithin
    have hFront : (range' pos (e.start - pos)).flatMap (patchedAt base (e :: es)) = slice base pos e.start := by
      rw [slice, ← range'_flatMap_getElem?]
      refine flatMap_congr fun p hp => patchedAt_of_lt fun f hf => ?_
      rw [mem_range'_1] at hp
      rcases mem_cons.mp hf with rfl | hf
      · omega
      have := (hFirst f hf).stop_le
      omega
    rw [apply, hIH, ← range'_append_of hStart (k := base.length + 1) (by omega), flatMap_append, hFront]
    congr 1
    rcases hOrd.eq_or_lt with hEmpty | hRange
    · -- An insertion shares its position with what follows.
      obtain ⟨k, hk⟩ : ∃ k, base.length + 1 - e.stop = k + 1 := ⟨base.length - e.stop, by omega⟩
      rw [hEmpty, hk, range'_succ, flatMap_cons, flatMap_cons, patched_insert hFirst hEmpty, append_assoc]
      congr 2
      refine flatMap_congr fun p hp => (patchedAt_of_ge ?_ ?_).symm <;> rw [mem_range'_1] at hp <;> omega
    rw [← range'_append_of hOrd (k := base.length + 1) (by omega), flatMap_append,
      patched_range hFirst (by omega) (by omega)]
    congr 1
    refine flatMap_congr fun p hp => (patchedAt_of_ge ?_ ?_).symm <;> rw [mem_range'_1] at hp <;> omega

theorem apply_eq_patched (hPre : es.Pairwise Edit.Before) (hFits : ∀ e ∈ es, e.Fits base.length) :
    apply base 0 es = patched base es := by
  rw [apply_eq_patchedFrom hPre hFits (fun _ _ => Nat.zero_le _) (Nat.zero_le _), patched, Nat.sub_zero,
    range_eq_range']

theorem Apart.apply_sort (h : Apart es) (hFits : ∀ e ∈ es, e.Fits base.length) :
    apply base 0 (sort es) = patched base es := by
  rw [apply_eq_patched (h.before_sort hFits) fun e he => hFits e ((sort_perm es).mem_iff.mp he)]
  exact patched_perm (h.perm (sort_perm es).symm) (sort_perm es)

theorem apart_of_before (hPre : es.Pairwise Edit.Before) : Apart es := hPre.imp fun h => h.not_overlaps

structure Hunk where
  start : Nat
  count : Nat
  next : Nat
  size : Nat
  deriving DecidableEq

def Hunk.edit (side : List α) (h : Hunk) : Edit α := ⟨h.start, h.start + h.count, slice side h.next (h.next + h.size)⟩

def lineEdits (start : Nat) : List α → List (Edit α)
  | [] => []
  | line :: lines => ⟨start, start + 1, [line]⟩ :: lineEdits (start + 1) lines

def Hunk.edits (side : List α) (h : Hunk) : List (Edit α) :=
  if h.count = h.size then lineEdits h.start (slice side h.next (h.next + h.size)) else [h.edit side]

structure Script (base side : List α) (hunks : List Hunk) : Prop where
  before : (hunks.map (Hunk.edit side)).Pairwise Edit.Before
  base_le : ∀ h ∈ hunks, h.start + h.count ≤ base.length
  side_le : ∀ h ∈ hunks, h.next + h.size ≤ side.length
  turns : apply base 0 (hunks.map (Hunk.edit side)) = side

theorem length_slice (h : j ≤ base.length) : (slice base i j).length = j - i := by
  rw [slice, length_take, length_drop]
  omega

theorem mem_lineEdits {start : Nat} {lines : List α} (h : e ∈ lineEdits start lines) :
    ∃ i line, lines[i]? = some line ∧ e = ⟨start + i, start + i + 1, [line]⟩ := by
  induction lines generalizing start with
  | nil => cases h
  | cons line lines ih =>
    rcases mem_cons.mp h with rfl | h
    · exact ⟨0, line, rfl, rfl⟩
    obtain ⟨i, other, hAt, rfl⟩ := ih h
    refine ⟨i + 1, other, by rw [getElem?_cons_succ, hAt], ?_⟩
    congr 1 <;> omega

theorem before_lineEdits (start : Nat) (lines : List α) : (lineEdits start lines).Pairwise Edit.Before := by
  induction lines generalizing start with
  | nil => exact List.Pairwise.nil
  | cons line lines ih =>
    refine pairwise_cons.mpr ⟨fun e he => ?_, ih (start + 1)⟩
    obtain ⟨i, other, _, rfl⟩ := mem_lineEdits he
    exact ⟨by simp, by simp; omega⟩

theorem apply_lineEdits {start : Nat} {lines : List α} (hPos : pos ≤ start) (hStarts : ∀ e ∈ es, start + lines.length ≤ e.start) :
    apply base pos (lineEdits start lines ++ es) =
      slice base pos start ++ (lines ++ apply base (start + lines.length) es) := by
  induction lines generalizing start pos with
  | nil => exact (apply_skip hPos fun e he => by simpa using hStarts e he).symm
  | cons line lines ih =>
    have hLen : start + (line :: lines).length = start + 1 + lines.length := by rw [length_cons]; omega
    rw [hLen] at hStarts ⊢
    rw [lineEdits, cons_append, apply, ih (Nat.le_refl _) hStarts, slice_self]
    rfl

theorem range_of_mem_edits {h : Hunk} (hSize : h.next + h.size ≤ side.length) (he : e ∈ h.edits side) :
    h.start ≤ e.start ∧ e.start ≤ e.stop ∧ e.stop ≤ h.start + h.count ∧ (e.start = e.stop → e = h.edit side) := by
  unfold Hunk.edits at he
  split at he
  next hSame =>
    obtain ⟨i, line, hAt, rfl⟩ := mem_lineEdits he
    have hi := (List.getElem?_eq_some_iff.mp hAt).1
    rw [length_slice hSize] at hi
    exact ⟨by simp, by simp, by simp; omega, fun h => by simp at h⟩
  · rw [mem_singleton.mp he]
    exact ⟨Nat.le_refl _, Nat.le_add_right _ _, Nat.le_refl _, fun _ => rfl⟩

theorem before_edits {h h' : Hunk} (hPre : (h.edit side).Before (h'.edit side)) (hSize : h.next + h.size ≤ side.length)
    (hSize' : h'.next + h'.size ≤ side.length) (he : e ∈ h.edits side) (hf : f ∈ h'.edits side) : e.Before f := by
  obtain ⟨hStart, hOrd, hStop, hEmpty⟩ := range_of_mem_edits hSize he
  obtain ⟨hStart', hOrd', hStop', hEmpty'⟩ := range_of_mem_edits hSize' hf
  have hEnd : h.start + h.count ≤ h'.start := hPre.stop_le
  refine ⟨by omega, fun hSame => ?_⟩
  have hBoth := hPre.distinct
  rw [← hEmpty (by omega), ← hEmpty' (by omega)] at hBoth
  exact hBoth hSame

def editsOf (side : List α) (hunks : List Hunk) : List (Edit α) := hunks.flatMap (Hunk.edits side)

variable {hunks : List Hunk}

theorem Script.before_editsOf (h : Script base side hunks) : (editsOf side hunks).Pairwise Edit.Before := by
  refine pairwise_flatMap.mpr ⟨fun hunk _ => ?_, ?_⟩
  · unfold Hunk.edits
    split
    · exact before_lineEdits _ _
    · exact pairwise_singleton _ _
  · refine (pairwise_map.mp h.before).imp_of_mem fun {first second} hFirst hSecond hPre e he f hf => ?_
    exact before_edits hPre (h.side_le first hFirst) (h.side_le second hSecond) he hf

theorem Script.fits_editsOf (h : Script base side hunks) : ∀ e ∈ editsOf side hunks, e.Fits base.length := by
  intro e he
  obtain ⟨hunk, hHunk, he⟩ := mem_flatMap.mp he
  obtain ⟨_, hOrd, hStop, _⟩ := range_of_mem_edits (h.side_le hunk hHunk) he
  exact ⟨hOrd, hStop.trans (h.base_le hunk hHunk)⟩

theorem apply_editsOf (hPre : (hunks.map (Hunk.edit side)).Pairwise Edit.Before)
    (hSide : ∀ h ∈ hunks, h.next + h.size ≤ side.length) (hStarts : ∀ h ∈ hunks, pos ≤ h.start) :
    apply base pos (editsOf side hunks) = apply base pos (hunks.map (Hunk.edit side)) := by
  induction hunks generalizing pos with
  | nil => rfl
  | cons h hunks ih =>
    obtain ⟨hFirst, hRest⟩ := pairwise_cons.mp hPre
    have hSize := hSide h mem_cons_self
    have hTail := fun h' hh' => hSide h' (mem_cons_of_mem h hh')
    have hNext (h' : Hunk) hh' : h.start + h.count ≤ h'.start :=
      (hFirst _ (mem_map_of_mem hh')).stop_le
    have hIH := ih hRest hTail hNext
    have hStart := hStarts h mem_cons_self
    have hUnfold : apply base pos ((h :: hunks).map (Hunk.edit side)) = slice base pos h.start ++
        ((h.edit side).lines ++ apply base (h.start + h.count) (editsOf side hunks)) := by
      rw [hIH]
      rfl
    rw [hUnfold, editsOf, flatMap_cons]
    unfold Hunk.edits
    split
    next hSame =>
      have hLen : (h.edit side).lines.length = h.count := (length_slice hSize).trans (by omega)
      have hAfter : ∀ e ∈ editsOf side hunks, h.start + (h.edit side).lines.length ≤ e.start := by
        intro e he
        obtain ⟨h', hh', he⟩ := mem_flatMap.mp he
        have := hNext h' hh'
        have := (range_of_mem_edits (hTail h' hh') he).1
        omega
      have hLines := @apply_lineEdits α base (editsOf side hunks) pos h.start _ hStart hAfter
      rw [hLen] at hLines
      exact hLines
    · rfl

theorem Script.patched_editsOf (h : Script base side hunks) : patched base (editsOf side hunks) = side := by
  rw [← apply_eq_patched h.before_editsOf h.fits_editsOf, apply_editsOf h.before h.side_le fun _ _ => Nat.zero_le _]
  exact h.turns

end LocalModelWorks.EditScript
