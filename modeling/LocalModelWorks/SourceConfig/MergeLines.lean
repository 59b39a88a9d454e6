import LocalModelWorks.SourceConfig.MergeEdits

/-!
# The lines of a merge

Every line that the merge writes is one of the three texts. They stay apart as long as all
but the last end in a newline.
-/

namespace LocalModelWorks.SourceConfig.Merge

open EditScript List

def Terminated (line : Line) : Prop := line.getLast? = some newline

instance (line : Line) : Decidable (Terminated line) := inferInstanceAs (Decidable (_ = _))

def bare (line : Line) : Line := if Terminated line then line.dropLast else line

structure IsLine (line : Line) : Prop where
  ne_nil : line ≠ []
  single : newline ∉ line.dropLast

structure Proper (lines : List Line) : Prop where
  isLine : ∀ line ∈ lines, IsLine line
  terminated : ∀ line ∈ lines.dropLast, Terminated line

variable {line u v : Line} {lines front back side : List Line} {h : Hunk} {original own incoming : Bytes}

theorem forall_dropLast_cons {α : Type} {P : α → Prop} {a : α} {l : List α} :
    (∀ x ∈ (a :: l).dropLast, P x) ↔ (l ≠ [] → P a) ∧ ∀ x ∈ l.dropLast, P x := by
  cases l with
  | nil => simp
  | cons b l => simp

theorem proper_nil : Proper [] := ⟨forall_mem_nil _, forall_mem_nil _⟩

theorem proper_cons : Proper (line :: lines) ↔ (IsLine line ∧ (lines ≠ [] → Terminated line)) ∧ Proper lines := by
  constructor
  · intro h
    obtain ⟨hLine, hLines⟩ := forall_mem_cons.mp h.isLine
    obtain ⟨hEnd, hEnds⟩ := forall_dropLast_cons.mp h.terminated
    exact ⟨⟨hLine, hEnd⟩, hLines, hEnds⟩
  · rintro ⟨⟨hLine, hEnd⟩, hLines, hEnds⟩
    exact ⟨forall_mem_cons.mpr ⟨hLine, hLines⟩, forall_dropLast_cons.mpr ⟨hEnd, hEnds⟩⟩

theorem Proper.append (hFront : ∀ line ∈ front, IsLine line ∧ Terminated line) (h : Proper lines) :
    Proper (front ++ lines) := by
  induction front with
  | nil => exact h
  | cons line front ih =>
    obtain ⟨hLine, hRest⟩ := forall_mem_cons.mp hFront
    exact proper_cons.mpr ⟨⟨hLine.1, fun _ => hLine.2⟩, ih hRest⟩

theorem eq_concat_of_mem {α : Type} {a : α} {l : List α} (hMem : a ∈ l) (hNot : a ∉ l.dropLast) :
    l = l.dropLast ++ [a] := by
  have hSplit := dropLast_append_getLast (ne_nil_of_mem hMem)
  rw [← hSplit, mem_append, mem_singleton] at hMem
  rw [hMem.resolve_left hNot, hSplit]

theorem IsLine.newline_notMem (h : IsLine line) (hOpen : ¬ Terminated line) : newline ∉ line := by
  intro hMem
  rw [eq_concat_of_mem hMem h.single] at hOpen
  exact hOpen getLast?_concat

theorem proper_sourceTextLines (text : Bytes) : Proper (sourceTextLines text) := by
  induction text with
  | nil => exact proper_nil
  | cons c text ih =>
    have hOne : IsLine [c] := ⟨cons_ne_nil _ _, not_mem_nil⟩
    rw [sourceTextLines]
    split
    next hNewline =>
      refine proper_cons.mpr ⟨⟨hOne, fun _ => ?_⟩, ih⟩
      rw [hNewline]
      rfl
    next hOther =>
      split
      · exact proper_cons.mpr ⟨⟨hOne, fun h => absurd rfl h⟩, proper_nil⟩
      next first lines hRest =>
        rw [hRest] at ih
        obtain ⟨⟨hFirst, hEnd⟩, hLines⟩ := proper_cons.mp ih
        refine proper_cons.mpr ⟨⟨⟨cons_ne_nil _ _, ?_⟩, fun hMore => ?_⟩, hLines⟩
        · rw [dropLast_cons_of_ne_nil hFirst.ne_nil, mem_cons, not_or]
          exact ⟨fun hEq => hOther hEq.symm, hFirst.single⟩
        · rw [Terminated, getLast?_cons_of_ne_nil hFirst.ne_nil]
          exact hEnd hMore

theorem sourceTextLines_append (hLine : IsLine line) (hEnd : Terminated line) (rest : Bytes) :
    sourceTextLines (line ++ rest) = line :: sourceTextLines rest := by
  induction line with
  | nil => exact absurd rfl hLine.ne_nil
  | cons c line ih =>
    rw [cons_append, sourceTextLines]
    by_cases hNil : line = []
    · subst hNil
      have hc : c = newline := Option.some.inj hEnd
      rw [if_pos hc]
      rfl
    have hOne := hLine.single
    rw [dropLast_cons_of_ne_nil hNil] at hOne
    have hc : c ≠ newline := fun h => hOne (h ▸ mem_cons_self)
    have hTail : IsLine line := ⟨hNil, fun h => hOne (mem_cons_of_mem c h)⟩
    have hTailEnd : Terminated line := by rwa [Terminated, getLast?_cons_of_ne_nil hNil] at hEnd
    rw [if_neg hc, ih hTail hTailEnd]

theorem sourceTextLines_single (hLine : IsLine line) : sourceTextLines line = [line] := by
  by_cases hEnd : Terminated line
  · have h := sourceTextLines_append hLine hEnd []
    rwa [append_nil] at h
  have hNo := hLine.newline_notMem hEnd
  have hNe := hLine.ne_nil
  clear hLine hEnd
  induction line with
  | nil => exact absurd rfl hNe
  | cons c line ih =>
    have hc : c ≠ newline := fun h => hNo (h ▸ mem_cons_self)
    rw [sourceTextLines, if_neg hc]
    cases line with
    | nil => rfl
    | cons d line => rw [ih (fun h => hNo (mem_cons_of_mem c h)) (cons_ne_nil _ _)]

theorem sourceTextLines_flatten (h : Proper lines) : sourceTextLines lines.flatten = lines := by
  induction lines with
  | nil => rfl
  | cons line lines ih =>
    obtain ⟨⟨hLine, hEnd⟩, hLines⟩ := proper_cons.mp h
    cases lines with
    | nil => rw [flatten_cons, flatten_nil, append_nil, sourceTextLines_single hLine]
    | cons next lines => rw [flatten_cons, sourceTextLines_append hLine (hEnd (cons_ne_nil _ _)), ih hLines]

theorem sourceTextLines_joined (hFront : ∀ line ∈ front, Terminated line)
    (hLines : ∀ line ∈ front ++ u :: v :: back, IsLine line) (hOpen : ¬ Terminated u)
    (hBack : ∀ line ∈ (v :: back).dropLast, Terminated line) :
    sourceTextLines (front ++ u :: v :: back).flatten = front ++ (u ++ v) :: back := by
  have hText : (front ++ u :: v :: back).flatten = (front ++ (u ++ v) :: back).flatten := by
    simp only [flatten_append, flatten_cons, append_assoc]
  have hu := hLines u (by simp)
  have hv := hLines v (by simp)
  have hJoined : IsLine (u ++ v) := by
    refine ⟨by simp [hu.ne_nil], ?_⟩
    rw [dropLast_append_of_ne_nil hv.ne_nil, mem_append, not_or]
    exact ⟨hu.newline_notMem hOpen, hv.single⟩
  obtain ⟨hEnd, hEnds⟩ := forall_dropLast_cons.mp hBack
  rw [hText]
  refine sourceTextLines_flatten (Proper.append (fun line hLine => ⟨hLines line ?_, hFront line hLine⟩) ?_)
  · exact mem_append_left _ hLine
  refine proper_cons.mpr ⟨⟨hJoined, fun hMore => ?_⟩, fun line hLine => hLines line (by simp [hLine]), hEnds⟩
  rw [Terminated, getLast?_append_of_ne_nil _ hv.ne_nil]
  exact hEnd hMore

def body (base : List Line) (edits : List (Edit Line)) : List Line :=
  (List.range base.length).flatMap (patchedAt base edits)

theorem patched_eq_body (base : List Line) {edits : List (Edit Line)} (hFits : ∀ e ∈ edits, e.Fits base.length) :
    patched base edits = body base edits ++ insertedAt edits base.length := by
  have hReplaced : replacedAt edits base.length = [] := replacedAt_eq_nil fun e he => by
    have := (hFits e he).within
    omega
  have hEnd : patchedAt base edits base.length = insertedAt edits base.length := by
    rw [patchedAt, hReplaced]
    simp
  rw [patched, range_succ, flatMap_append, flatMap_singleton, hEnd]
  rfl

theorem dropLast_flatMap_range {f : Nat → List Line} {n : Nat}
    (hInner : ∀ p < n, ∀ line ∈ (f p).dropLast, Terminated line)
    (hLast : ∀ p < n, (∃ line ∈ f p, ¬ Terminated line) → ∀ q, p < q → q < n → f q = []) :
    ∀ line ∈ ((List.range n).flatMap f).dropLast, Terminated line := by
  induction n with
  | zero => exact fun _ h => by cases h
  | succ n ih =>
    rw [range_succ, flatMap_append, flatMap_singleton]
    intro line hLine
    by_cases hNil : f n = []
    · rw [hNil, append_nil] at hLine
      exact ih (fun p hp => hInner p (by omega)) (fun p hp hOpen q hq hqn => hLast p (by omega) hOpen q hq (by omega))
        line hLine
    rw [dropLast_append_of_ne_nil hNil] at hLine
    rcases mem_append.mp hLine with hLine | hLine
    · obtain ⟨p, hp, hMem⟩ := mem_flatMap.mp hLine
      rw [mem_range] at hp
      by_contra hOpen
      exact hNil (hLast p (by omega) ⟨line, hMem, hOpen⟩ n hp (by omega))
    · exact hInner n (by omega) line hLine

structure Neat (n : Nat) (edits : List (Edit Line)) : Prop where
  apart : Apart edits
  fits : ∀ e ∈ edits, e.Fits n
  isLine : ∀ e ∈ edits, ∀ line ∈ e.lines, IsLine line
  inner : ∀ e ∈ edits, ∀ line ∈ e.lines.dropLast, Terminated line
  open_end : ∀ e ∈ edits, ∀ line ∈ e.lines, ¬ Terminated line → e.stop = n

section Neat

variable {base : List Line} {edits : List (Edit Line)} {e f : Edit Line} {p : Nat}

theorem filter_eq_singleton {keep : Edit Line → Bool} (h : Apart edits) (he : e ∈ edits) (hKeeps : keep e = true)
    (hKeep : ∀ e f, keep e = true → keep f = true → e.overlaps f = true) : edits.filter keep = [e] := by
  have hMem : e ∈ edits.filter keep := mem_filter.mpr ⟨he, hKeeps⟩
  have hLen := eq_of_mem_filter h hKeep
  obtain ⟨g, hg⟩ := length_eq_one_iff.mp (Nat.le_antisymm hLen (length_pos_of_mem hMem))
  rw [hg] at hMem ⊢
  rw [mem_singleton.mp hMem]

theorem replacedAt_eq_lines (h : Apart edits) (he : e ∈ edits) (hRange : e.start < e.stop) :
    replacedAt edits e.start = e.lines := by
  rw [replacedAt, filter_eq_singleton h he (by simpa using hRange) fun f g hf hg => ?_, flatMap_singleton]
  rw [decide_eq_true_eq] at hf hg
  rw [Edit.overlaps_iff]
  omega

theorem insertedAt_eq_lines (h : Apart edits) (he : e ∈ edits) (hStart : e.start = p) (hStop : e.stop = p) :
    insertedAt edits p = e.lines := by
  rw [insertedAt, filter_eq_singleton h he (by simp [hStart, hStop]) fun f g hf hg => ?_, flatMap_singleton]
  rw [decide_eq_true_eq] at hf hg
  rw [Edit.overlaps_iff]
  omega

theorem patchedAt_uncovered (h : covered edits p = false) :
    patchedAt base edits p = insertedAt edits p ++ base[p]?.toList := by
  have hReplaced : replacedAt edits p = [] := replacedAt_eq_nil fun e he hAt => by
    have hOut := any_eq_false.mp h e he
    exact hOut (by simp [hAt])
  rw [patchedAt, hReplaced, h]
  rfl

theorem patchedAt_covered (h : covered edits p = true) :
    patchedAt base edits p = insertedAt edits p ++ replacedAt edits p := by
  rw [patchedAt, h, if_pos rfl, append_nil]

theorem Neat.inserted_terminated (h : Neat base.length edits) (hp : p < base.length) :
    ∀ line ∈ insertedAt edits p, Terminated line := by
  intro line hLine
  obtain ⟨e, he, ⟨_, hStop⟩, hMem⟩ := mem_chosen hLine
  by_contra hOpen
  have := h.open_end e he line hMem hOpen
  omega

theorem Neat.inserted_inner (h : Neat base.length edits) : ∀ line ∈ (insertedAt edits p).dropLast, Terminated line := by
  intro line hLine
  obtain ⟨e, he, ⟨hStart, hStop⟩, _⟩ := mem_chosen (dropLast_subset _ hLine)
  rw [insertedAt_eq_lines h.apart he hStart hStop] at hLine
  exact h.inner e he line hLine

theorem Neat.patchedAt_inner (h : Neat base.length edits) (hp : p < base.length) :
    ∀ line ∈ (patchedAt base edits p).dropLast, Terminated line := by
  intro line hLine
  cases hCovered : covered edits p with
  | false =>
    rw [patchedAt_uncovered hCovered, getElem?_eq_getElem hp, Option.toList_some, dropLast_concat] at hLine
    exact h.inserted_terminated hp line hLine
  | true =>
    rw [patchedAt_covered hCovered] at hLine
    by_cases hNil : replacedAt edits p = []
    · rw [hNil, append_nil] at hLine
      exact h.inserted_terminated hp line (dropLast_subset _ hLine)
    rw [dropLast_append_of_ne_nil hNil] at hLine
    rcases mem_append.mp hLine with hLine | hLine
    · exact h.inserted_terminated hp line hLine
    obtain ⟨e, he, ⟨hStart, hStop⟩, _⟩ := mem_chosen (dropLast_subset _ hLine)
    subst hStart
    rw [replacedAt_eq_lines h.apart he hStop] at hLine
    exact h.inner e he line hLine

theorem Neat.patchedAt_inside (h : Neat base.length edits) (he : e ∈ edits) (hp : e.start < p ∧ p < e.stop) :
    patchedAt base edits p = [] := by
  have hClear f (hf : f ∈ edits) (hStart : f.start = p) (hStop : p ≤ f.stop) : False := by
    have hNe : e ≠ f := fun hEq => by subst hEq; omega
    have hSymm : Std.Symm fun e f : Edit Line => e.overlaps f = false := ⟨fun e f h => (Edit.overlaps_comm f e).trans h⟩
    have hFree := Bool.eq_false_iff.mp (List.Pairwise.forall h.apart he hf hNe)
    rw [ne_eq, Edit.overlaps_iff] at hFree
    omega
  have hCovered : covered edits p = true := any_eq_true.mpr ⟨e, he, by simp; omega⟩
  rw [patchedAt_covered hCovered, insertedAt_eq_nil fun f hf hAt => hClear f hf hAt.1 hAt.2.ge,
    replacedAt_eq_nil fun f hf hAt => hClear f hf hAt.1 hAt.2.le]
  rfl

theorem Neat.open_of_mem (h : Neat base.length edits) (hBase : Proper base) (hp : p < base.length)
    (hLine : line ∈ patchedAt base edits p) (hOpen : ¬ Terminated line) :
    (p + 1 = base.length ∧ base[p]? = some line) ∨
      ∃ e ∈ edits, e.start = p ∧ e.stop = base.length ∧ line ∈ e.lines := by
  cases hCovered : covered edits p with
  | false =>
    rw [patchedAt_uncovered hCovered, getElem?_eq_getElem hp] at hLine
    rcases mem_append.mp hLine with hLine | hLine
    · exact absurd (h.inserted_terminated hp line hLine) hOpen
    have hAt := mem_singleton.mp hLine
    refine .inl ⟨?_, by rw [getElem?_eq_getElem hp, hAt]⟩
    by_contra hInner
    have hShort : p < base.dropLast.length := by rw [length_dropLast]; omega
    have hMem : base.dropLast[p] ∈ base.dropLast := getElem_mem hShort
    rw [getElem_dropLast hShort, ← hAt] at hMem
    exact hOpen (hBase.terminated line hMem)
  | true =>
    rw [patchedAt_covered hCovered] at hLine
    rcases mem_append.mp hLine with hLine | hLine
    · exact absurd (h.inserted_terminated hp line hLine) hOpen
    · obtain ⟨e, he, ⟨hStart, _⟩, hMem⟩ := mem_chosen hLine
      exact .inr ⟨e, he, hStart, h.open_end e he line hMem hOpen, hMem⟩

theorem Neat.body_inner (h : Neat base.length edits) (hBase : Proper base) :
    ∀ line ∈ (body base edits).dropLast, Terminated line := by
  refine dropLast_flatMap_range (fun p hp => h.patchedAt_inner hp) fun p hp hOpen q hq hqn => ?_
  obtain ⟨line, hLine, hOpen⟩ := hOpen
  rcases h.open_of_mem hBase hp hLine hOpen with ⟨hLast, _⟩ | ⟨e, he, hStart, hStop, _⟩
  · omega
  · exact h.patchedAt_inside he ⟨by omega, by omega⟩

/-- An edit that reaches the end of the original and leaves no final newline, and one that appends lines there. -/
def Clash (n : Nat) (edits : List (Edit Line)) (u v : Line) : Prop :=
  ∃ e ∈ edits, ∃ f ∈ edits, e.start < n ∧ e.stop = n ∧ f.start = n ∧ e.lines.getLast? = some u ∧ ¬ Terminated u ∧
    f.lines.head? = some v

theorem Neat.body_of_reaches (h : Neat base.length edits) (he : e ∈ edits) (hStart : e.start < base.length)
    (hStop : e.stop = base.length) : ∃ front, body base edits = front ++ e.lines := by
  have hCovered : covered edits e.start = true := any_eq_true.mpr ⟨e, he, by simp; omega⟩
  obtain ⟨k, hk⟩ : ∃ k, base.length - e.start = k + 1 := ⟨base.length - e.start - 1, by omega⟩
  have hRange : List.range base.length = List.range e.start ++ e.start :: List.range' (e.start + 1) k := by
    rw [← range'_succ, ← hk, range_eq_range', range_eq_range']
    have hAll := range'_append_of (Nat.zero_le e.start) hStart.le
    exact hAll.symm
  have hRest : (List.range' (e.start + 1) k).flatMap (patchedAt base edits) = [] := by
    rw [flatMap_eq_nil_iff]
    intro q hq
    rw [mem_range'_1] at hq
    exact h.patchedAt_inside he ⟨by omega, by omega⟩
  refine ⟨(List.range e.start).flatMap (patchedAt base edits) ++ insertedAt edits e.start, ?_⟩
  rw [body, hRange, flatMap_append, flatMap_cons, hRest, append_nil, patchedAt_covered hCovered,
    replacedAt_eq_lines h.apart he (by omega), append_assoc]

theorem Neat.joined_of_clash (h : Neat base.length edits) (hClash : Clash base.length edits u v) :
    ∃ front back, body base edits = front ++ [u] ∧ insertedAt edits base.length = v :: back := by
  obtain ⟨e, he, f, hf, hStart, hStop, hAt, hLast, _, hHead⟩ := hClash
  obtain ⟨front, hBody⟩ := h.body_of_reaches he hStart hStop
  have hFit := h.fits f hf
  have hTail := insertedAt_eq_lines h.apart hf hAt (by have := hFit.ordered; have := hFit.within; omega)
  obtain ⟨back, hBack⟩ := head?_eq_some_iff.mp hHead
  obtain ⟨init, hInit⟩ := getLast?_eq_some_iff.mp hLast
  exact ⟨front ++ init, back, by rw [hBody, hInit, append_assoc], by rw [hTail, hBack]⟩

theorem Neat.clash_of_joined (h : Neat base.length edits) (hBase : Proper base)
    (hEnd : ∀ line, base.getLast? = some line → ¬ Terminated line → insertedAt edits base.length = [])
    (hBody : body base edits = front ++ [u]) (hTail : insertedAt edits base.length = v :: back)
    (hOpen : ¬ Terminated u) : Clash base.length edits u v := by
  have hMem : u ∈ body base edits := by rw [hBody]; simp
  obtain ⟨p, hp, hu⟩ := mem_flatMap.mp hMem
  rw [mem_range] at hp
  rcases h.open_of_mem hBase hp hu hOpen with ⟨hLast, hAt⟩ | ⟨e, he, hStart, hStop, hLine⟩
  · have hp' : p = base.length - 1 := by omega
    subst hp'
    rw [hEnd u (by rw [getLast?_eq_getElem?, hAt]) hOpen] at hTail
    cases hTail
  obtain ⟨f, hf, ⟨hfStart, hfStop⟩, _⟩ := mem_chosen (hTail.symm ▸ mem_cons_self)
  refine ⟨e, he, f, hf, by omega, hStop, hfStart, ?_, hOpen, ?_⟩
  · rw [eq_concat_of_mem hLine fun hInner => hOpen (h.inner e he u hInner), getLast?_concat]
  · rw [← insertedAt_eq_lines h.apart hf hfStart hfStop, hTail]
    rfl

end Neat

theorem mem_dropLast_of_middle {middle : List Line} (h : line ∈ middle.dropLast) :
    line ∈ (front ++ (middle ++ back)).dropLast := by
  have hNe : middle ≠ [] := fun hNil => by rw [hNil] at h; cases h
  rw [dropLast_append_of_ne_nil (by simp [hNe])]
  by_cases hBack : back = []
  · rw [hBack, append_nil]
    exact mem_append_right _ h
  · rw [dropLast_append_of_ne_nil hBack]
    exact mem_append_right _ (mem_append_left _ (dropLast_subset _ h))

theorem slice_dropLast_subset {i j : Nat} (h : line ∈ (slice lines i j).dropLast) : line ∈ lines.dropLast := by
  have hSplit : lines = lines.take i ++ (slice lines i j ++ (lines.drop i).drop (j - i)) := by
    rw [slice, take_append_drop, take_append_drop]
  rw [hSplit]
  exact mem_dropLast_of_middle h

theorem mem_of_mem_slice {i j : Nat} (h : line ∈ slice lines i j) : line ∈ lines :=
  mem_of_mem_drop (mem_of_mem_take h)

theorem lines_of_mem_edits {e : Edit Line} (he : e ∈ h.edits side) :
    ∀ line ∈ e.lines, line ∈ (h.edit side).lines := by
  intro line hLine
  unfold Hunk.edits at he
  split at he
  · obtain ⟨i, other, hAt, rfl⟩ := mem_lineEdits he
    rw [mem_singleton.mp hLine]
    exact mem_of_getElem? hAt
  · rw [mem_singleton.mp he] at hLine
    exact hLine

theorem inner_of_mem_edits (hSide : Proper side) {e : Edit Line} (he : e ∈ h.edits side) :
    ∀ line ∈ e.lines.dropLast, Terminated line := by
  intro line hLine
  unfold Hunk.edits at he
  split at he
  · obtain ⟨i, other, hAt, rfl⟩ := mem_lineEdits he
    cases hLine
  · rw [mem_singleton.mp he] at hLine
    exact hSide.terminated line (slice_dropLast_subset hLine)

theorem ends_hunk (hSide : Proper side) (hSize : h.next + h.size ≤ side.length) {e : Edit Line}
    (he : e ∈ h.edits side) (hLine : line ∈ e.lines) (hOpen : ¬ Terminated line) :
    e.stop = h.start + h.count ∧ ∃ init, (h.edit side).lines = init ++ [line] := by
  have hNotInner : line ∉ (h.edit side).lines.dropLast :=
    fun hInner => hOpen (hSide.terminated line (slice_dropLast_subset hInner))
  refine ⟨?_, _, eq_concat_of_mem (lines_of_mem_edits he line hLine) hNotInner⟩
  unfold Hunk.edits at he
  split at he
  next hSame =>
    obtain ⟨i, other, hAt, rfl⟩ := mem_lineEdits he
    have hEq := mem_singleton.mp hLine
    obtain ⟨hi, hGet⟩ := List.getElem?_eq_some_iff.mp hAt
    have hLen := length_slice (i := h.next) hSize
    by_contra hStop
    have hShort : i < (h.edit side).lines.dropLast.length := by
      rw [length_dropLast]
      dsimp only [Hunk.edit] at hStop ⊢
      omega
    refine hNotInner ?_
    rw [hEq, ← hGet]
    exact getElem_dropLast hShort ▸ getElem_mem hShort
  · rw [mem_singleton.mp he]
    rfl

theorem apply_split (base : List Line) (pos : Nat) (front : List (Edit Line)) (e : Edit Line) (back : List (Edit Line)) :
    ∃ before, apply base pos (front ++ e :: back) = before ++ (e.lines ++ apply base e.stop back) := by
  induction front generalizing pos with
  | nil => exact ⟨_, rfl⟩
  | cons g front ih =>
    obtain ⟨before, hPre⟩ := ih g.stop
    refine ⟨slice base pos g.start ++ (g.lines ++ before), ?_⟩
    rw [cons_append, apply, hPre, append_assoc, append_assoc]

section Script

variable {base : List Line} {hunks : List Hunk} {e f : Edit Line} (hScript : Script base side hunks)
  (hSide : Proper side) (hSeparated : hunks.Pairwise fun h h' => h.start + h.count < h'.start)
include hScript hSeparated

theorem not_touching (he : e ∈ editsOf side hunks) (hf : f ∈ editsOf side hunks) (hRange : e.start < e.stop)
    (hEmpty : f.start = f.stop) : e.stop ≠ f.start := by
  obtain ⟨h, hh, he⟩ := mem_flatMap.mp he
  obtain ⟨h', hh', hf⟩ := mem_flatMap.mp hf
  obtain ⟨hStart, _, hStop, _⟩ := range_of_mem_edits (hScript.side_le h hh) he
  obtain ⟨_, _, _, hWhole⟩ := range_of_mem_edits (hScript.side_le h' hh') hf
  have hfEdit := hWhole hEmpty
  have hfStart : f.start = h'.start := by rw [hfEdit]; rfl
  by_cases hSame : h = h'
  · subst hSame
    omega
  have hEither : hunks.Pairwise fun a b => a.start + a.count < b.start ∨ b.start + b.count < a.start :=
    hSeparated.imp .inl
  have : Std.Symm fun a b : Hunk => a.start + a.count < b.start ∨ b.start + b.count < a.start := ⟨fun _ _ => Or.symm⟩
  rcases hEither.forall hh hh' hSame with hPre | hPre <;> omega

include hSide

theorem open_end_of_mem (he : e ∈ editsOf side hunks) (hLine : line ∈ e.lines) (hOpen : ¬ Terminated line) :
    e.stop = base.length := by
  obtain ⟨h, hh, he⟩ := mem_flatMap.mp he
  obtain ⟨hStop, init, hInit⟩ := ends_hunk hSide (hScript.side_le h hh) he hLine hOpen
  obtain ⟨front, back, hHunks⟩ := append_of_mem hh
  have hTurns := hScript.turns
  rw [hHunks, map_append, map_cons] at hTurns
  obtain ⟨before, hPre⟩ := apply_split base 0 (front.map (Hunk.edit side)) (h.edit side) (back.map (Hunk.edit side))
  rw [hPre] at hTurns
  have hRest : apply base (h.edit side).stop (back.map (Hunk.edit side)) = [] := by
    by_contra hNe
    refine hOpen (hSide.terminated line ?_)
    rw [← hTurns, hInit, append_assoc, ← append_assoc, dropLast_append_of_ne_nil (by simp),
      dropLast_append_of_ne_nil hNe]
    simp
  have hBase := hScript.base_le h hh
  cases back with
  | nil =>
    have hLen : base.length ≤ h.start + h.count := drop_eq_nil_iff.mp hRest
    omega
  | cons next back =>
    -- The line between the two hunks is a line of the other side too.
    have hGap : h.start + h.count < next.start := by
      rw [hHunks, pairwise_append] at hSeparated
      exact rel_of_pairwise_cons hSeparated.2.1 mem_cons_self
    have hNext := hScript.base_le next (by rw [hHunks]; simp)
    have hSlice : slice base (h.start + h.count) next.start = [] := (append_eq_nil_iff.mp hRest).1
    have hLen := @length_slice Line base (h.start + h.count) next.start (by omega)
    rw [hSlice, length_nil] at hLen
    omega

theorem neat_editsOf : Neat base.length (editsOf side hunks) where
  apart := apart_of_before hScript.before_editsOf
  fits := hScript.fits_editsOf
  isLine e he line hLine := by
    obtain ⟨h, _, he⟩ := mem_flatMap.mp he
    exact hSide.isLine line (mem_of_mem_slice (lines_of_mem_edits he line hLine))
  inner e he := by
    obtain ⟨h, _, he⟩ := mem_flatMap.mp he
    exact inner_of_mem_edits hSide he
  open_end _ he _ hLine hOpen := open_end_of_mem hScript hSide hSeparated he hLine hOpen

theorem appends_nothing (hLast : base.getLast? = some line) (hOpen : ¬ Terminated line)
    (hf : f ∈ editsOf side hunks) (hStart : f.start = base.length) (hStop : f.stop = base.length) : f.lines = [] := by
  by_contra hLines
  have hNeat := neat_editsOf hScript hSide hSeparated
  have hPos : 0 < base.length := by
    rw [length_pos_iff]
    rintro rfl
    cases hLast
  have hFree : covered (editsOf side hunks) (base.length - 1) = false := covered_eq_false fun g hg hIn => by
    have hWithin := (hNeat.fits g hg).within
    exact not_touching hScript hSeparated hg hf (by omega) (by omega) (by omega)
  have hBody : line ∈ body base (editsOf side hunks) := by
    refine mem_flatMap.mpr ⟨_, mem_range.mpr (Nat.sub_lt hPos Nat.one_pos), ?_⟩
    rw [patchedAt_uncovered hFree, ← getLast?_eq_getElem?, hLast]
    simp
  have hSplit := patched_eq_body base hNeat.fits
  rw [hScript.patched_editsOf, insertedAt_eq_lines hNeat.apart hf hStart hStop] at hSplit
  refine hOpen (hSide.terminated line ?_)
  rw [hSplit, dropLast_append_of_ne_nil hLines]
  exact mem_append_left _ hBody

end Script

variable {env : Env} (git : Honest env)

/-- Between two hunks stands at least one line that both sides share. -/
def Honest.Separated : Prop :=
  ∀ original side, (git.hunks original side).Pairwise fun h h' => h.start + h.count < h'.start

theorem Honest.mem_merged {e : Edit Line} (h : e ∈ git.merged original own incoming) :
    ∃ side, (side = own ∨ side = incoming) ∧ e ∈ git.edits original side := by
  rcases mem_append.mp h with h | h
  · exact ⟨own, .inl rfl, h⟩
  · exact ⟨incoming, .inr rfl, (mem_filter.mp h).1⟩

theorem Honest.neat_merged (hSeparated : git.Separated) (original own incoming : Bytes) :
    Neat (sourceTextLines original).length (git.merged original own incoming) := by
  have hNeat side := neat_editsOf (git.script original side) (proper_sourceTextLines side) (hSeparated original side)
  refine ⟨git.apart_merged original own incoming, git.fits_merged original own incoming, ?_, ?_, ?_⟩
  all_goals
    intro e he
    obtain ⟨side, _, he⟩ := git.mem_merged he
  · exact (hNeat side).isLine e he
  · exact (hNeat side).inner e he
  · exact (hNeat side).open_end e he

theorem Honest.nothing_appended (hSeparated : git.Separated) (original own incoming : Bytes)
    (hLast : (sourceTextLines original).getLast? = some line) (hOpen : ¬ Terminated line) :
    insertedAt (git.merged original own incoming) (sourceTextLines original).length = [] := by
  rw [eq_nil_iff_forall_not_mem]
  intro appended hAppended
  obtain ⟨f, hf, ⟨hStart, hStop⟩, hMem⟩ := mem_chosen hAppended
  obtain ⟨side, _, hf⟩ := git.mem_merged hf
  rw [appends_nothing (git.script original side) (proper_sourceTextLines side) (hSeparated original side) hLast hOpen
    hf hStart hStop] at hMem
  cases hMem

def knownLines (original own incoming : Bytes) : List Line :=
  (sourceTextLines original ++ (sourceTextLines own ++ sourceTextLines incoming)).map bare

theorem Honest.known_of_patched (h : line ∈ patched (sourceTextLines original) (git.merged original own incoming)) :
    line ∈ sourceTextLines original ++ (sourceTextLines own ++ sourceTextLines incoming) := by
  have hEdit e (he : e ∈ git.merged original own incoming) (hLine : line ∈ e.lines) :
      line ∈ sourceTextLines original ++ (sourceTextLines own ++ sourceTextLines incoming) := by
    obtain ⟨side, hSide, he⟩ := git.mem_merged he
    obtain ⟨hunk, _, he⟩ := mem_flatMap.mp he
    have hMem := mem_of_mem_slice (lines_of_mem_edits he line hLine)
    rcases hSide with rfl | rfl <;> simp [hMem]
  obtain ⟨p, _, hp⟩ := mem_flatMap.mp h
  rcases mem_append.mp hp with hp | hp
  · obtain ⟨e, he, _, hLine⟩ := mem_chosen hp
    exact hEdit e he hLine
  rcases mem_append.mp hp with hp | hp
  · obtain ⟨e, he, _, hLine⟩ := mem_chosen hp
    exact hEdit e he hLine
  split at hp
  · cases hp
  · exact mem_append_left _ (mem_of_getElem? (Option.mem_toList.mp hp))

theorem Honest.isLine_of_patched (h : line ∈ patched (sourceTextLines original) (git.merged original own incoming)) :
    IsLine line := by
  rcases mem_append.mp (git.known_of_patched h) with h | h
  · exact (proper_sourceTextLines original).isLine line h
  rcases mem_append.mp h with h | h
  · exact (proper_sourceTextLines own).isLine line h
  · exact (proper_sourceTextLines incoming).isLine line h

theorem Neat.lines_patched {base : List Line} {edits : List (Edit Line)} (h : Neat base.length edits) (hBase : Proper base)
    (hEnd : ∀ line, base.getLast? = some line → ¬ Terminated line → insertedAt edits base.length = [])
    (hIsLine : ∀ line ∈ patched base edits, IsLine line) :
    ((∀ u v, ¬ Clash base.length edits u v) ∧ sourceTextLines (patched base edits).flatten = patched base edits) ∨
      ∃ front u v back, patched base edits = front ++ u :: v :: back ∧ Clash base.length edits u v ∧
        (∀ u' v', Clash base.length edits u' v' → u' = u ∧ v' = v) ∧
        sourceTextLines (patched base edits).flatten = front ++ (u ++ v) :: back := by
  have hSplit := patched_eq_body base h.fits
  have hInner := h.body_inner hBase
  have hTailInner : ∀ line ∈ (insertedAt edits base.length).dropLast, Terminated line := h.inserted_inner
  by_cases hClash : ∃ u v, Clash base.length edits u v
  · obtain ⟨u, v, hClash⟩ := hClash
    obtain ⟨front, back, hBody, hTail⟩ := h.joined_of_clash hClash
    have hAll : patched base edits = front ++ u :: v :: back := by
      rw [hSplit, hBody, hTail, append_assoc]
      rfl
    have hOpen : ¬ Terminated u := by
      obtain ⟨e, _, f, _, _, _, _, _, hOpen, _⟩ := hClash
      exact hOpen
    refine .inr ⟨front, u, v, back, hAll, hClash, fun u' v' hOther => ?_, ?_⟩
    · obtain ⟨front', back', hBody', hTail'⟩ := h.joined_of_clash hOther
      rw [hBody] at hBody'
      rw [hTail] at hTail'
      exact ⟨(append_inj_right' hBody' rfl |> singleton_inj.mp).symm, (List.cons.inj hTail').1.symm⟩
    rw [hBody, dropLast_concat] at hInner
    rw [hTail] at hTailInner
    rw [hAll] at hIsLine ⊢
    exact sourceTextLines_joined hInner hIsLine hOpen hTailInner
  refine .inl ⟨fun u v h => hClash ⟨u, v, h⟩, sourceTextLines_flatten ⟨hIsLine, ?_⟩⟩
  rw [hSplit]
  by_cases hTail : insertedAt edits base.length = []
  · rw [hTail, append_nil]
    exact hInner
  rw [dropLast_append_of_ne_nil hTail]
  intro line hLine
  rcases mem_append.mp hLine with hLine | hLine
  · by_contra hOpen
    -- Only the last line of the body can be open, and then it runs into what is appended.
    obtain ⟨v, back, hBack⟩ := exists_cons_of_ne_nil hTail
    have hBody := eq_concat_of_mem hLine fun h => hOpen (hInner line h)
    exact hClash ⟨line, v, h.clash_of_joined hBase hEnd hBody hBack hOpen⟩
  · exact hTailInner line hLine

/-- The merge writes no line of its own, unless a line without terminator runs into one that is appended to it, and
what comes of it is by chance no line of the three texts. -/
theorem merge_fabricates_no_line_iff (hSeparated : git.Separated) {original own incoming result : Bytes}
    (hMerge : mergeLocalChanges env original own incoming = .ok result) :
    (∀ line ∈ sourceTextLines result, bare line ∈ knownLines original own incoming) ↔
      ∀ u v, Clash (sourceTextLines original).length (git.merged original own incoming) u v →
        bare (u ++ v) ∈ knownLines original own incoming := by
  have hKnown line h :
      bare line ∈ knownLines original own incoming := mem_map_of_mem (git.known_of_patched h)
  rw [(mergeLocalChanges_eq git original own incoming).eq hMerge]
  rcases (git.neat_merged hSeparated original own incoming).lines_patched (proper_sourceTextLines original)
    (fun _ => git.nothing_appended hSeparated original own incoming) fun _ => git.isLine_of_patched with
    ⟨hNone, hLines⟩ | ⟨front, u, v, back, hAll, hClash, hOnly, hLines⟩
  · rw [Honest.mergedText, hLines]
    exact ⟨fun _ u v hClash => absurd hClash (hNone u v), fun _ => hKnown⟩
  rw [Honest.mergedText, hLines]
  constructor
  · intro hEvery u' v' hOther
    obtain ⟨rfl, rfl⟩ := hOnly u' v' hOther
    exact hEvery (u' ++ v') (by simp)
  intro hJoined line hLine
  rw [hAll] at hKnown
  rcases mem_append.mp hLine with hLine | hLine
  · exact hKnown line (mem_append_left _ hLine)
  rcases mem_cons.mp hLine with rfl | hLine
  · exact hJoined u v hClash
  · exact hKnown line (by simp [hLine])

theorem separated_plainGit : plainGit.Separated := by
  intro original side
  change (plainHunks _ _).Pairwise _
  unfold plainHunks
  dsimp only
  split
  · exact List.Pairwise.nil
  · exact pairwise_singleton _ _

theorem merge_fabricates_no_line_appended :
    mergeLocalChanges plainEnv [49, 10, 50, 10] [51, 10, 52, 10] [49, 10, 50, 10, 53, 10] =
        .ok [51, 10, 52, 10, 53, 10] ∧
      ∀ u v, Clash (sourceTextLines [49, 10, 50, 10]).length
        (plainGit.merged [49, 10, 50, 10] [51, 10, 52, 10] [49, 10, 50, 10, 53, 10]) u v →
        bare (u ++ v) ∈ knownLines [49, 10, 50, 10] [51, 10, 52, 10] [49, 10, 50, 10, 53, 10] := by
  have hMerge : mergeLocalChanges plainEnv [49, 10, 50, 10] [51, 10, 52, 10] [49, 10, 50, 10, 53, 10] =
      .ok [51, 10, 52, 10, 53, 10] := by decide +kernel
  exact ⟨hMerge, (merge_fabricates_no_line_iff plainGit separated_plainGit hMerge).mp (by decide +kernel)⟩

theorem merge_joins_lines :
    mergeLocalChanges plainEnv [97, 10, 98, 10] [97, 10, 66] [97, 10, 98, 10, 99, 10] = .ok [97, 10, 66, 99, 10] ∧
      [66, 99, 10] ∈ sourceTextLines [97, 10, 66, 99, 10] ∧
      bare [66, 99, 10] ∉ knownLines [97, 10, 98, 10] [97, 10, 66] [97, 10, 98, 10, 99, 10] := by
  decide +kernel

end LocalModelWorks.SourceConfig.Merge
