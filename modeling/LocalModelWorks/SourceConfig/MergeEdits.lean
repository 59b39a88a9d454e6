import LocalModelWorks.SourceConfig.Merge

/-!
# What the merge makes of two scripts

The hunks are read back from the patch, the overlap test finds what it is meant to find, and
the loop over the sorted edits neither meets an edit out of place nor loses one.
-/

namespace LocalModelWorks.SourceConfig.Merge

open EditScript List

variable {env : Env} (git : Honest env)

theorem toNat_of_isDigit {c : Char} (h : c.isDigit = true) : 48 ≤ c.toNat ∧ c.toNat ≤ 57 := Char.isDigit_iff_toNat.mp h

theorem isSpace_of_isDigit {c : Char} (h : c.isDigit = true) : isSpace c = false := by
  obtain ⟨hLow, hHigh⟩ := toNat_of_isDigit h
  simp only [isSpace, Bool.or_eq_false_iff, Bool.and_eq_false_iff, decide_eq_false_iff_not]
  omega

theorem fieldsFrom_word {field word rest : Text} (hWord : ∀ c ∈ word, isSpace c = false)
    (hField : field.reverse ++ word ≠ []) :
    fieldsFrom field (word ++ ' ' :: rest) = (field.reverse ++ word) :: fieldsFrom [] rest := by
  induction word generalizing field with
  | nil =>
    have hNe : field ≠ [] := fun h => hField (by rw [h]; rfl)
    rw [nil_append, fieldsFrom, if_pos (by decide), if_neg hNe, append_nil]
  | cons c word ih =>
    have hTail := @ih (c :: field) (fun d hd => hWord d (mem_cons_of_mem c hd)) (by simp)
    rw [cons_append, fieldsFrom, if_neg (by simp [hWord c mem_cons_self]), hTail, reverse_cons,
      append_assoc, singleton_append]

theorem fieldsFrom_ne_nil {field : Text} (hField : field ≠ []) (text : Text) : fieldsFrom field text ≠ [] := by
  induction text generalizing field with
  | nil => rw [fieldsFrom, if_neg hField]; exact cons_ne_nil _ _
  | cons c text ih =>
    rw [fieldsFrom]
    by_cases hSpace : isSpace c = true
    · rw [if_pos hSpace, if_neg hField]
      exact cons_ne_nil _ _
    · rw [if_neg hSpace]
      exact ih (cons_ne_nil c field)

theorem rangeText_space (sign : Char) (hSign : isSpace sign = false) (start count : Nat) :
    ∀ c ∈ rangeText sign start count, isSpace c = false := by
  intro c hc
  rcases mem_cons.mp hc with rfl | hc
  · exact hSign
  split at hc
  · exact isSpace_of_isDigit (Json.isDigit_of_mem_repr hc)
  rcases mem_append.mp hc with hc | hc
  · exact isSpace_of_isDigit (Json.isDigit_of_mem_repr hc)
  rcases mem_cons.mp hc with rfl | hc
  · decide
  · exact isSpace_of_isDigit (Json.isDigit_of_mem_repr hc)

theorem fields_header (h : Hunk) (heading : Text) : ∃ last rest, fields (header h heading) =
      ['@', '@'] :: rangeText '-' h.start h.count :: rangeText '+' h.next h.size :: last :: rest := by
  have hLast : fieldsFrom ['@', '@'] heading ≠ [] := fieldsFrom_ne_nil (cons_ne_nil _ _) heading
  obtain ⟨last, rest, hRest⟩ := exists_cons_of_ne_nil hLast
  refine ⟨last, rest, ?_⟩
  have hTail : fieldsFrom [] ('@' :: '@' :: heading) = last :: rest := hRest
  have hSecond := @fieldsFrom_word [] (rangeText '+' h.next h.size) ('@' :: '@' :: heading)
    (rangeText_space '+' (by decide) _ _) (by simp [rangeText])
  have hFirst := @fieldsFrom_word [] (rangeText '-' h.start h.count)
    (rangeText '+' h.next h.size ++ ' ' :: '@' :: '@' :: heading) (rangeText_space '-' (by decide) _ _)
    (by simp [rangeText])
  have hMarks := @fieldsFrom_word [] ['@', '@'] (rangeText '-' h.start h.count ++
    ' ' :: (rangeText '+' h.next h.size ++ ' ' :: '@' :: '@' :: heading)) (by simp [isSpace]) (cons_ne_nil _ _)
  rw [hFirst, hSecond, hTail] at hMarks
  exact hMarks

theorem digitsValue_repr (n : Nat) : digitsValue n.repr.toList = some n := by
  have hDigits : n.repr.toList.all Char.isDigit = true := all_eq_true.mpr fun c hc => Json.isDigit_of_mem_repr hc
  unfold digitsValue
  rw [hDigits, if_neg (by simp)]
  rw [Nat.repr_eq_ofList_toDigits, String.toList_ofList, Nat.ofDigitChars_toDigits (by decide) (by decide)]

theorem atoi_repr {n : Nat} (h : n < 9223372036854775808) : atoi n.repr.toList = some (n : Int) := by
  have hNotSign c rest (hc : c.isDigit = false) : n.repr.toList ≠ c :: rest := by
    intro hEq
    have hDigit : c.isDigit = true := Json.isDigit_of_mem_repr (hEq ▸ mem_cons_self)
    rw [hc] at hDigit
    cases hDigit
  unfold atoi
  split
  next rest hEq => exact absurd hEq (hNotSign '-' rest (by decide))
  next rest hEq => exact absurd hEq (hNotSign '+' rest (by decide))
  · rw [digitsValue_repr, Option.bind_some, if_pos h]

theorem comma_notMem_repr (n : Nat) : ',' ∉ n.repr.toList := fun h => absurd (Json.isDigit_of_mem_repr h) (by decide)

theorem cutComma_of_notMem {text : Text} (h : ',' ∉ text) : cutComma text = (text, none) := by
  induction text with
  | nil => rfl
  | cons c text ih =>
    obtain ⟨hHead, hTail⟩ := ne_and_not_mem_of_not_mem_cons h
    rw [cutComma.eq_3 c text fun hc => hHead hc.symm, ih hTail]

theorem cutComma_append {text rest : Text} (h : ',' ∉ text) : cutComma (text ++ ',' :: rest) = (text, some rest) := by
  induction text with
  | nil => rfl
  | cons c text ih =>
    obtain ⟨hHead, hTail⟩ := ne_and_not_mem_of_not_mem_cons h
    rw [cons_append, cutComma.eq_3 c _ fun hc => hHead hc.symm, ih hTail]

theorem rangeFrom_natCast (start count : Nat) :
    rangeFrom (if count = 0 then start else start + 1 : Nat) count = .ok (start, count) := by
  have hNonneg (n : Nat) : ¬ (n : Int) < 0 := by omega
  unfold rangeFrom
  by_cases hZero : count = 0
  · subst hZero
    simp [hNonneg]
  have hFirst : ((start + 1 : Nat) : Int) - 1 = start := by omega
  have hCount : (count : Int) ≠ 0 := by omega
  rw [if_neg hZero, if_pos hCount, hFirst, if_neg (hNonneg _), Int.toNat_natCast, Int.toNat_natCast]

theorem sourceTextRange_rangeText (sign : Char) {start count : Nat} (hStart : start + 1 < 9223372036854775808)
    (hCount : count < 9223372036854775808) : sourceTextRange (rangeText sign start count) = .ok (start, count) := by
  unfold sourceTextRange rangeText
  rw [drop_one, tail_cons]
  by_cases hOne : count = 1
  · subst hOne
    rw [if_pos rfl, cutComma_of_notMem (comma_notMem_repr _)]
    dsimp only
    rw [atoi_repr hStart]
    exact (if_neg (by omega)).trans (rangeFrom_natCast start 1)
  have hFirst : (if count = 0 then start else start + 1) < 9223372036854775808 := by split <;> omega
  rw [if_neg hOne, cutComma_append (comma_notMem_repr _)]
  dsimp only
  rw [atoi_repr hFirst, atoi_repr hCount]
  exact ((if_neg (by omega)).trans (if_neg (by omega))).trans (rangeFrom_natCast start count)

variable {lines : List Line} {original own incoming : Bytes}

theorem parseHunk_header {h : Hunk} (heading : Text) (hBase : h.start + h.count < 9223372036854775807)
    (hSide : h.next + h.size ≤ lines.length) (hLines : lines.length < 9223372036854775807) :
    parseHunk lines (header h heading) = .ok h := by
  obtain ⟨last, rest, hFields⟩ := fields_header h heading
  unfold parseHunk
  rw [hFields]
  dsimp only
  rw [sourceTextRange_rangeText '-' (by omega) (by omega), sourceTextRange_rangeText '+' (by omega) (by omega)]
  dsimp only
  rw [if_neg (by simp; omega)]

theorem parsePatch_eq {patch : List Text} {hunks : List Hunk} (edits : List (Edit Line))
    (hPatch : List.Forall₂ (fun h line => ∃ heading, line = header h heading) hunks (patch.filter isHeader))
    (hBase : ∀ h ∈ hunks, h.start + h.count < 9223372036854775807)
    (hSide : ∀ h ∈ hunks, h.next + h.size ≤ lines.length) (hLines : lines.length < 9223372036854775807) :
    parsePatch lines edits patch = .ok (edits ++ editsOf lines hunks) ∨
      parsePatch lines edits patch = .error .hunkLimit ∧ 4096 < (edits ++ editsOf lines hunks).length := by
  induction patch generalizing hunks edits with
  | nil =>
    cases hPatch
    exact .inl (by rw [parsePatch, editsOf, flatMap_nil, append_nil])
  | cons line patch ih =>
    cases hHeader : isHeader line with
    | false =>
      rw [filter_cons_of_neg (by simp [hHeader])] at hPatch
      rw [parsePatch, hHeader]
      exact ih edits hPatch hBase hSide
    | true =>
      rw [filter_cons_of_pos hHeader] at hPatch
      cases hPatch with
      | @cons h _ hunks _ hFirst hRest =>
        obtain ⟨heading, rfl⟩ := hFirst
        have hParsed : parseHunk lines (header h heading) = .ok h :=
          parseHunk_header heading (hBase h mem_cons_self) (hSide h mem_cons_self) hLines
        have hAll : edits ++ editsOf lines (h :: hunks) = (edits ++ h.edits lines) ++ editsOf lines hunks := by
          rw [editsOf, append_assoc]
          rfl
        rw [parsePatch, hHeader, if_neg (by simp), hParsed, hAll]
        dsimp only
        split
        next hMany =>
          refine .inr ⟨rfl, ?_⟩
          rw [length_append]
          omega
        · exact ih (edits ++ h.edits lines) hRest (fun h' hh' => hBase h' (mem_cons_of_mem h hh'))
            fun h' hh' => hSide h' (mem_cons_of_mem h hh')

theorem flatten_sourceTextLines (text : Bytes) : (sourceTextLines text).flatten = text := by
  induction text with
  | nil => rfl
  | cons c text ih =>
    rw [sourceTextLines]
    split
    · rw [flatten_cons, ih]
      rfl
    split
    next hRest =>
      rw [hRest] at ih
      rw [← ih]
      rfl
    next line lines hRest =>
      rw [hRest] at ih
      rw [← ih]
      rfl

theorem ne_nil_of_mem_sourceTextLines {text : Bytes} {line : Line} (h : line ∈ sourceTextLines text) : line ≠ [] := by
  induction text generalizing line with
  | nil => cases h
  | cons c text ih =>
    rw [sourceTextLines] at h
    split at h
    · rcases mem_cons.mp h with rfl | h
      · exact cons_ne_nil _ _
      · exact ih h
    split at h
    · rw [mem_singleton.mp h]
      exact cons_ne_nil _ _
    next head lines hRest =>
      rcases mem_cons.mp h with rfl | h
      · exact cons_ne_nil _ _
      · exact ih (hRest ▸ mem_cons_of_mem head h)

theorem length_le_flatten (h : ∀ line ∈ lines, line ≠ []) : lines.length ≤ lines.flatten.length := by
  induction lines with
  | nil => exact Nat.le_refl 0
  | cons line lines ih =>
    have hTail := ih fun other hOther => h other (mem_cons_of_mem line hOther)
    have hHead := length_pos_of_ne_nil (h line mem_cons_self)
    rw [flatten_cons, length_append, length_cons]
    omega

theorem length_sourceTextLines_le (text : Bytes) : (sourceTextLines text).length ≤ text.length := by
  calc
    (sourceTextLines text).length ≤ (sourceTextLines text).flatten.length :=
      length_le_flatten fun _ hLine => ne_nil_of_mem_sourceTextLines hLine
    _ = text.length := by rw [flatten_sourceTextLines]

theorem parsePatch_edits {side : Bytes} {patch : List Text} (hOrig : original.length ≤ maxSourceBytes)
    (hLines : (sourceTextLines side).length ≤ 65536) (hPatch : env.git original side = .ok patch) :
    parsePatch (sourceTextLines side) [] patch = .ok (git.edits original side) ∨
      parsePatch (sourceTextLines side) [] patch = .error .hunkLimit ∧ 4096 < (git.edits original side).length := by
  have hScript := git.script original side
  have hBaseLines := length_sourceTextLines_le original
  unfold maxSourceBytes at hOrig
  refine parsePatch_eq [] (git.headed hPatch) (fun h hh => ?_) hScript.side_le (by omega)
  have := hScript.base_le h hh
  omega

def Gives {α : Type} (r : Except MergeError α) (value : α) : Prop := r = .ok value ∨ ∃ e, r = .error e ∧ e ≠ .diffInvalid

theorem Gives.eq {α : Type} {r : Except MergeError α} {value v : α} (h : Gives r value) (hOk : r = .ok v) : v = value := by
  rcases h with rfl | ⟨e, rfl, _⟩
  · exact (Except.ok.inj hOk).symm
  · cases hOk

theorem sourceTextEdits_eq (side : Bytes) (hOrig : original.length ≤ maxSourceBytes) :
    Gives (sourceTextEdits env original side) (git.edits original side) := by
  unfold sourceTextEdits
  dsimp only
  split
  · exact .inr ⟨_, rfl, by simp⟩
  split
  · exact .inr ⟨_, rfl, by simp⟩
  rename_i patch hPatch
  rcases parsePatch_edits git hOrig (by omega) hPatch with hOk | ⟨hLimit, _⟩
  · exact .inl hOk
  · exact .inr ⟨_, hLimit, by simp⟩

theorem sourceTextEdits_ok {side : Bytes} {patch : List Text} (hOrig : original.length ≤ maxSourceBytes)
    (hLines : (sourceTextLines side).length ≤ 65536) (hRun : env.git original side = .ok patch)
    (hEdits : (git.edits original side).length ≤ 4096) :
    sourceTextEdits env original side = .ok (git.edits original side) := by
  unfold sourceTextEdits
  rw [if_neg (by omega), hRun]
  rcases parsePatch_edits git hOrig hLines hRun with hOk | ⟨_, hMany⟩
  · exact hOk
  · exact absurd hEdits (by omega)

theorem Honest.before_edits (original side : Bytes) : (git.edits original side).Pairwise Edit.Before :=
  (git.script original side).before_editsOf

theorem Honest.fits_edits (original side : Bytes) :
    ∀ e ∈ git.edits original side, e.Fits (sourceTextLines original).length := (git.script original side).fits_editsOf

theorem overlap_eq (own candidate : Edit Line) : overlap own candidate = candidate.overlaps own := by
  rw [Bool.eq_iff_iff, Edit.overlaps_iff]
  simp only [overlap, Bool.or_eq_true, Bool.and_eq_true, decide_eq_true_eq]
  omega

theorem overlapsLocal_eq {own : List (Edit Line)} {n : Nat} (candidate : Edit Line) (hPre : own.Pairwise Edit.Before)
    (hFits : ∀ e ∈ own, e.Fits n) : overlapsLocal candidate own = own.any (candidate.overlaps ·) := by
  induction own with
  | nil => rfl
  | cons first rest ih =>
    obtain ⟨hFirst, hRest⟩ := pairwise_cons.mp hPre
    have hOrd := (hFits first mem_cons_self).ordered
    rw [overlapsLocal, overlap_eq, any_cons]
    by_cases hBehind : candidate.stop < first.start
    · rw [if_pos hBehind]
      have hNone e (he : first.start ≤ e.start) : candidate.overlaps e = false := by
        rw [Bool.eq_false_iff, ne_eq, Edit.overlaps_iff]
        omega
      have hTail : rest.any (candidate.overlaps ·) = false := any_eq_false.mpr fun e he => by
        have := (hFirst e he).stop_le
        rw [hNone e (by omega)]
        simp
      rw [hNone first (Nat.le_refl _), hTail]
      rfl
    · rw [if_neg hBehind, ih hRest fun e he => hFits e (mem_cons_of_mem first he)]
      cases candidate.overlaps first <;> rfl

theorem Honest.apart_merged (original own incoming : Bytes) : Apart (git.merged original own incoming) := by
  refine pairwise_append.mpr ⟨apart_of_before (git.before_edits original own),
    (apart_of_before (git.before_edits original incoming)).filter _, fun e he f hf => ?_⟩
  have hNone := (mem_filter.mp hf).2
  rw [Bool.not_eq_true', any_eq_false] at hNone
  rw [Edit.overlaps_comm]
  exact Bool.eq_false_iff.mpr (hNone e he)

theorem Honest.fits_merged (original own incoming : Bytes) :
    ∀ e ∈ git.merged original own incoming, e.Fits (sourceTextLines original).length := by
  intro e he
  rcases mem_append.mp he with he | he
  · exact git.fits_edits original own e he
  · exact git.fits_edits original incoming e (mem_filter.mp he).1

theorem writeEdits_eq {edits : List (Edit Line)} {position : Nat} (result : Bytes)
    (hPre : edits.Pairwise Edit.Before) (hFits : ∀ e ∈ edits, e.Fits lines.length)
    (hStarts : ∀ e ∈ edits, position ≤ e.start) :
    writeEdits lines position result edits =
      if maxSourceBytes < (result ++ (apply lines position edits).flatten).length then .error .mergeTooLarge
      else .ok (result ++ (apply lines position edits).flatten) := by
  induction edits generalizing position result with
  | nil => rfl
  | cons edit rest ih =>
    obtain ⟨hFirst, hRest⟩ := pairwise_cons.mp hPre
    have hWithin := (hFits edit mem_cons_self).within
    have hStart := hStarts edit mem_cons_self
    have hIH := ih (result ++ (slice lines position edit.start).flatten ++ edit.lines.flatten) hRest
      (fun e he => hFits e (mem_cons_of_mem edit he)) fun e he => (hFirst e he).stop_le
    have hText : result ++ (slice lines position edit.start).flatten ++ edit.lines.flatten ++
        (apply lines edit.stop rest).flatten = result ++ (apply lines position (edit :: rest)).flatten := by
      rw [apply, flatten_append, flatten_append, append_assoc, append_assoc]
    rw [hText] at hIH
    rw [writeEdits, if_neg (by simp; omega)]
    dsimp only
    rw [hIH]
    split
    next hLarge =>
      rw [if_pos (by simp only [apply, flatten_append, length_append] at hLarge ⊢; omega)]
    · rfl

theorem mergeEdits_eq (original own incoming : Bytes) :
    mergeEdits original (git.edits original own) (git.edits original incoming) =
      if maxSourceBytes < (git.mergedText original own incoming).length then .error .mergeTooLarge
      else .ok (git.mergedText original own incoming) := by
  have hKept : (git.edits original incoming).filter (fun edit => !overlapsLocal edit (git.edits original own)) =
      (git.edits original incoming).filter fun edit => !(git.edits original own).any (edit.overlaps ·) := by
    congr 1
    funext edit
    rw [overlapsLocal_eq edit (git.before_edits original own) (git.fits_edits original own)]
  have hFits := git.fits_merged original own incoming
  have hApart := git.apart_merged original own incoming
  have hWrote := writeEdits_eq [] (hApart.before_sort hFits)
    (fun e he => hFits e ((sort_perm _).mem_iff.mp he)) fun _ _ => Nat.zero_le _
  rw [hApart.apply_sort hFits] at hWrote
  rw [mergeEdits, hKept]
  exact hWrote

theorem lineMerge_eq (hSizes : [original, own, incoming].any (maxSourceBytes < ·.length) = false) :
    Gives (lineMerge env original own incoming) (git.mergedText original own incoming) := by
  simp only [any_cons, Bool.or_eq_false_iff, decide_eq_false_iff_not, not_lt] at hSizes
  unfold lineMerge
  split
  · exact .inr ⟨_, rfl, by simp⟩
  rcases sourceTextEdits_eq git own hSizes.1 with hOwn | ⟨e, hOwn, hError⟩
  · rcases sourceTextEdits_eq git incoming hSizes.1 with hNew | ⟨e, hNew, hError⟩
    · rw [hOwn, hNew]
      dsimp only
      rw [mergeEdits_eq git]
      split
      · exact .inr ⟨_, rfl, by simp⟩
      · exact .inl rfl
    · rw [hOwn, hNew]
      exact .inr ⟨e, rfl, hError⟩
  · rw [hOwn]
    exact .inr ⟨e, rfl, hError⟩

theorem Honest.edits_same (original : Bytes) : git.edits original original = [] := by
  rw [edits, git.same]
  rfl

theorem Honest.patched_edits (original side : Bytes) :
    patched (sourceTextLines original) (git.edits original side) = sourceTextLines side :=
  (git.script original side).patched_editsOf

theorem Honest.mergedText_own_same (original incoming : Bytes) : git.mergedText original original incoming = incoming := by
  have hMerged : git.merged original original incoming = git.edits original incoming := by
    rw [merged, git.edits_same]
    simp
  rw [mergedText, hMerged, git.patched_edits, flatten_sourceTextLines]

theorem Honest.mergedText_incoming_same (original own : Bytes) : git.mergedText original own original = own := by
  have hMerged : git.merged original own original = git.edits original own := by
    rw [merged, git.edits_same original, filter_nil, append_nil]
  rw [mergedText, hMerged, git.patched_edits, flatten_sourceTextLines]

theorem Honest.mergedText_both_same (original own : Bytes) : git.mergedText original own own = own := by
  have hNone : (git.edits original own).filter (fun edit => !(git.edits original own).any (edit.overlaps ·)) = [] := by
    rw [filter_eq_nil_iff]
    intro e he
    have hSelf := Edit.overlaps_self (git.fits_edits original own e he).ordered
    have hAny : (git.edits original own).any (e.overlaps ·) = true := any_eq_true.mpr ⟨e, he, hSelf⟩
    rw [hAny]
    simp
  rw [mergedText, merged, hNone, append_nil, git.patched_edits, flatten_sourceTextLines]

theorem checkText_error {texts : List Bytes} {e : MergeError} (h : checkText texts = .error e) : e ≠ .diffInvalid := by
  induction texts with
  | nil => cases h
  | cons data rest ih =>
    rw [checkText] at h
    split at h
    · cases h
      simp
    split at h
    · cases h
      simp
    · exact ih h

theorem mergeLocalChanges_eq (original own incoming : Bytes) :
    Gives (mergeLocalChanges env original own incoming) (git.mergedText original own incoming) := by
  unfold mergeLocalChanges
  split
  · exact .inr ⟨_, rfl, by simp⟩
  rename_i hSizes
  split
  next hSame =>
    rcases hSame with rfl | rfl
    · exact .inl (by rw [git.mergedText_own_same])
    · exact .inl (by rw [git.mergedText_both_same])
  · split
    next hSame =>
      subst hSame
      exact .inl (by rw [git.mergedText_incoming_same])
    · split
      next e hText => exact .inr ⟨e, rfl, checkText_error hText⟩
      · exact lineMerge_eq git (by simpa using hSizes)

structure Within (original own incoming : Bytes) : Prop where
  sizes : [original, own, incoming].any (maxSourceBytes < ·.length) = false
  text : checkText [original, own, incoming] = .ok ()
  staging : env.staging = none
  ownRuns : ∃ patch, env.git original own = .ok patch
  incomingRuns : ∃ patch, env.git original incoming = .ok patch
  ownLines : (sourceTextLines own).length ≤ 65536
  incomingLines : (sourceTextLines incoming).length ≤ 65536
  ownEdits : (git.edits original own).length ≤ 4096
  incomingEdits : (git.edits original incoming).length ≤ 4096
  result : (git.mergedText original own incoming).length ≤ maxSourceBytes

theorem lineMerge_within (h : Within git original own incoming) :
    lineMerge env original own incoming = .ok (git.mergedText original own incoming) := by
  have hSizes := h.sizes
  simp only [any_cons, Bool.or_eq_false_iff, decide_eq_false_iff_not, not_lt] at hSizes
  obtain ⟨ownPatch, hOwn⟩ := h.ownRuns
  obtain ⟨incomingPatch, hNew⟩ := h.incomingRuns
  rw [lineMerge, h.staging, sourceTextEdits_ok git hSizes.1 h.ownLines hOwn h.ownEdits,
    sourceTextEdits_ok git hSizes.1 h.incomingLines hNew h.incomingEdits]
  dsimp only
  rw [mergeEdits_eq git, if_neg (Nat.not_lt.mpr h.result)]

theorem mergeLocalChanges_within (h : Within git original own incoming) :
    mergeLocalChanges env original own incoming = .ok (git.mergedText original own incoming) := by
  rcases mergeLocalChanges_eq git original own incoming with hOk | ⟨e, hError, _⟩
  · exact hOk
  unfold mergeLocalChanges at hError
  rw [h.sizes, if_neg (by simp), h.text, lineMerge_within git h] at hError
  split at hError
  · cases hError
  · split at hError <;> cases hError

/-- The merge never finds the diff invalid; what it returns, and what the line merge returns on its own, is the
original with all local edits and the incoming edits that overlap none of them; it returns within its bounds; and
where it takes a shortcut that text is the one the shortcut returns. -/
theorem merge_applies_local_and_independent_edits (original own incoming : Bytes) :
    mergeLocalChanges env original own incoming ≠ .error .diffInvalid ∧
      (∀ result, mergeLocalChanges env original own incoming = .ok result ∨
        ([original, own, incoming].any (maxSourceBytes < ·.length) = false ∧
          lineMerge env original own incoming = .ok result) →
        result = git.mergedText original own incoming) ∧
      (Within git original own incoming →
        mergeLocalChanges env original own incoming = .ok (git.mergedText original own incoming)) ∧
      (original = own ∨ own = incoming → git.mergedText original own incoming = incoming) ∧
      (original = incoming → git.mergedText original own incoming = own) := by
  refine ⟨?_, ?_, mergeLocalChanges_within git, ?_, ?_⟩
  · rcases mergeLocalChanges_eq git original own incoming with hOk | ⟨e, hError, hValid⟩
    · rw [hOk]
      simp
    · rw [hError]
      simpa using hValid
  · rintro result (hRes | ⟨hSizes, hRes⟩)
    · exact (mergeLocalChanges_eq git original own incoming).eq hRes
    · exact (lineMerge_eq git hSizes).eq hRes
  · rintro (rfl | rfl)
    · exact git.mergedText_own_same _ _
    · exact git.mergedText_both_same _ _
  · rintro rfl
    exact git.mergedText_incoming_same _ _

def commonPrefix : List Line → List Line → Nat
  | a :: as, b :: bs => if a = b then commonPrefix as bs + 1 else 0
  | _, _ => 0

variable (base side : List Line)

theorem commonPrefix_spec : commonPrefix base side ≤ base.length ∧ commonPrefix base side ≤ side.length ∧
      base.take (commonPrefix base side) = side.take (commonPrefix base side) := by
  induction base generalizing side with
  | nil => exact ⟨Nat.le_refl 0, Nat.zero_le _, rfl⟩
  | cons a base ih =>
    cases side with
    | nil => exact ⟨Nat.zero_le _, Nat.le_refl 0, rfl⟩
    | cons b side =>
      obtain ⟨hBase, hSide, hTake⟩ := ih side
      rw [commonPrefix]
      split
      next hEq =>
        refine ⟨Nat.succ_le_succ hBase, Nat.succ_le_succ hSide, ?_⟩
        rw [take_succ_cons, take_succ_cons, hEq, hTake]
      · exact ⟨Nat.zero_le _, Nat.zero_le _, rfl⟩

theorem commonPrefix_self (base : List Line) : commonPrefix base base = base.length := by
  induction base with
  | nil => rfl
  | cons a base ih => rw [commonPrefix, if_pos rfl, ih, length_cons]

def plainHunks : List Hunk :=
  let shared := commonPrefix base side
  if shared = base.length ∧ shared = side.length then []
  else [⟨shared, base.length - shared, shared, side.length - shared⟩]

theorem script_plainHunks : Script base side (plainHunks base side) := by
  obtain ⟨hBase, hSide, hTake⟩ := commonPrefix_spec base side
  unfold plainHunks
  dsimp only
  split
  next hBoth =>
    refine ⟨List.Pairwise.nil, (fun _ h => by cases h), (fun _ h => by cases h), ?_⟩
    rw [take_of_length_le (by omega), take_of_length_le (by omega)] at hTake
    exact hTake
  · refine ⟨pairwise_singleton _ _, fun h hh => ?_, fun h hh => ?_, ?_⟩
    · rw [mem_singleton.mp hh]
      exact (Nat.add_sub_cancel' hBase).le
    · rw [mem_singleton.mp hh]
      exact (Nat.add_sub_cancel' hSide).le
    have hRest : (side.drop (commonPrefix base side)).take (side.length - commonPrefix base side) =
        side.drop (commonPrefix base side) := take_of_length_le (by rw [length_drop])
    simp only [map_singleton, apply, Hunk.edit, slice, Nat.add_sub_cancel' hBase, Nat.add_sub_cancel_left,
      drop_zero, Nat.sub_zero, drop_length, append_nil, hTake, hRest, take_append_drop]

def plainEnv : Env where
  staging := none
  git original side := .ok ((plainHunks (sourceTextLines original) (sourceTextLines side)).map (header · []))

theorem isHeader_header (h : Hunk) (heading : Text) : isHeader (header h heading) = true := rfl

def plainGit : Honest plainEnv where
  hunks original side := plainHunks (sourceTextLines original) (sourceTextLines side)
  headed {original side patch} hRun := by
    cases hRun
    rw [filter_eq_self.mpr fun line hLine => ?_]
    · rw [forall₂_map_right_iff]
      exact forall₂_same.mpr fun h _ => ⟨[], rfl⟩
    · obtain ⟨h, _, rfl⟩ := mem_map.mp hLine
      exact isHeader_header h []
  script _ _ := script_plainHunks _ _
  same original := by
    rw [plainHunks, commonPrefix_self]
    simp

theorem merge_applies_local_and_independent_edits_appended :
    Within plainGit [49, 10, 50, 10] [51, 10, 52, 10] [49, 10, 50, 10, 53, 10] ∧
      mergeLocalChanges plainEnv [49, 10, 50, 10] [51, 10, 52, 10] [49, 10, 50, 10, 53, 10] =
        .ok (plainGit.mergedText [49, 10, 50, 10] [51, 10, 52, 10] [49, 10, 50, 10, 53, 10]) ∧
      plainGit.mergedText [49, 10, 50, 10] [51, 10, 52, 10] [49, 10, 50, 10, 53, 10] = [51, 10, 52, 10, 53, 10] := by
  have hWithin : Within plainGit [49, 10, 50, 10] [51, 10, 52, 10] [49, 10, 50, 10, 53, 10] :=
    ⟨by decide +kernel, by decide +kernel, rfl, ⟨_, rfl⟩, ⟨_, rfl⟩, by decide +kernel, by decide +kernel,
      by decide +kernel, by decide +kernel, by decide +kernel⟩
  exact ⟨hWithin, (merge_applies_local_and_independent_edits plainGit _ _ _).2.2.1 hWithin, by decide +kernel⟩

end LocalModelWorks.SourceConfig.Merge
