import LocalModelWorks.Downloads.Resource
import LocalModelWorks.SourceConfig.Args
import LocalModelWorks.SourceConfig.Merge

/-!
# Applying resolved edits (`config.go`)

`ValidateResolved` and `Apply` sort the edits of a file by their starts and go through the
ranges once. What they accept is a set of separate ranges, and what `Apply` writes is the
original with just these ranges replaced.
-/

namespace LocalModelWorks.SourceConfig

open List
open Merge (Bytes utf8Valid isContinuation maxSourceBytes)
open Shell (Text)
open EditScript (slice Edit patched patched_perm apart_of_before)

structure ResolvedEdit where
  start : Int
  stop : Int
  replacement : Bytes
  deriving DecidableEq

structure ResolvedFile where
  path : Text
  sha256 : Text
  edits : List ResolvedEdit
  deriving DecidableEq

def safeComponent (component : Text) : Bool :=
  component ≠ ['.', '.'] && component ≠ ['.', 'g', 'i', 't'] && component.getLast? ≠ some '.' &&
    component.getLast? ≠ some ' '

def safePath (value : Text) : Bool :=
  value ≠ [] && byteLength value ≤ 1024 && value.head? ≠ some '/' && Downloads.clean value = value && value ≠ ['.'] &&
    !Downloads.containsAny ['\\', ':'] value && !Downloads.hasControl value && (value.splitOn '/').all safeComponent

def isHexDigit (c : Char) : Bool := c.isDigit || ('a' ≤ c && c ≤ 'f') || ('A' ≤ c && c ≤ 'F')

def validHash (value : Text) : Bool := value.length = 64 && value.all isHexDigit

/-- Equal starts are refused in either order, so it does not matter how the sort treats them. -/
def byStart (edits : List ResolvedEdit) : List ResolvedEdit := edits.insertionSort fun e f => e.start ≤ f.start

def checkRanges (path : Text) (start stop : Int) : List ResolvedEdit → Except String Unit
  | [] => .ok ()
  | edit :: rest =>
    if edit.start < stop || edit.start = start || edit.stop < edit.start || maxSourceBytes < edit.stop then
      .error ("configuration edit range invalid: " ++ String.ofList path)
    else checkRanges path edit.start edit.stop rest

/-- `Validate` of definitions whose edits are all bound to the parameter `resolved` in the format `shell`: the checks
of bindings, affixes and formats pass. -/
def validate (seen : List Text) : List ResolvedFile → Except String Unit
  | [] => .ok ()
  | file :: rest =>
    if !safePath file.path || seen.contains file.path || !validHash file.sha256 then
      .error ("configuration file path/hash invalid or duplicated: " ++ inQuotes file.path)
    else if file.edits = [] || 2048 < file.edits.length then
      .error ("configuration edits invalid: " ++ String.ofList file.path)
    else
      match checkRanges file.path (-1) 0 (byStart file.edits) with
      | .error e => .error e
      | .ok () => validate (file.path :: seen) rest

def validReplacement (edit : ResolvedEdit) : Bool :=
  edit.replacement.length ≤ maxReplacementBytes && !edit.replacement.contains 0 && utf8Valid edit.replacement

def validateResolved (files : List ResolvedFile) : Except String Unit :=
  if !files.all fun file => file.edits.all validReplacement then .error "configuration replacement invalid"
  else if 64 < files.length then .error "configuration exceeds 64 files"
  else validate [] files

variable (original : Bytes)

/-- The position is the end of the text, or a character starts there. -/
def atBoundary (position : Int) : Bool := original[position.toNat]?.all fun b => !isContinuation b

def bounded (out : Bytes) : Except String Bytes :=
  if maxSourceBytes < out.length then .error "configured source too large" else .ok out

def applyFrom (original : Bytes) (start stop : Int) (out : Bytes) : List ResolvedEdit → Except String Bytes
  | [] => bounded (out ++ original.drop stop.toNat)
  | edit :: rest =>
    if edit.start < stop || edit.start = start || edit.stop < edit.start || original.length < edit.stop ||
        !atBoundary original edit.start || !atBoundary original edit.stop then
      .error "configuration edit outside source byte boundaries"
    else
      match bounded (out ++ slice original stop.toNat edit.start.toNat ++ edit.replacement) with
      | .error e => .error e
      | .ok out => applyFrom original edit.start edit.stop out rest

def apply (edits : List ResolvedEdit) : Except String Bytes :=
  if maxSourceBytes < original.length || !utf8Valid original then .error "configuration source invalid or too large"
  else applyFrom original (-1) 0 [] (byStart edits)

def ResolvedEdit.edit (e : ResolvedEdit) : Edit UInt8 := ⟨e.start.toNat, e.stop.toNat, e.replacement⟩

def replaced (edits : List ResolvedEdit) : Bytes :=
  patched original (edits.map ResolvedEdit.edit)

variable (e f : ResolvedEdit)

/-- The ranges share no byte and do not start at one place. -/
def Clear : Prop := e.start ≠ f.start ∧ (e.stop ≤ f.start ∨ f.stop ≤ e.start)

structure Separate (edits : List ResolvedEdit) : Prop where
  ranges : ∀ e ∈ edits, 0 ≤ e.start ∧ e.start ≤ e.stop
  apart : edits.Pairwise Clear

def Precedes : Prop := e.stop ≤ f.start ∧ e.start < f.start

def Ordered (start stop : Int) : List ResolvedEdit → Prop
  | [] => True
  | e :: rest => (stop ≤ e.start ∧ e.start ≠ start ∧ e.start ≤ e.stop) ∧ Ordered e.start e.stop rest

variable {original out : Bytes} {edits edits' : List ResolvedEdit} {e f : ResolvedEdit}

theorem Clear.symm (h : Clear e f) : Clear f e := ⟨h.1.symm, h.2.symm⟩

theorem byStart_perm (edits : List ResolvedEdit) : (byStart edits).Perm edits := perm_insertionSort _ edits

theorem ordered_iff {start stop : Int} (h : start ≤ stop) : Ordered start stop edits ↔
      (∀ e ∈ edits, stop ≤ e.start ∧ start < e.start ∧ e.start ≤ e.stop) ∧ edits.Pairwise Precedes := by
  induction edits generalizing start stop with
  | nil => simp [Ordered]
  | cons e rest ih =>
    rw [pairwise_cons, forall_mem_cons]
    constructor
    · rintro ⟨hHead, hRest⟩
      obtain ⟨hRanges, hPairs⟩ := (ih hHead.2.2).mp hRest
      refine ⟨⟨⟨hHead.1, by omega, hHead.2.2⟩, fun f hf => ?_⟩, fun f hf => ?_, hPairs⟩
      · have := hRanges f hf
        omega
      · exact ⟨(hRanges f hf).1, (hRanges f hf).2.1⟩
    rintro ⟨⟨hHead, hRanges⟩, hFirst, hPairs⟩
    refine ⟨⟨hHead.1, by omega, hHead.2.2⟩, (ih hHead.2.2).mpr ⟨fun f hf => ?_, hPairs⟩⟩
    exact ⟨(hFirst f hf).1, (hFirst f hf).2, (hRanges f hf).2.2⟩

theorem ordered_byStart_iff : Ordered (-1) 0 (byStart edits) ↔ Separate edits := by
  rw [ordered_iff (by omega)]
  have hPerm := byStart_perm edits
  constructor
  · rintro ⟨hRanges, hPairs⟩
    refine ⟨fun e he => ?_, (hPairs.imp fun h => ?_).perm hPerm Clear.symm⟩
    · have := hRanges e (hPerm.mem_iff.mpr he)
      omega
    · exact ⟨by have := h.2; omega, .inl h.1⟩
  rintro ⟨hRanges, hApart⟩
  have hSort : (byStart edits).Pairwise fun e f => e.start ≤ f.start := pairwise_insertionSort _ edits
  have hBoth := (hApart.perm hPerm.symm Clear.symm).and hSort
  refine ⟨fun e he => ?_, hBoth.imp_of_mem fun {e f} he hf h => ?_⟩
  · have := hRanges e (hPerm.mem_iff.mp he)
    omega
  have := hRanges f (hPerm.mem_iff.mp hf)
  obtain ⟨⟨hStarts, hStops⟩, hLe⟩ := h
  exact ⟨by omega, by omega⟩

theorem checkRanges_ok {path : Text} {start stop : Int} (h : checkRanges path start stop edits = .ok ()) :
    Ordered start stop edits := by
  induction edits generalizing start stop with
  | nil => trivial
  | cons e rest ih =>
    unfold checkRanges at h
    split at h
    · cases h
    next hRange =>
      simp only [Bool.or_eq_true, decide_eq_true_eq, not_or, not_lt] at hRange
      exact ⟨⟨hRange.1.1.1, hRange.1.1.2, hRange.1.2⟩, ih h⟩

theorem validate_ok {seen : List Text} {files : List ResolvedFile} (h : validate seen files = .ok ())
    {file : ResolvedFile} (hFile : file ∈ files) : Separate file.edits := by
  induction files generalizing seen with
  | nil => cases hFile
  | cons g rest ih =>
    unfold validate at h
    split at h
    · cases h
    split at h
    · cases h
    split at h
    · cases h
    rename_i hRanges
    rcases mem_cons.mp hFile with rfl | hRest
    · exact ordered_byStart_iff.mp (checkRanges_ok hRanges)
    · exact ih h hRest

theorem validateResolved_ok {files : List ResolvedFile} (h : validateResolved files = .ok ()) {file : ResolvedFile}
    (hFile : file ∈ files) : Separate file.edits := by
  unfold validateResolved at h
  split at h
  · cases h
  split at h
  · cases h
  · exact validate_ok h hFile

theorem bounded_eq_ok : bounded original = .ok out ↔ original = out ∧ out.length ≤ maxSourceBytes := by
  unfold bounded
  split
  next hLarge =>
    refine ⟨fun h => (by cases h), ?_⟩
    rintro ⟨rfl, hSize⟩
    omega
  next hSize =>
    constructor
    · intro h
      cases h
      exact ⟨rfl, by omega⟩
    · rintro ⟨rfl, -⟩
      rfl

def Within (original : Bytes) (e : ResolvedEdit) : Prop :=
  e.stop ≤ original.length ∧ atBoundary original e.start = true ∧ atBoundary original e.stop = true

theorem applyFrom_eq_ok {start stop : Int} {before : Bytes} : applyFrom original start stop before edits = .ok out ↔
      Ordered start stop edits ∧ (∀ e ∈ edits, Within original e) ∧
        before ++ EditScript.apply original stop.toNat (edits.map ResolvedEdit.edit) = out ∧
          out.length ≤ maxSourceBytes := by
  induction edits generalizing start stop before with
  | nil => simp [applyFrom, bounded_eq_ok, Ordered, EditScript.apply]
  | cons e rest ih =>
    rw [applyFrom, forall_mem_cons, map_cons, EditScript.apply]
    have hAppend tail : before ++ (slice original stop.toNat e.edit.start ++ (e.edit.lines ++ tail)) =
        before ++ slice original stop.toNat e.start.toNat ++ e.replacement ++ tail := by
      simp only [ResolvedEdit.edit, append_assoc]
    rw [hAppend]
    split
    next hNo =>
      refine ⟨fun h => (by cases h), ?_⟩
      rintro ⟨⟨⟨hStop, hStart, hRange⟩, -⟩, ⟨⟨hIn, hFirst, hLast⟩, -⟩, -⟩
      simp only [hFirst, hLast, Bool.not_true, Bool.or_false, Bool.or_eq_true, decide_eq_true_eq] at hNo
      omega
    next hOk =>
      simp only [Bool.or_eq_true, decide_eq_true_eq, not_or, not_lt, Bool.not_eq_true', Bool.not_eq_false] at hOk
      obtain ⟨⟨⟨⟨⟨hStop, hStart⟩, hRange⟩, hIn⟩, hFirst⟩, hLast⟩ := hOk
      split
      · -- The text is too large already, and does not get shorter.
        rename_i hLarge
        refine ⟨fun h => (by cases h), ?_⟩
        rintro ⟨-, -, rfl, hSize⟩
        rw [bounded_eq_ok.mpr ⟨rfl, by rw [length_append] at hSize; omega⟩] at hLarge
        cases hLarge
      next written hWrote =>
        obtain ⟨rfl, -⟩ := bounded_eq_ok.mp hWrote
        rw [ih]
        constructor
        · rintro ⟨hOrd, hFits, hOut⟩
          exact ⟨⟨⟨hStop, hStart, hRange⟩, hOrd⟩, ⟨⟨hIn, hFirst, hLast⟩, hFits⟩, hOut⟩
        · rintro ⟨⟨-, hOrd⟩, ⟨-, hFits⟩, hOut⟩
          exact ⟨hOrd, hFits, hOut⟩

structure Suitable (original : Bytes) (edits : List ResolvedEdit) : Prop where
  size : original.length ≤ maxSourceBytes
  text : utf8Valid original = true
  boundaries : ∀ e ∈ edits, atBoundary original e.start = true ∧ atBoundary original e.stop = true
  result : (replaced original edits).length ≤ maxSourceBytes

theorem Separate.before_byStart (h : Separate edits) :
    ((byStart edits).map ResolvedEdit.edit).Pairwise Edit.Before := by
  obtain ⟨hRanges, hPairs⟩ := (ordered_iff (by omega)).mp (ordered_byStart_iff.mpr h)
  rw [pairwise_map]
  refine hPairs.imp_of_mem fun {e f} he hf h => ?_
  have := hRanges e he
  obtain ⟨hStop, hStart⟩ := h
  refine ⟨?_, ?_⟩ <;> simp only [ResolvedEdit.edit] <;> omega

theorem Separate.apply_byStart (h : Separate edits) (hInside : ∀ e ∈ edits, e.stop ≤ original.length) :
    EditScript.apply original 0 ((byStart edits).map ResolvedEdit.edit) = replaced original edits := by
  have hPre := h.before_byStart
  rw [EditScript.apply_eq_patched hPre]
  · exact patched_perm (apart_of_before hPre) ((byStart_perm edits).map _)
  intro g hg
  obtain ⟨e, he, rfl⟩ := mem_map.mp hg
  have hMem := (byStart_perm edits).mem_iff.mp he
  have := h.ranges e hMem
  have := hInside e hMem
  refine ⟨?_, ?_⟩ <;> simp only [ResolvedEdit.edit] <;> omega

theorem apply_eq_ok : apply original edits = .ok out ↔
    Separate edits ∧ (∀ e ∈ edits, e.stop ≤ original.length) ∧ Suitable original edits ∧
      replaced original edits = out := by
  have hFits : (∀ e ∈ byStart edits, Within original e) ↔ (∀ e ∈ edits, e.stop ≤ original.length) ∧
      ∀ e ∈ edits, atBoundary original e.start = true ∧ atBoundary original e.stop = true := by
    simp only [(byStart_perm edits).mem_iff, Within, forall_and]
  unfold apply
  split
  next hSource =>
    refine ⟨fun h => (by cases h), ?_⟩
    rintro ⟨-, -, hFit, -⟩
    have := hFit.size
    simp only [hFit.text, Bool.not_true, Bool.or_false, decide_eq_true_eq] at hSource
    omega
  next hSource =>
    simp only [Bool.or_eq_true, decide_eq_true_eq, not_or, not_lt, Bool.not_eq_true', Bool.not_eq_false] at hSource
    rw [applyFrom_eq_ok, ordered_byStart_iff, hFits, nil_append, Int.toNat_zero]
    constructor
    · rintro ⟨hApart, ⟨hInside, hBoundaries⟩, hOut, hSize⟩
      rw [hApart.apply_byStart hInside] at hOut
      exact ⟨hApart, hInside, ⟨hSource.1, hSource.2, hBoundaries, hOut ▸ hSize⟩, hOut⟩
    · rintro ⟨hApart, hInside, hFit, rfl⟩
      exact ⟨hApart, ⟨hInside, hFit.boundaries⟩, hApart.apply_byStart hInside, hFit.result⟩

theorem Separate.perm (h : Separate edits) (hPerm : edits.Perm edits') : Separate edits' :=
  ⟨fun e he => h.ranges e (hPerm.mem_iff.mpr he), h.apart.perm hPerm Clear.symm⟩

theorem apply_ok_perm (hPerm : edits.Perm edits') (h : apply original edits = .ok out) :
    apply original edits' = .ok out := by
  obtain ⟨hApart, hInside, hFit, rfl⟩ := apply_eq_ok.mp h
  have hReplaced : replaced original edits = replaced original edits' := by
    refine patched_perm ?_ (hPerm.map _)
    exact (apart_of_before hApart.before_byStart).perm ((byStart_perm _).map _)
  refine apply_eq_ok.mpr ⟨hApart.perm hPerm, fun e he => hInside e (hPerm.mem_iff.mpr he), ?_, hReplaced.symm⟩
  exact ⟨hFit.size, hFit.text, fun e he => hFit.boundaries e (hPerm.mem_iff.mpr he),
    hReplaced ▸ hFit.result⟩

/-- Edits that were validated and lie inside the text are applied exactly when the text is suitable. -/
theorem apply_exact (original : Bytes) (files : List ResolvedFile) (file : ResolvedFile) (hFile : file ∈ files) :
    (validateResolved files = .ok () → (∀ e ∈ file.edits, e.stop ≤ original.length) →
      ((∃ out, apply original file.edits = .ok out) ↔ Suitable original file.edits)) ∧
    (∀ out, apply original file.edits = .ok out → out = replaced original file.edits) ∧
    (∀ edits, file.edits.Perm edits → ∀ out, apply original file.edits = .ok out ↔ apply original edits = .ok out) ∧
    (¬ file.edits.Pairwise Clear → validateResolved files ≠ .ok () ∧ ∀ out, apply original file.edits ≠ .ok out) := by
  refine ⟨fun hValid hInside => ⟨?_, fun hFit => ?_⟩, fun out h => ?_, fun edits hPerm out => ?_, fun hOverlap => ?_⟩
  · rintro ⟨out, h⟩
    exact (apply_eq_ok.mp h).2.2.1
  · exact ⟨_, apply_eq_ok.mpr ⟨validateResolved_ok hValid hFile, hInside, hFit, rfl⟩⟩
  · exact (apply_eq_ok.mp h).2.2.2.symm
  · exact ⟨apply_ok_perm hPerm, apply_ok_perm hPerm.symm⟩
  · exact ⟨fun h => hOverlap (validateResolved_ok h hFile).apart, fun out h => hOverlap (apply_eq_ok.mp h).1.apart⟩

def sampleFile (edits : List ResolvedEdit) : ResolvedFile := ⟨['a'], List.replicate 64 '0', edits⟩

def touching : List ResolvedEdit := [⟨2, 2, [120]⟩, ⟨1, 2, []⟩]

theorem apply_exact_touching : validateResolved [sampleFile touching] = .ok () ∧
    (∀ e ∈ touching, e.stop ≤ ([97, 98, 99] : Bytes).length) ∧ apply [97, 98, 99] touching = .ok [97, 120, 99] ∧
    ((∃ out, apply [97, 98, 99] touching = .ok out) ↔ Suitable [97, 98, 99] touching) :=
  ⟨by rfl, by decide, by rfl, (apply_exact _ [sampleFile touching] _ mem_cons_self).1 (by rfl) (by decide)⟩

/-- The source is no UTF-8, or the edit is inside a character. -/
theorem apply_refuses_bytes : validateResolved [sampleFile [⟨1, 1, [120]⟩]] = .ok () ∧
    apply [0xFF] [⟨1, 1, [120]⟩] = .error "configuration source invalid or too large" ∧
    apply [0xC3, 0xA9] [⟨1, 1, [120]⟩] = .error "configuration edit outside source byte boundaries" :=
  ⟨by rfl, by rfl, by rfl⟩

end LocalModelWorks.SourceConfig
