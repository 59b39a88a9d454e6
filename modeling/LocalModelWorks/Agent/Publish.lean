import LocalModelWorks.Agent.Snapshot
import Mathlib.Algebra.BigOperators.Fin

/-!
# A snapshot is published

As long as no two workers link the same blob at once, every file is published: its worker owns
the partial file, a blob that is there has the right content, and the link is made once.
-/

namespace LocalModelWorks.Agent.Snapshot

open List
open Resume (retryResumeHTTPFile)
open Transition

theorem setEntry_self (t : Tree) (location : Location) (entry : Option Entry) : setEntry t location entry location = entry :=
  if_pos rfl

theorem setEntry_other {t : Tree} {location x : Location} {entry : Option Entry} (h : x ≠ location) :
    setEntry t location entry x = t x := if_neg h

theorem mkdirAll_spec {t : Tree} (hRoot : t [] = some .directory) {dir : Location}
    (h : ∀ x, x <:+ dir → t x = none ∨ t x = some .directory) :
    ∃ t', mkdirAll t dir = some t' ∧ ∀ x, t' x = if x <:+ dir then some .directory else t x := by
  induction dir with
  | nil =>
    refine ⟨t, if_pos hRoot, fun x => ?_⟩
    split
    next hx => rw [suffix_nil.mp hx, hRoot]
    · rfl
  | cons name dir ih =>
    obtain ⟨t', hMade, hEntries⟩ := ih fun x hx => h x (hx.trans (suffix_cons name dir))
    have hSelf : ¬name :: dir <:+ dir := by
      intro hs
      have hLen := hs.length_le
      rw [length_cons] at hLen
      omega
    have hHere : t' (name :: dir) = t (name :: dir) := by rw [hEntries, if_neg hSelf]
    have hCons : ∀ x, x <:+ name :: dir ↔ x = name :: dir ∨ x <:+ dir := fun x => suffix_cons_iff
    rw [mkdirAll, hMade]
    dsimp only
    rcases h (name :: dir) (suffix_refl _) with hNone | hDir
    · rw [hHere, hNone]
      refine ⟨_, rfl, fun x => ?_⟩
      by_cases hx : x = name :: dir
      · rw [hx, setEntry_self, if_pos (suffix_refl _)]
      · rw [setEntry_other hx, hEntries]
        simp only [hCons, hx, false_or]
    rw [hHere, hDir]
    refine ⟨_, rfl, fun x => ?_⟩
    rw [hEntries]
    by_cases hx : x = name :: dir
    · rw [hx, if_neg hSelf, if_pos (suffix_refl _), hDir]
    · simp only [hCons, hx, false_or]

structure Repository (hash : Hash) where
  files : List File
  content : File → Resume.Bytes
  distinct : (files.map File.location).Nodup
  tree : ∀ f ∈ files, ∀ g ∈ files, ¬f.location <:+ g.dir
  size : ∀ f ∈ files, f.size = (content f).length
  bounded : ∀ f ∈ files, f.size ≤ 1099511627776
  valid : ∀ f ∈ files, validHFFileDigest f.digest = true
  digest : ∀ f ∈ files, hash f.digest.kind (content f) = f.digest.value
  names : ∀ f ∈ files, ∀ g ∈ files, f.digest = g.digest → content f = content g

namespace Repository

variable {hash : Hash} (R : Repository hash)

def Separate : Prop := ∀ f ∈ R.files, ∀ g ∈ R.files, ¬f.part <:+ g.dir

def NoneEmpty : Prop := ∀ f ∈ R.files, f.size ≠ 0

variable {R} {f g : File}

theorem eq_of_location (hf : f ∈ R.files) (hg : g ∈ R.files) (h : f.location = g.location) : f = g :=
  inj_on_of_nodup_map R.distinct hf hg h

theorem eq_of_part (hf : f ∈ R.files) (hg : g ∈ R.files) (h : f.part = g.part) : f = g := by
  obtain ⟨hName, hDir⟩ := List.cons.inj h
  refine eq_of_location hf hg ?_
  rw [File.location, File.location, append_cancel_right hName, hDir]

theorem value_length (hf : f ∈ R.files) : f.digest.value.length = f.digest.kind.length := by
  have hValid := R.valid f hf
  rw [validHFFileDigest, Bool.and_eq_true, decide_eq_true_eq] at hValid
  exact hValid.1

theorem kind_of_length {k l : Kind} (h : k.length = l.length) : k = l := by
  cases k <;> cases l <;> first | rfl | cases h

theorem content_of_value (hf : f ∈ R.files) (hg : g ∈ R.files) (h : f.digest.value = g.digest.value) :
    R.content f = R.content g := by
  have hKind : f.digest.kind = g.digest.kind := by
    apply kind_of_length
    rw [← value_length hf, ← value_length hg, h]
  refine R.names f hf g hg ?_
  obtain ⟨_, _, _, ⟨_, _⟩⟩ := g
  cases hKind
  cases h
  rfl

theorem existing_content (hf : f ∈ R.files) :
    existingSnapshotFile hash false f (some (.file (R.content f))) = true := by
  simp [existingSnapshotFile, R.size f hf, R.valid f hf, R.digest f hf]

theorem checkSizes_ok : checkSizes R.files = .ok () := by
  have hAll : ∀ files : List File, (∀ f ∈ files, f ∈ R.files) → checkSizes files = .ok () := by
    intro files
    induction files with
    | nil => exact fun _ => rfl
    | cons f rest ih =>
      intro hMem
      obtain ⟨hf, hRest⟩ := forall_mem_cons.mp hMem
      have hSize := R.size f hf
      have hBound := R.bounded f hf
      rw [checkSizes, if_neg (by omega), ih hRest]
  exact hAll R.files fun _ h => h

theorem planFiles_ok {files : List File} (hMem : ∀ f ∈ files, f ∈ R.files) {seen : List Location} {t : Tree}
    (hNodup : (files.map File.location).Nodup) (hSeen : ∀ f ∈ files, f.location ∉ seen)
    (hRoot : t [] = some .directory) (hTree : ∀ x, t x = none ∨ t x = some .directory) :
    ∃ t', planFiles seen t files = .ok t' ∧
      ∀ x, t' x = if ∃ f ∈ files, x <:+ f.dir then some .directory else t x := by
  induction files generalizing seen t with
  | nil => exact ⟨t, rfl, fun x => by simp⟩
  | cons f rest ih =>
    obtain ⟨hf, hRest⟩ := forall_mem_cons.mp hMem
    obtain ⟨hFresh, hOthers⟩ := forall_mem_cons.mp hSeen
    obtain ⟨hNew, hNodup⟩ := nodup_cons.mp hNodup
    obtain ⟨made, hMade, hEntries⟩ := @mkdirAll_spec t hRoot f.dir fun x _ => hTree x
    have hMadeTree : ∀ x, made x = none ∨ made x = some .directory := by
      intro x
      rw [hEntries]
      split
      · exact .inr rfl
      · exact hTree x
    obtain ⟨t', hPlan, hAll⟩ := @ih hRest (f.location :: seen) made hNodup
      (fun g hg => by
        rw [mem_cons, not_or]
        exact ⟨fun hSame => hNew (hSame ▸ mem_map_of_mem hg), hOthers g hg⟩)
      (by rw [hEntries, if_pos (nil_suffix)]) hMadeTree
    refine ⟨t', ?_, fun x => ?_⟩
    · rw [planFiles, if_neg hFresh, if_neg (by simp [R.valid f hf]), hMade]
      exact hPlan
    rw [hAll, hEntries]
    by_cases hHere : x <:+ f.dir
    · simp [hHere]
    · simp [hHere]

theorem prepare_ok : ∃ t, prepare R.files = .ok t ∧
    ∀ x, t x = if ∃ f ∈ R.files, x <:+ f.dir then some .directory else emptyTree x := by
  have hTree : ∀ x, emptyTree x = none ∨ emptyTree x = some .directory := by
    intro x
    unfold emptyTree
    split
    · exact .inr rfl
    · exact .inl rfl
  obtain ⟨t, hPlan, hEntries⟩ := @planFiles_ok hash R R.files (fun _ h => h) [] emptyTree R.distinct
    (fun _ _ => not_mem_nil) (if_pos rfl) hTree
  refine ⟨t, ?_, hEntries⟩
  rw [prepare, checkSizes_ok]
  exact hPlan

def InPhase (R : Repository hash) (disk : Disk) (f : File) : Phase → Prop
  | .begin => disk.partials f.part = none
  | .fetch => disk.partials f.part = none
  | .verify => disk.partials f.part = some (.file (R.content f))
  | .stat => disk.partials f.part = some (.file (R.content f))
  | .link => disk.partials f.part = some (.file (R.content f))
  | .checkBlob => disk.partials f.part = some (.file (R.content f)) ∧ disk.blobs f.digest.value = some (R.content f)
  | .remove => disk.partials f.part = some (.file (R.content f)) ∧ disk.blobs f.digest.value = some (R.content f)
  | .symlink => disk.partials f.part = none ∧ disk.blobs f.digest.value = some (R.content f)
  | .refetch => False
  | .reverify => False

def Published (R : Repository hash) (disk : Disk) (f : File) : Prop :=
  disk.links f.location = some (.link f.digest.value) ∧ disk.blobs f.digest.value = some (R.content f)

structure DiskOk (R : Repository hash) (disk : Disk) : Prop where
  partials : ∀ f ∈ R.files, disk.partials f.dir = some .directory
  blobs : ∀ v c, disk.blobs v = some c → ∃ f ∈ R.files, v = f.digest.value ∧ c = R.content f
  root : disk.links [] = some .directory
  links : ∀ x, disk.links x = none ∨ disk.links x = some .directory ∧ (∀ f ∈ R.files, x ≠ f.location) ∨
    ∃ f ∈ R.files, x = f.location

structure Touches (f : File) (disk disk' : Disk) : Prop where
  partials : ∀ x, x ≠ f.part → disk'.partials x = disk.partials x
  blobs : ∀ v c, disk.blobs v = some c → disk'.blobs v = some c
  links : ∀ x, x ≠ f.location → ¬x <:+ f.dir → disk'.links x = disk.links x

theorem Touches.refl (f : File) (disk : Disk) : Touches f disk disk := ⟨fun _ _ => rfl, fun _ _ h => h, fun _ _ _ => rfl⟩

variable {disk disk' : Disk} {phase : Phase}

theorem diskOk_setPartial (hApart : R.Separate) (hf : f ∈ R.files) (hDisk : DiskOk R disk) (entry : Option Entry) :
    DiskOk R (disk.setPartial f entry) := by
  refine { hDisk with partials := fun g hg => ?_ }
  have hNe : g.dir ≠ f.part := fun hSame => hApart f hf g hg (hSame ▸ suffix_refl _)
  exact (setEntry_other hNe).trans (hDisk.partials g hg)

structure Advances (R : Repository hash) (f : File) (disk : Disk) (r : Disk × Next) : Prop where
  touches : Touches f disk r.1
  ok : DiskOk R r.1
  next : (∃ phase, r.2 = .goto phase ∧ InPhase R r.1 f phase ∧ r.1.links f.location = none) ∨
    (r.2 = .done ∧ Published R r.1 f ∧ r.1.partials f.part = none)

theorem advances_stay (hDisk : DiskOk R disk) (hLink : disk.links f.location = none) (h : InPhase R disk f phase) :
    Advances R f disk (disk, .goto phase) :=
  ⟨Touches.refl f disk, hDisk, .inl ⟨phase, rfl, h, hLink⟩⟩

theorem advances_setPartial (hApart : R.Separate) (hf : f ∈ R.files) (hDisk : DiskOk R disk)
    (hLink : disk.links f.location = none) {entry : Option Entry} (h : InPhase R (disk.setPartial f entry) f phase) :
    Advances R f disk (disk.setPartial f entry, .goto phase) :=
  ⟨⟨fun _ hx => setEntry_other hx, fun _ _ h => h, fun _ _ _ => rfl⟩, diskOk_setPartial hApart hf hDisk entry,
    .inl ⟨phase, rfl, h, hLink⟩⟩

theorem fetch_content (hEmpty : R.NoneEmpty) (hf : f ∈ R.files) (network : Network R.content) :
    retryResumeHTTPFile (network.attempt f) f.size none = (.ok (), some (R.content f)) := by
  have hSize := R.size f hf
  have hBound := R.bounded f hf
  have hContent : R.content f ≠ [] := by
    intro hNil
    rw [hNil] at hSize
    exact hEmpty f hf hSize
  rw [hSize]
  refine Resume.retry_completes hContent (by omega) (Nat.zero_le _) (network.honest f) (network.faultless f) ?_ trivial
  intro i hi
  exact absurd hi (Nat.not_lt_zero i)

theorem symlink_advances (hf : f ∈ R.files) (hDisk : DiskOk R disk) (hLink : disk.links f.location = none)
    (h : InPhase R disk f .symlink) : Advances R f disk (symlinkFile disk f) := by
  have hWay : ∀ x, x <:+ f.dir → disk.links x = none ∨ disk.links x = some .directory := by
    intro x hx
    rcases hDisk.links x with hNone | ⟨hDir, _⟩ | ⟨g, hg, rfl⟩
    · exact .inl hNone
    · exact .inr hDir
    · exact absurd hx (R.tree g hg f hf)
  obtain ⟨links, hMade, hEntries⟩ := mkdirAll_spec hDisk.root hWay
  have hFree : links f.location = none := by rw [hEntries, if_neg (R.tree f hf f hf), hLink]
  have hRoot : links [] = some .directory := by rw [hEntries, if_pos nil_suffix]
  have hStep : symlinkFile disk f =
      ({ disk with links := setEntry links f.location (some (.link f.digest.value)) }, .done) := by
    unfold symlinkFile
    rw [hMade]
    dsimp only
    rw [hFree]
  have hName : [] ≠ f.location := (cons_ne_nil _ _).symm
  rw [hStep]
  refine ⟨⟨fun _ _ => rfl, fun _ _ hc => hc, fun x hx hDir => ?_⟩, ⟨hDisk.partials, hDisk.blobs, ?_, fun x => ?_⟩, ?_⟩
  · exact (setEntry_other hx).trans (by rw [hEntries, if_neg hDir])
  · exact (@setEntry_other links f.location [] (some (.link f.digest.value)) hName).trans hRoot
  · by_cases hx : x = f.location
    · exact .inr (.inr ⟨f, hf, hx⟩)
    have hEntry : setEntry links f.location (some (.link f.digest.value)) x = _ := (setEntry_other hx).trans (hEntries x)
    change setEntry links f.location (some (.link f.digest.value)) x = none ∨
      setEntry links f.location (some (.link f.digest.value)) x = some .directory ∧ _ ∨ _
    rw [hEntry]
    split
    next hDir =>
      refine .inr (.inl ⟨rfl, fun g hg hSame => ?_⟩)
      rw [hSame] at hDir
      exact R.tree g hg f hf hDir
    · exact hDisk.links x
  · exact .inr ⟨rfl, ⟨setEntry_self _ _ _, h.2⟩, h.1⟩

theorem link_advances (hf : f ∈ R.files) (hDisk : DiskOk R disk) (hLink : disk.links f.location = none)
    (h : InPhase R disk f .link) (hFresh : disk.blobs f.digest.value = none) : Advances R f disk (linkBlob disk f) := by
  have hPart : disk.partials f.part = some (.file (R.content f)) := h
  unfold linkBlob
  rw [hPart, hFresh]
  refine ⟨⟨fun _ _ => rfl, fun v c hc => ?_, fun _ _ _ => rfl⟩, ⟨hDisk.partials, fun v c hc => ?_, hDisk.root, hDisk.links⟩,
    .inl ⟨.remove, rfl, ⟨hPart, if_pos rfl⟩, hLink⟩⟩
  · by_cases hv : v = f.digest.value
    · rw [hv, hFresh] at hc
      cases hc
    · exact (if_neg hv).trans hc
  by_cases hv : v = f.digest.value
  · rw [hv] at hc ⊢
    have hSame : some (R.content f) = some c := (if_pos rfl).symm.trans hc
    exact ⟨f, hf, rfl, (Option.some.inj hSame).symm⟩
  · exact hDisk.blobs v c ((if_neg hv).symm.trans hc)

theorem downloadOne_advances (hApart : R.Separate) (hEmpty : R.NoneEmpty) (hf : f ∈ R.files) (hDisk : DiskOk R disk)
    (hLink : disk.links f.location = none) (h : InPhase R disk f phase)
    (hFresh : phase = .link → disk.blobs f.digest.value = none) (network : Network R.content) :
    Advances R f disk (downloadOne hash false network disk f phase) := by
  cases phase with
  | begin =>
    have hPart : disk.partials f.part = none := h
    rw [downloadOne, beginFile, hPart]
    exact advances_stay hDisk hLink h
  | fetch =>
    have hPart : disk.partials f.part = none := h
    rw [downloadOne, fetchPartial, hDisk.partials f hf, hPart]
    rw [fetch_content hEmpty hf network]
    exact advances_setPartial hApart hf hDisk hLink (setEntry_self _ _ _)
  | verify =>
    have hPart : disk.partials f.part = some (.file (R.content f)) := h
    rw [downloadOne, verifyFile, hPart, existing_content hf]
    exact advances_stay hDisk hLink h
  | refetch | reverify => cases h
  | stat =>
    rw [downloadOne, statBlob]
    cases hBlob : disk.blobs f.digest.value with
    | none => exact advances_stay hDisk hLink h
    | some c =>
      obtain ⟨g, hg, hValue, rfl⟩ := hDisk.blobs _ _ hBlob
      refine advances_stay hDisk hLink ⟨h, ?_⟩
      rw [hBlob, content_of_value hf hg hValue]
  | checkBlob =>
    have hBlob : existingSnapshotFile hash false f ((disk.blobs f.digest.value).map Entry.file) = true := by
      rw [h.2]
      exact existing_content hf
    rw [downloadOne, checkBlob, if_pos hBlob]
    exact advances_stay hDisk hLink h
  | link => exact link_advances hf hDisk hLink h (hFresh rfl)
  | remove =>
    have hPart : disk.partials f.part = some (.file (R.content f)) := h.1
    rw [downloadOne, removePartial, hPart]
    exact advances_setPartial hApart hf hDisk hLink ⟨setEntry_self _ _ _, h.2⟩
  | symlink => exact symlink_advances hf hDisk hLink h

section Runs

variable {ω : Type} [DecidableEq ω] {s : State ω} {w : ω}

def Waiting (disk : Disk) (f : File) : Prop := disk.partials f.part = none ∧ disk.links f.location = none

structure Sound (R : Repository hash) (s : State ω) : Prop where
  error : s.error = none
  disk : DiskOk R s.disk
  waiting : ∀ f ∈ s.queue, Waiting s.disk f
  busy : ∀ w f phase, s.worker w = .busy f phase → InPhase R s.disk f phase ∧ s.disk.links f.location = none
  unique : ∀ v w f p q, s.worker v = .busy f p → s.worker w = .busy f q → v = w
  taken : ∃ taken, R.files = taken ++ s.queue ∧ (∀ w f phase, s.worker w = .busy f phase → f ∈ taken) ∧
    ∀ f ∈ taken, (∃ w phase, s.worker w = .busy f phase) ∨ Published R s.disk f
  gone : ∀ w, s.worker w = .gone → s.queue = []

theorem setWorker_self (s : State ω) (w : ω) (worker : Worker) : s.setWorker w worker w = worker := if_pos rfl

variable {s : State ω} {v w : ω} {worker : Worker}

theorem setWorker_other (h : v ≠ w) : s.setWorker w worker v = s.worker v :=
  if_neg h

theorem setWorker_busy {f : File} {phase : Phase}
    (h : s.setWorker w worker v = .busy f phase) : v = w ∧ worker = .busy f phase ∨ v ≠ w ∧ s.worker v = .busy f phase :=
  ite_eq_iff.mp h

theorem sound_init (hApart : R.Separate) (h : (system hash R.content R.files).init s) : Sound R s := by
  obtain ⟨hQueue, hIdle, hError, hLinks, hBlobs, hPlan⟩ := h
  obtain ⟨t, hPrepared, hEntries⟩ := @prepare_ok hash R
  rw [hPrepared] at hPlan
  have hPartials : t = s.disk.partials := Except.ok.inj hPlan
  have hNotBusy : ∀ w f phase, s.worker w ≠ .busy f phase := fun w f phase hBusy => by
    rw [hIdle w] at hBusy
    cases hBusy
  refine ⟨hError, ⟨fun f hf => ?_, fun v c hc => ?_, ?_, fun x => ?_⟩, ?_, ?_, ?_, ?_, ?_⟩
  · rw [← hPartials, hEntries, if_pos ⟨f, hf, suffix_refl _⟩]
  · rw [hBlobs] at hc
    cases hc
  · rw [hLinks]
    rfl
  · rw [hLinks, emptyTree]
    split
    next hx => exact .inr (.inl ⟨rfl, fun f _ hSame => cons_ne_nil _ _ (hSame.symm.trans hx)⟩)
    · exact .inl rfl
  · intro f hf
    rw [hQueue] at hf
    refine ⟨?_, by rw [hLinks]; rfl⟩
    rw [← hPartials, hEntries, if_neg]
    · rfl
    · rintro ⟨g, hg, hDir⟩
      exact hApart f hf g hg hDir
  · exact fun w f phase hBusy => absurd hBusy (hNotBusy w f phase)
  · exact fun v w f p q hBusy _ => absurd hBusy (hNotBusy v f p)
  · refine ⟨[], by rw [hQueue, nil_append], fun w f phase hBusy => absurd hBusy (hNotBusy w f phase), ?_⟩
    exact forall_mem_nil _
  intro w hGone
  rw [hIdle w] at hGone
  cases hGone

section

variable (hf : f ∈ R.files) (hg : g ∈ R.files) (hOther : g ≠ f) (hTouches : Touches f disk disk')
include hf hg hOther hTouches

theorem Waiting.touched (h : Waiting disk g) : Waiting disk' g := by
  refine ⟨?_, ?_⟩
  · rw [hTouches.partials _ fun hSame => hOther (eq_of_part hg hf hSame), h.1]
  · rw [hTouches.links _ (fun hSame => hOther (eq_of_location hg hf hSame)) (R.tree g hg f hf), h.2]

theorem InPhase.touched (h : InPhase R disk g phase) : InPhase R disk' g phase := by
  have hPart : disk'.partials g.part = disk.partials g.part :=
    hTouches.partials _ fun hSame => hOther (eq_of_part hg hf hSame)
  cases phase with
  | begin | fetch | verify | stat | link => exact hPart.trans h
  | checkBlob | remove | symlink => exact ⟨hPart.trans h.1, hTouches.blobs _ _ h.2⟩
  | refetch | reverify => exact h

theorem Published.touched (h : Published R disk g) : Published R disk' g := by
  refine ⟨?_, hTouches.blobs _ _ h.2⟩
  rw [hTouches.links _ (fun hSame => hOther (eq_of_location hg hf hSame)) (R.tree g hg f hf), h.1]

end

omit [DecidableEq ω] in
theorem Sound.mem_of_queue (hSound : Sound R s) (hf : f ∈ s.queue) : f ∈ R.files := by
  obtain ⟨taken, hFiles, _⟩ := hSound.taken
  rw [hFiles]
  exact mem_append_right _ hf

omit [DecidableEq ω] in
theorem Sound.mem_of_busy (hSound : Sound R s) (h : s.worker w = .busy f phase) : f ∈ R.files := by
  obtain ⟨taken, hFiles, hTaken, _⟩ := hSound.taken
  rw [hFiles]
  exact mem_append_left _ (hTaken w f phase h)

omit [DecidableEq ω] in
theorem Sound.queue_ne_busy (hSound : Sound R s) (hg : g ∈ s.queue) (h : s.worker w = .busy f phase) : g ≠ f := by
  rintro rfl
  obtain ⟨taken, hFiles, hTaken, _⟩ := hSound.taken
  have hNodup : R.files.Nodup := List.Nodup.of_map _ R.distinct
  rw [hFiles] at hNodup
  exact (nodup_append.mp hNodup).2.2 g (hTaken w g phase h) g hg rfl

/-- A worker takes the files `fresh` from the queue, or goes on with the file it has. -/
theorem Sound.setWorker (hSound : Sound R s) {worker : Worker} (fresh : List File) {queue : List File}
    (hQueue : s.queue = fresh ++ queue) (hDisk : DiskOk R disk) (hWait : ∀ g ∈ queue, Waiting disk g)
    (hMine : ∀ g p, worker = .busy g p → (g ∈ fresh ∨ ∃ q, s.worker w = .busy g q) ∧ InPhase R disk g p ∧
      disk.links g.location = none)
    (hStill : ∀ v g p, v ≠ w → s.worker v = .busy g p → InPhase R disk g p ∧ disk.links g.location = none)
    (hFresh : ∀ g ∈ fresh, ∃ p, worker = .busy g p)
    (hLeft : ∀ g p, s.worker w = .busy g p → (∃ q, worker = .busy g q) ∨ Published R disk g)
    (hPublished : ∀ g ∈ R.files, Published R s.disk g → Published R disk g) (hGone : worker = .gone → queue = []) :
    Sound R ⟨queue, s.setWorker w worker, disk, s.error⟩ := by
  obtain ⟨taken, hFiles, hTaken, hDone⟩ := hSound.taken
  have hAlone : ∀ {v g p q}, worker = .busy g p → v ≠ w → s.worker v ≠ .busy g q := by
    intro v g p q hNew hNe hOld
    rcases (hMine g p hNew).1 with hMem | ⟨_, hBusy⟩
    · exact hSound.queue_ne_busy (hQueue ▸ mem_append_left _ hMem) hOld rfl
    · exact hNe (hSound.unique v w g q _ hOld hBusy)
  refine ⟨hSound.error, hDisk, hWait, ?_, ?_, ⟨taken ++ fresh, ?_, ?_, ?_⟩, ?_⟩
  · intro v g p hBusy
    rcases setWorker_busy hBusy with ⟨_, hNew⟩ | ⟨hNe, hOld⟩
    · exact (hMine g p hNew).2
    · exact hStill v g p hNe hOld
  · intro u v g p q hu hv
    rcases setWorker_busy hu with ⟨rfl, hNewU⟩ | ⟨hNeU, hOldU⟩
    · rcases setWorker_busy hv with ⟨rfl, _⟩ | ⟨hNeV, hOldV⟩
      · rfl
      · exact absurd hOldV (hAlone hNewU hNeV)
    rcases setWorker_busy hv with ⟨_, hNewV⟩ | ⟨_, hOldV⟩
    · exact absurd hOldU (hAlone hNewV hNeU)
    · exact hSound.unique u v g p q hOldU hOldV
  · rw [hFiles, hQueue, append_assoc]
  · intro v g p hBusy
    rcases setWorker_busy hBusy with ⟨_, hNew⟩ | ⟨_, hOld⟩
    · exact mem_append.mpr ((hMine g p hNew).1.symm.imp_left fun ⟨q, hOld⟩ => hTaken w g q hOld)
    · exact mem_append_left _ (hTaken v g p hOld)
  · intro g hg
    rcases mem_append.mp hg with hg | hg
    · rcases hDone g hg with ⟨v, p, hBusy⟩ | hPub
      · by_cases hSame : v = w
        · subst hSame
          exact (hLeft g p hBusy).imp_left fun ⟨q, hNew⟩ => ⟨v, q, (setWorker_self _ _ _).trans hNew⟩
        · exact .inl ⟨v, p, (setWorker_other hSame).trans hBusy⟩
      · exact .inr (hPublished g (hFiles ▸ mem_append_left _ hg) hPub)
    · obtain ⟨p, hNew⟩ := hFresh g hg
      exact .inl ⟨w, p, (setWorker_self _ _ _).trans hNew⟩
  intro v hv
  by_cases hSame : v = w
  · subst hSame
    exact hGone ((setWorker_self s v worker).symm.trans hv)
  have hNil := hSound.gone v ((setWorker_other hSame).symm.trans hv)
  rw [hQueue] at hNil
  exact (append_eq_nil_iff.mp hNil).2

theorem sound_take (hSound : Sound R s) (hIdle : s.worker w = .idle) : Sound R (takeJob s w) := by
  have hFree : ∀ g p, s.worker w ≠ .busy g p := by
    intro g p hBusy
    rw [hIdle] at hBusy
    cases hBusy
  unfold takeJob
  cases hQueue : s.queue with
  | nil =>
    refine hSound.setWorker [] hQueue hSound.disk (hQueue ▸ hSound.waiting) ?_ (fun v g p _ => hSound.busy v g p)
      (forall_mem_nil _) (fun g p h => absurd h (hFree g p)) (fun _ _ h => h) fun _ => rfl
    exact fun _ _ hNew => by cases hNew
  | cons f rest =>
    have hAll := hSound.waiting
    rw [hQueue, forall_mem_cons] at hAll
    have hBegin : (if s.error.isSome then .gone else .busy f .begin) = Worker.busy f .begin := by
      rw [hSound.error]
      rfl
    dsimp only
    rw [hBegin]
    refine hSound.setWorker [f] hQueue hSound.disk hAll.2 ?_ (fun v g p _ => hSound.busy v g p) ?_
      (fun g p h => absurd h (hFree g p)) (fun _ _ h => h) nofun
    · rintro g p ⟨⟩
      exact ⟨.inl mem_cons_self, hAll.1⟩
    intro g hg
    rw [mem_singleton.mp hg]
    exact ⟨.begin, rfl⟩

theorem sound_advance (hSound : Sound R s) (hBusy : s.worker w = .busy f phase) {r : Disk × Next}
    (h : Advances R f s.disk r) : Sound R (afterStep s w f r) := by
  have hf := hSound.mem_of_busy hBusy
  have hWait : ∀ g ∈ s.queue, Waiting r.1 g := fun g hg =>
    (hSound.waiting g hg).touched hf (hSound.mem_of_queue hg) (hSound.queue_ne_busy hg hBusy) h.touches
  have hStill : ∀ v g p, v ≠ w → s.worker v = .busy g p → InPhase R r.1 g p ∧ r.1.links g.location = none := by
    intro v g p hv hOther
    have hg := hSound.mem_of_busy hOther
    have hNe : g ≠ f := by
      rintro rfl
      exact hv (hSound.unique v w g p phase hOther hBusy)
    obtain ⟨hIn, hLink⟩ := hSound.busy v g p hOther
    refine ⟨hIn.touched hf hg hNe h.touches, ?_⟩
    rw [h.touches.links _ (fun hSame => hNe (eq_of_location hg hf hSame)) (R.tree g hg f hf), hLink]
  have hPublished : ∀ g ∈ R.files, Published R s.disk g → Published R r.1 g := by
    intro g hg hPub
    refine hPub.touched hf hg ?_ h.touches
    rintro rfl
    cases hPub.1.symm.trans (hSound.busy w g phase hBusy).2
  have hMine : ∀ {g p}, s.worker w = .busy g p → g = f := by
    intro g p hSame
    rw [hBusy] at hSame
    cases hSame
    rfl
  unfold afterStep
  rcases h.next with ⟨next, hNext, hIn⟩ | ⟨hNext, hPub, _⟩
  · rw [hNext]
    refine hSound.setWorker [] rfl h.ok hWait ?_ hStill (forall_mem_nil _) ?_ hPublished nofun
    · rintro g p ⟨⟩
      exact ⟨.inr ⟨phase, hBusy⟩, hIn⟩
    · exact fun g p hOld => .inl ⟨next, by rw [hMine hOld]⟩
  rw [hNext]
  refine hSound.setWorker [] rfl h.ok hWait ?_ hStill (forall_mem_nil _) ?_ hPublished nofun
  · exact fun g p hNew => by cases hNew
  · exact fun g p hOld => .inr (hMine hOld ▸ hPub)

variable {content : File → Resume.Bytes}

def LinksFresh (s : State ω) (e : ω × Action content) : Prop :=
  match e.2, s.worker e.1 with
  | .run _ _, .busy f .link => s.disk.blobs f.digest.value = none
  | _, _ => True

theorem sound_step (hApart : R.Separate) (hEmpty : R.NoneEmpty) {e : ω × Action R.content} (hSound : Sound R s)
    (hOn : (system hash R.content R.files).enabled s e) (hFresh : LinksFresh s e) :
    Sound R ((system hash R.content R.files).next s e) := by
  obtain ⟨w, a⟩ := e
  cases a with
  | take =>
    cases hWorker : s.worker w with
    | idle =>
      have hNext : (system hash R.content R.files).next s (w, .take) = takeJob s w := by simp only [system, hWorker]
      rw [hNext]
      exact sound_take hSound hWorker
    | busy | gone => simp only [system, hWorker] at hOn
  | run network noticed =>
    cases hWorker : s.worker w with
    | idle | gone => simp only [system, hWorker] at hOn
    | busy f phase =>
      have hNext : (system hash R.content R.files).next s (w, .run network noticed) =
          afterStep s w f (downloadOne hash false network s.disk f phase) := by
        simp only [system, hWorker, runStep, hSound.error, Option.isSome_none, Bool.false_and, Bool.false_eq_true, if_false]
      rw [hNext]
      obtain ⟨hIn, hLink⟩ := hSound.busy w f phase hWorker
      refine sound_advance hSound hWorker (downloadOne_advances hApart hEmpty (hSound.mem_of_busy hWorker) hSound.disk
        hLink hIn (fun hPhase => ?_) network)
      subst hPhase
      simpa only [LinksFresh, hWorker] using hFresh

def phaseWeight : Phase → Nat
  | .begin => 11
  | .fetch => 10
  | .verify => 9
  | .refetch => 8
  | .reverify => 7
  | .stat => 6
  | .checkBlob => 5
  | .link => 5
  | .remove => 4
  | .symlink => 3

def workerWeight : Worker → Nat
  | .busy _ phase => phaseWeight phase
  | .idle => 1
  | .gone => 0

def nextWeight : Next → Nat
  | .goto phase => phaseWeight phase
  | .done => 1
  | .fail _ => 0

theorem afterFetch_weight {f : File} {next phase : Phase} (h : phaseWeight next < phaseWeight phase) (outcome : Resume.Outcome) :
    nextWeight (afterFetch disk f next outcome).2 < phaseWeight phase := by
  obtain ⟨result, file⟩ := outcome
  cases result with
  | ok u => exact h
  | error e => exact Nat.lt_of_le_of_lt (Nat.zero_le _) h

theorem fetchPartial_weight (network : Network content) (disk : Disk) (f : File)
    {next phase : Phase} (h : phaseWeight next < phaseWeight phase) :
    nextWeight (fetchPartial network disk f next).2 < phaseWeight phase := by
  unfold fetchPartial
  split
  · exact afterFetch_weight h _
  · exact afterFetch_weight h _
  · exact Nat.lt_of_le_of_lt (Nat.zero_le _) h

theorem downloadOne_weight (cancelled : Bool) (network : Network content) (disk : Disk) (f : File)
    (phase : Phase) : nextWeight (downloadOne hash cancelled network disk f phase).2 < phaseWeight phase := by
  cases phase with
  | fetch | refetch => exact fetchPartial_weight network disk f (by decide)
  | begin | verify | reverify | stat | checkBlob | link | remove | symlink =>
    simp only [downloadOne, beginFile, verifyFile, reverifyFile, statBlob, Snapshot.checkBlob, linkBlob, removePartial,
      symlinkFile]
    repeat' split
    all_goals simp [nextWeight, phaseWeight]

variable [Fintype ω]

def rank (s : State ω) : Nat := 11 * s.queue.length + ∑ w, workerWeight (s.worker w)

theorem sum_setWorker (s : State ω) (w : ω) (worker : Worker) :
    ∑ v, workerWeight (s.setWorker w worker v) + workerWeight (s.worker w) =
      ∑ v, workerWeight (s.worker v) + workerWeight worker := by
  have hMem := Finset.mem_univ w
  have hRest : ∑ v ∈ Finset.univ.erase w, workerWeight (s.setWorker w worker v) =
      ∑ v ∈ Finset.univ.erase w, workerWeight (s.worker v) := by
    refine Finset.sum_congr rfl fun v hv => ?_
    rw [setWorker_other (Finset.ne_of_mem_erase hv)]
  rw [← Finset.add_sum_erase _ (fun v => workerWeight (s.setWorker w worker v)) hMem,
    ← Finset.add_sum_erase _ (fun v => workerWeight (s.worker v)) hMem, setWorker_self]
  omega

theorem takeJob_rank (hIdle : s.worker w = .idle) : rank (takeJob s w) < rank s := by
  unfold takeJob rank
  cases hQueue : s.queue with
  | nil =>
    have hSum := sum_setWorker s w .gone
    rw [hIdle, workerWeight, workerWeight] at hSum
    dsimp only
    omega
  | cons f rest =>
    have hSum := sum_setWorker s w (if s.error.isSome then .gone else .busy f .begin)
    have hWeight : workerWeight (if s.error.isSome then .gone else .busy f .begin) ≤ 11 := by
      split
      · decide
      · exact Nat.le_refl _
    rw [hIdle] at hSum
    have hOne : workerWeight .idle = 1 := rfl
    dsimp only
    rw [length_cons]
    omega

theorem setWorker_rank {disk : Disk} {error : Option FetchError} {worker : Worker}
    (h : workerWeight worker < workerWeight (s.worker w)) : rank ⟨s.queue, s.setWorker w worker, disk, error⟩ < rank s := by
  have hSum := sum_setWorker s w worker
  unfold rank
  dsimp only
  omega

theorem recordError_rank {e : FetchError} {disk : Disk} (hBusy : s.worker w = .busy f phase) :
    rank (recordError e { s with disk := disk } w) < rank s := by
  have hWeight : 0 < phaseWeight phase := by cases phase <;> decide
  refine setWorker_rank ?_
  rw [hBusy]
  exact hWeight

theorem afterStep_rank {r : Disk × Next} (hBusy : s.worker w = .busy f phase)
    (h : nextWeight r.2 < phaseWeight phase) : rank (afterStep s w f r) < rank s := by
  obtain ⟨disk, next⟩ := r
  cases next with
  | goto | done =>
    refine setWorker_rank ?_
    rw [hBusy]
    exact h
  | fail e => exact recordError_rank hBusy

theorem step_rank {e : ω × Action R.content} (hOn : (system hash R.content R.files).enabled s e) :
    rank ((system hash R.content R.files).next s e) < rank s := by
  obtain ⟨w, a⟩ := e
  cases a with
  | take =>
    cases hWorker : s.worker w with
    | idle =>
      simp only [system, hWorker]
      exact takeJob_rank hWorker
    | busy | gone => simp only [system, hWorker] at hOn
  | run network noticed =>
    cases hWorker : s.worker w with
    | idle | gone => simp only [system, hWorker] at hOn
    | busy f phase =>
      simp only [system, hWorker, runStep]
      split
      · exact recordError_rank hWorker
      · exact afterStep_rank hWorker (downloadOne_weight _ network s.disk f phase)

end Runs

def Resolves (hash : Hash) (disk : Disk) (f : File) : Prop :=
  disk.links f.location = some (.link f.digest.value) ∧
    ∃ content, disk.blobs f.digest.value = some content ∧ (content.length : Int) = f.size ∧
      hash f.digest.kind content = f.digest.value

theorem Published.resolves (hf : f ∈ R.files) (h : Published R disk f) : Resolves hash disk f :=
  ⟨h.1, R.content f, h.2, (R.size f hf).symm, R.digest f hf⟩

theorem init_exists (R : Repository hash) {ω : Type} [DecidableEq ω] :
    ∃ s : State ω, (system hash R.content R.files).init s := by
  obtain ⟨t, hPrepared, _⟩ := @prepare_ok hash R
  exact ⟨⟨R.files, fun _ => .idle, ⟨t, fun _ => none, emptyTree⟩, none⟩, rfl, fun _ => rfl, rfl, rfl, fun _ => rfl,
    hPrepared⟩

theorem Sound.resolves {s : State (Fin (workerCount R.files))} (hSound : Sound R s) (hFinished : s.Finished) :
    ∀ f ∈ R.files, Resolves hash s.disk f := by
  intro f hf
  have hWorkers : 0 < workerCount R.files := by
    have hLen := length_pos_of_mem hf
    unfold workerCount hfDownloadConcurrency
    omega
  obtain ⟨taken, hFiles, _, hDone⟩ := hSound.taken
  rw [hSound.gone ⟨0, hWorkers⟩ (hFinished _), append_nil] at hFiles
  rcases hDone f (hFiles ▸ hf) with ⟨w, phase, hBusy⟩ | hPub
  · rw [hFinished w] at hBusy
    cases hBusy
  · exact hPub.resolves hf

def promptNetwork (content : File → Resume.Bytes) : Network content where
  attempt f _ := ⟨Resume.plainServer (content f), .none, false, false⟩
  honest f := Resume.plainServer_honest (content f)
  faultless _ := rfl

theorem enabled_of_unfinished {ω : Type} [DecidableEq ω] {s : State ω} (h : ¬s.Finished) :
    ∃ e, (system hash R.content R.files).enabled s e := by
  unfold State.Finished at h
  rw [not_forall] at h
  obtain ⟨w, hw⟩ := h
  cases hWorker : s.worker w with
  | idle => exact ⟨(w, .take), by simp only [system, hWorker]⟩
  | busy f phase => exact ⟨(w, .run (promptNetwork R.content) false), by simp only [system, hWorker]⟩
  | gone => exact absurd hWorker hw

/-- The download starts, none of its steps fails, it comes to an end, and then every file is published. -/
theorem snapshot_succeeds (R : Repository hash) (hSeparate : R.Separate) (hEmpty : R.NoneEmpty) :
    (∃ s : State (Fin (workerCount R.files)), (system hash R.content R.files).init s) ∧
      ∀ s : State (Fin (workerCount R.files)), (system hash R.content R.files).Reachable LinksFresh s →
        s.error = none ∧
        (s.Finished → s.result = .ok () ∧ ∀ f ∈ R.files, Resolves hash s.disk f) ∧
        (¬s.Finished → ∃ e, (system hash R.content R.files).enabled s e) ∧
        ∀ e, (system hash R.content R.files).enabled s e → rank ((system hash R.content R.files).next s e) < rank s := by
  refine ⟨R.init_exists, fun s hReach => ?_⟩
  have hSound : Sound R s := hReach.invariant (fun _ => sound_init hSeparate)
    fun _ _ hSound hOn hFresh => sound_step hSeparate hEmpty hSound hOn hFresh
  refine ⟨hSound.error, fun hDone => ⟨?_, hSound.resolves hDone⟩, enabled_of_unfinished, fun _ => step_rank⟩
  rw [State.result, hSound.error]

end Repository

instance {ω : Type} [DecidableEq ω] {hash : Hash} {content : File → Resume.Bytes} {files : List File} (s : State ω)
    (e : ω × Action content) : Decidable ((system hash content files).enabled s e) := by
  unfold system
  dsimp only
  split
  · infer_instance
  · infer_instance
  · infer_instance

instance {ω : Type} {content : File → Resume.Bytes} (s : State ω) (e : ω × Action content) :
    Decidable (Repository.LinksFresh s e) := by
  unfold Repository.LinksFresh
  split
  · infer_instance
  · infer_instance

/-- The SHA-256 of the content that both files have. -/
def sampleHash : Hash
  | .sha256, [1] => "4bf5122f344554c53bde2ebb8cd2b7e3d1600ad631c385a5d7cce23c7785459a".toList
  | _, _ => []

def sampleFile (name : String) : File := ⟨name.toList, [], 1, ⟨.sha256, sampleHash .sha256 [1]⟩⟩

def sampleRepository : Repository sampleHash where
  files := [sampleFile "a", sampleFile "b"]
  content _ := [1]
  distinct := by decide
  tree := by decide
  size := by decide
  bounded := by decide
  valid := by decide +kernel
  digest := by decide +kernel
  names _ _ _ _ _ := rfl

abbrev SampleWorker := Fin (workerCount sampleRepository.files)

def first : SampleWorker := ⟨0, by decide⟩

def second : SampleWorker := ⟨1, by decide⟩

def sampleStart : State SampleWorker :=
  ⟨sampleRepository.files, fun _ => .idle, ⟨emptyTree, fun _ => none, emptyTree⟩, none⟩

theorem sampleStart_init : (system sampleHash sampleRepository.content sampleRepository.files).init sampleStart :=
  ⟨rfl, fun _ => rfl, rfl, rfl, fun _ => rfl, by rfl⟩

def work (w : SampleWorker) (steps : Nat) : List (SampleWorker × Action sampleRepository.content) :=
  (w, .take) :: List.replicate steps (w, .run (Repository.promptNetwork _) false)

theorem sampleRepository_separate : sampleRepository.Separate := by
  unfold Repository.Separate
  decide

theorem sampleRepository_noneEmpty : sampleRepository.NoneEmpty := by
  unfold Repository.NoneEmpty
  decide

def inTurn : List (SampleWorker × Action sampleRepository.content) :=
  work first 7 ++ work second 7 ++ work first 0 ++ work second 0

theorem snapshot_succeeds_in_turn : ∃ s : State SampleWorker, s.Finished ∧ s.result = .ok () ∧
      ∀ f ∈ sampleRepository.files, Repository.Resolves sampleHash s.disk f := by
  have hMay : (system sampleHash sampleRepository.content sampleRepository.files).Allowed Repository.LinksFresh
      sampleStart inTurn := by
    decide +kernel
  have hFinished : ((system sampleHash sampleRepository.content sampleRepository.files).exec sampleStart inTurn).Finished := by
    unfold State.Finished
    decide +kernel
  obtain ⟨_, hEvery⟩ := Repository.snapshot_succeeds sampleRepository sampleRepository_separate sampleRepository_noneEmpty
  obtain ⟨_, hDone, _⟩ := hEvery _ (System.Reachable.of_allowed sampleStart_init hMay)
  exact ⟨_, hFinished, hDone hFinished⟩

def together : List (SampleWorker × Action sampleRepository.content) :=
  work first 4 ++ work second 4 ++ [(first, .run (Repository.promptNetwork _) false),
    (second, .run (Repository.promptNetwork _) false), (first, .run (Repository.promptNetwork _) false),
    (first, .run (Repository.promptNetwork _) false), (first, .take)]

theorem snapshot_fails_together : sampleRepository.Separate ∧ sampleRepository.NoneEmpty ∧
      ∃ s : State SampleWorker,
        (system sampleHash sampleRepository.content sampleRepository.files).Reachable (fun _ _ => True) s ∧
          s.Finished ∧ s.result = .error .disk := by
  have hMay : (system sampleHash sampleRepository.content sampleRepository.files).Allowed (fun _ _ => True)
      sampleStart together := by
    decide +kernel
  have hError : ((system sampleHash sampleRepository.content sampleRepository.files).exec sampleStart together).error =
      some .disk := by
    decide +kernel
  refine ⟨sampleRepository_separate, sampleRepository_noneEmpty, _,
    System.Reachable.of_allowed sampleStart_init hMay, ?_, ?_⟩
  · unfold State.Finished
    decide +kernel
  · rw [State.result, hError]

end LocalModelWorks.Agent.Snapshot
