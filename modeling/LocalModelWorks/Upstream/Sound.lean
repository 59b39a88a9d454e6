import LocalModelWorks.Upstream.Runtime
import Mathlib.Data.List.Nodup

/-!
# Which changes of the records keep one owner per name

The invariant speaks about all copies of the records, in memory and on disk, at once.
-/

namespace LocalModelWorks.Upstream

open List

namespace Record

variable (record : Record)

/-- Only an observer arms itself: another installation has no earlier ids and no attachments. -/
def Plain : Prop := record.spec.observeOnly = false → record.before = [] ∧ record.attached = []

structure Quiet (old new : Record) : Prop where
  id : new.id = old.id
  spec : new.spec = old.spec
  owns : new.owns = true → old.owns = true
  plain : old.Plain → new.Plain

/-- A quiet change that neither revokes a record nor loses what a managed installation has to undo. -/
structure Tame (old new : Record) : Prop extends Quiet old new where
  superseded : new.superseded = old.superseded
  evidence : old.spec.observeOnly = false → old.hasEvidence = true → new.hasEvidence = true

theorem Tame.refl : Tame record record := ⟨⟨rfl, rfl, fun h => h, fun h => h⟩, rfl, fun _ h => h⟩

theorem Tame.trans {a b c : Record} (hFirst : Tame a b) (hSecond : Tame b c) : Tame a c where
  id := hSecond.id.trans hFirst.id
  spec := hSecond.spec.trans hFirst.spec
  owns h := hFirst.owns (hSecond.owns h)
  plain h := hSecond.plain (hFirst.plain h)
  superseded := hSecond.superseded.trans hFirst.superseded
  evidence hOurs h := hSecond.evidence (by rw [hFirst.spec, hOurs]) (hFirst.evidence hOurs h)

variable {old new : Record}

theorem Tame.of_evidence (hId : new.id = old.id) (hSpec : new.spec = old.spec)
    (hOld : new.superseded = old.superseded) (hEvidence : old.hasEvidence = true)
    (hNew : old.spec.observeOnly = false → new.hasEvidence = true) (hPlain : old.Plain → new.Plain) :
    Tame old new where
  id := hId
  spec := hSpec
  owns h := by
    simp only [Record.owns, Bool.and_eq_true] at h ⊢
    exact ⟨hOld ▸ h.1, hEvidence⟩
  plain := hPlain
  superseded := hOld
  evidence hOurs _ := hNew hOurs

theorem tame_stopped (b : Bool) : Tame record { record with stopped := b } :=
  ⟨⟨rfl, rfl, fun h => h, fun h => h⟩, rfl, fun _ h => h⟩

end Record

theorem upstreamNamesOverlap_congr {a a' b b' : Record} (ha : a.spec = a'.spec) (hb : b.spec = b'.spec) :
    upstreamNamesOverlap a b = upstreamNamesOverlap a' b' := by
  simp only [upstreamNamesOverlap, ha, hb]

namespace State

def copies (s : State) : List Record := s.memory ++ s.disk

theorem mem_copies {s : State} {record : Record} : record ∈ s.copies ↔ record ∈ s.memory ∨ record ∈ s.disk :=
  mem_append

def MayClaim (s : State) (record : Record) : Prop :=
  ∀ c ∈ s.copies, c.id ≠ record.id → upstreamNamesOverlap record c = true → c.owns = false

structure Sound (s : State) : Prop where
  exclusive : ∀ c ∈ s.copies, c.owns = true → s.MayClaim c
  frozen : ∀ a ∈ s.copies, ∀ b ∈ s.copies, a.id = b.id → a.spec = b.spec
  plain : ∀ c ∈ s.copies, c.Plain
  ids : (s.memory.map Record.id).Nodup
  files : (s.disk.map Record.id).Nodup
  known : s.alive = true → ∀ d ∈ s.disk, d.owns = true → ∃ record ∈ s.memory, record.id = d.id

variable {s : State} {old new record : Record}

theorem Sound.eq_of_id (h : s.Sound) (hOld : old ∈ s.memory) (hNew : new ∈ s.memory) (hId : old.id = new.id) :
    old = new :=
  inj_on_of_nodup_map h.ids hOld hNew hId

theorem mem_copies_store {c : Record} (h : c ∈ (s.store new).copies) : c = new ∨ c ∈ s.copies := by
  rcases mem_copies.mp h with hMem | hDisk
  · exact (mem_replace hMem).imp_right fun hOld => mem_copies.mpr (.inl hOld.1)
  · exact .inr (mem_copies.mpr (.inr hDisk))

theorem mem_copies_persist {c : Record} (h : c ∈ (s.persist new).copies) : c = new ∨ c ∈ s.copies := by
  rcases mem_copies.mp h with hMem | hDisk
  · exact .inr (mem_copies.mpr (.inl hMem))
  · exact (mem_replace hDisk).imp_right fun hOld => mem_copies.mpr (.inr hOld.1)

theorem MayClaim.of_own {t : State} (h : s.MayClaim record)
    (hCopies : ∀ c ∈ t.copies, c.id = record.id ∨ c ∈ s.copies) : t.MayClaim record := by
  intro c hMem hId hOverlap
  exact h c ((hCopies c hMem).resolve_left hId) hId hOverlap

theorem MayClaim.congr (h : s.MayClaim old) (hId : new.id = old.id) (hSpec : new.spec = old.spec) : s.MayClaim new := by
  intro c hMem hNe hOverlap
  rw [upstreamNamesOverlap_congr hSpec rfl] at hOverlap
  exact h c hMem (hId ▸ hNe) hOverlap

theorem MayClaim.store (h : s.MayClaim record) (hId : new.id = record.id) : (s.store new).MayClaim record :=
  h.of_own fun c hMem => (mem_copies_store hMem).imp_left fun (hEq : c = new) => hEq ▸ hId

theorem MayClaim.persist (h : s.MayClaim record) (hId : new.id = record.id) : (s.persist new).MayClaim record :=
  h.of_own fun c hMem => (mem_copies_persist hMem).imp_left fun (hEq : c = new) => hEq ▸ hId

theorem Sound.mayClaim (h : s.Sound) (hMem : record ∈ s.memory) (hOwns : record.owns = true) : s.MayClaim record :=
  h.exclusive record (mem_copies.mpr (.inl hMem)) hOwns

theorem exclusive_insert {t : State} (h : s.Sound) (hClaim : new.owns = true → s.MayClaim new)
    (hCopies : ∀ c ∈ t.copies, c = new ∨ c ∈ s.copies) :
    ∀ c ∈ t.copies, c.owns = true → t.MayClaim c := by
  intro c hMem hOwns d hOther hId hOverlap
  rcases hCopies c hMem with rfl | hMem <;> rcases hCopies d hOther with rfl | hOther
  · exact absurd rfl hId
  · exact hClaim hOwns d hOther hId hOverlap
  · by_contra hNew
    rw [Bool.not_eq_false] at hNew
    rw [upstreamNamesOverlap_comm] at hOverlap
    have hFree := hClaim hNew c hMem hId.symm hOverlap
    simp [hFree] at hOwns
  · exact h.exclusive c hMem hOwns d hOther hId hOverlap

theorem Sound.store_claim (h : s.Sound) (hOld : old ∈ s.memory) (hId : new.id = old.id) (hSpec : new.spec = old.spec)
    (hPlain : old.Plain → new.Plain) (hClaim : new.owns = true → s.MayClaim new) : (s.store new).Sound where
  exclusive := exclusive_insert h hClaim fun _ => mem_copies_store
  frozen := by
    have hSame : ∀ c ∈ s.copies, c.id = new.id → c.spec = new.spec := fun c hMem hEq =>
      (h.frozen c hMem old (mem_copies.mpr (.inl hOld)) (hEq.trans hId)).trans hSpec.symm
    intro a ha b hb hEq
    rcases mem_copies_store ha with hNew | hOldA <;> rcases mem_copies_store hb with hNew' | hOldB
    · rw [hNew, hNew']
    · subst hNew
      exact (hSame b hOldB hEq.symm).symm
    · subst hNew'
      exact hSame a hOldA hEq
    · exact h.frozen a hOldA b hOldB hEq
  plain c hMem := by
    rcases mem_copies_store hMem with rfl | hMem
    · exact hPlain (h.plain old (mem_copies.mpr (.inl hOld)))
    · exact h.plain c hMem
  ids := by
    change ((replace s.memory new).map Record.id).Nodup
    rw [map_id_replace]
    exact h.ids
  files := h.files
  known hAlive d hDisk hOwns := by
    obtain ⟨record, hMem, hEq⟩ := h.known hAlive d hDisk hOwns
    by_cases hNew : record.id = new.id
    · exact ⟨new, mem_replace_self hMem hNew, hNew.symm.trans hEq⟩
    · exact ⟨record, mem_replace_of_ne hMem hNew, hEq⟩

theorem Sound.store (h : s.Sound) (hOld : old ∈ s.memory) (hQuiet : old.Quiet new) : (s.store new).Sound :=
  h.store_claim hOld hQuiet.id hQuiet.spec hQuiet.plain fun hOwns =>
    (h.mayClaim hOld (hQuiet.owns hOwns)).congr hQuiet.id hQuiet.spec

theorem Sound.persist (h : s.Sound) (hMem : record ∈ s.memory) : (s.persist record).Sound := by
  have hCopy : record ∈ s.copies := mem_copies.mpr (.inl hMem)
  have hCopies : ∀ c ∈ (s.persist record).copies, c ∈ s.copies := by
    intro c hc
    rcases mem_copies_persist hc with rfl | hc
    · exact hCopy
    · exact hc
  refine ⟨?_, ?_, ?_, h.ids, ?_, ?_⟩
  · exact exclusive_insert h (fun hOwns => h.exclusive record hCopy hOwns) fun _ => mem_copies_persist
  · exact fun a ha b hb => h.frozen a (hCopies a ha) b (hCopies b hb)
  · exact fun c hc => h.plain c (hCopies c hc)
  · change ((replace s.disk record).map Record.id).Nodup
    rw [map_id_replace]
    exact h.files
  intro hAlive d hDisk hOwns
  rcases mem_replace hDisk with rfl | ⟨hDisk, _⟩
  · exact ⟨d, hMem, rfl⟩
  · exact h.known hAlive d hDisk hOwns

theorem store_mem (hOld : old ∈ s.memory) (hId : new.id = old.id) : new ∈ (s.store new).memory :=
  mem_replace_self hOld hId.symm

theorem store_mem_of_ne {other : Record} (hMem : other ∈ s.memory) (hId : other.id ≠ new.id) :
    other ∈ (s.store new).memory :=
  mem_replace_of_ne hMem hId

theorem Sound.die (h : s.Sound) : s.die.Sound := by
  have hCopies : ∀ c ∈ s.die.copies, c ∈ s.copies := by
    intro c hc
    rcases mem_copies.mp hc with hc | hc
    · cases hc
    · exact mem_copies.mpr (.inr hc)
  refine ⟨?_, ?_, ?_, nodup_nil, h.files, ?_⟩
  · exact fun c hc hOwns d hd => h.exclusive c (hCopies c hc) hOwns d (hCopies d hd)
  · exact fun a ha b hb => h.frozen a (hCopies a ha) b (hCopies b hb)
  · exact fun c hc => h.plain c (hCopies c hc)
  · intro hAlive
    cases hAlive

theorem Sound.create (h : s.Sound) {id : RecordID} (hFresh : s.fresh id) (spec : ContainerSpec) {t : State}
    (hAlive : t.alive = s.alive) (hMemory : t.memory = { id := id, spec := spec } :: s.memory ∨ t.memory = s.memory)
    (hDisk : t.disk = { id := id, spec := spec } :: s.disk) : t.Sound := by
  have hNew : ∀ c ∈ s.copies, c.id ≠ id := by
    intro c hc hEq
    rcases mem_copies.mp hc with hc | hc
    · exact hFresh.1 (hEq ▸ mem_map_of_mem hc)
    · exact hFresh.2 (hEq ▸ mem_map_of_mem hc)
  have hOld : ∀ record ∈ s.memory, record ∈ t.memory := by
    intro record hMem
    rcases hMemory with hMemory | hMemory <;> rw [hMemory]
    · exact mem_cons_of_mem _ hMem
    · exact hMem
  have hCopies : ∀ c ∈ t.copies, c = { id := id, spec := spec } ∨ c ∈ s.copies := by
    intro c hc
    rcases mem_copies.mp hc with hc | hc
    · rcases hMemory with hMemory | hMemory <;> rw [hMemory] at hc
      · exact (mem_cons.mp hc).imp_right fun hc => mem_copies.mpr (.inl hc)
      · exact .inr (mem_copies.mpr (.inl hc))
    · rw [hDisk] at hc
      exact (mem_cons.mp hc).imp_right fun hc => mem_copies.mpr (.inr hc)
  refine ⟨exclusive_insert h (fun hOwns => by cases hOwns) hCopies, ?_, ?_, ?_, ?_, ?_⟩
  · intro a ha b hb hEq
    rcases hCopies a ha with rfl | ha <;> rcases hCopies b hb with rfl | hb
    · rfl
    · exact absurd hEq.symm (hNew b hb)
    · exact absurd hEq (hNew a ha)
    · exact h.frozen a ha b hb hEq
  · intro c hc
    rcases hCopies c hc with rfl | hc
    · exact fun _ => ⟨rfl, rfl⟩
    · exact h.plain c hc
  · rcases hMemory with hMemory | hMemory <;> rw [hMemory]
    · exact nodup_cons.mpr ⟨hFresh.1, h.ids⟩
    · exact h.ids
  · rw [hDisk]
    exact nodup_cons.mpr ⟨hFresh.2, h.files⟩
  intro hLive d hd hOwns
  rw [hDisk] at hd
  rcases mem_cons.mp hd with rfl | hd
  · cases hOwns
  · obtain ⟨record, hMem, hEq⟩ := h.known (hAlive ▸ hLive) d hd hOwns
    exact ⟨record, hOld record hMem, hEq⟩

theorem exists_loaded_from {files records : List Record} (hLoaded : List.Forall₂ Record.Quiet files records) :
    ∀ c ∈ records, ∃ d ∈ files, d.Quiet c := by
  induction hLoaded with
  | nil => simp
  | cons hQuiet _ ih =>
    intro c hc
    rcases mem_cons.mp hc with rfl | hc
    · exact ⟨_, mem_cons_self, hQuiet⟩
    · exact exists_mem_cons_of_exists (ih c hc)

theorem Sound.load (h : s.Sound) {records : List Record} (hLoaded : List.Forall₂ Record.Quiet s.disk records)
    (allowExecution : Bool) :
    State.Sound { s with alive := true, allowExecution := allowExecution, memory := records } := by
  have hSource : ∀ c, c ∈ records ++ s.disk → ∃ d ∈ s.disk, d.Quiet c := by
    intro c hc
    rcases mem_append.mp hc with hc | hc
    · exact exists_loaded_from hLoaded c hc
    · exact ⟨c, hc, (Record.Tame.refl c).toQuiet⟩
  have hIds : records.map Record.id = s.disk.map Record.id := by
    have hEq : List.Forall₂ (· = ·) (s.disk.map Record.id) (records.map Record.id) :=
      forall₂_map_left_iff.mpr (forall₂_map_right_iff.mpr (hLoaded.imp fun _ _ hQuiet => hQuiet.id.symm))
    exact (forall₂_eq_eq_eq ▸ hEq).symm
  refine ⟨?_, ?_, ?_, hIds ▸ h.files, h.files, ?_⟩
  · intro c hc hOwns d hd hId hOverlap
    obtain ⟨c', hc', hQuiet⟩ := hSource c hc
    obtain ⟨d', hd', hQuiet'⟩ := hSource d hd
    rw [upstreamNamesOverlap_congr hQuiet.spec hQuiet'.spec] at hOverlap
    have hFree := h.exclusive c' (mem_copies.mpr (.inr hc')) (hQuiet.owns hOwns) d' (mem_copies.mpr (.inr hd'))
      (by rw [← hQuiet.id, ← hQuiet'.id]; exact hId) hOverlap
    by_contra hNew
    rw [Bool.not_eq_false] at hNew
    simp [hQuiet'.owns hNew] at hFree
  · intro a ha b hb hEq
    obtain ⟨a', ha', hQuiet⟩ := hSource a ha
    obtain ⟨b', hb', hQuiet'⟩ := hSource b hb
    rw [hQuiet.spec, hQuiet'.spec]
    exact h.frozen a' (mem_copies.mpr (.inr ha')) b' (mem_copies.mpr (.inr hb'))
      (by rw [← hQuiet.id, ← hQuiet'.id]; exact hEq)
  · intro c hc
    obtain ⟨c', hc', hQuiet⟩ := hSource c hc
    exact hQuiet.plain (h.plain c' (mem_copies.mpr (.inr hc')))
  intro _ d hd _
  have hMem : d.id ∈ records.map Record.id := hIds ▸ mem_map_of_mem hd
  exact mem_map.mp hMem

end State

end LocalModelWorks.Upstream
