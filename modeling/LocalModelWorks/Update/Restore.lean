import LocalModelWorks.Update.Moves

/-!
# Failed and cancelled updates restore the sources

Across every life of the controller the run keeps a record of the replacements that it
created: in memory while the coordinator works, in the ledger when the controller is
stopped.
-/

namespace LocalModelWorks.Update

open List
open Recipe (Text)
open Program

def Ended (s : State) : Prop := s.run = .cancelled ∨ (s.run = .failed ∧ s.errorCode = "recipe.update_failed")

structure Restored (input : Input) (s : State) : Prop where
  sources : ∀ d ∈ input.deployments, d.sourceWasStopped = false → Up s d.source
  replacements : ∀ id ∈ s.created, Down s id

def guard (input : Input) (s : State) : Event → Prop
  | .live env => FairWorld input env
  | .stop => AllSaved s

variable {input : Input}

structure Sound (input : Input) (o : Outline) : Prop where
  devices : o.devices = input.installedDevices.length
  sources : o.records.map Prod.fst = input.targets.map Target.source
  uniform : ∀ r ∈ o.records, ∀ r' ∈ o.records, r.1 = r'.1 → r.2 = r'.2
  owners : ∀ r ∈ o.records, r.2 ≠ none → ∃ d ∈ input.deployments, d.source = r.1
  separate : input.deployments.Pairwise fun d e => e.sourceWasStopped = false → (d.source, some e.source) ∉ o.records

def Recorded (o : Outline) (id : Text) : Prop := ∃ r ∈ o.records, r.2 = some id

variable {p : Progress} {id source message : Text} {a : Set Text} {new : Runs.State} {code : String}
  {r : Text × Option Text}

theorem mem_records : r ∈ p.outline.records ↔ ∃ t ∈ p.hardware, (t.source, t.replacement) = r := mem_map

theorem replacementOf_mem (h : p.replacementOf source = some id) : (source, some id) ∈ p.outline.records := by
  obtain ⟨t, hMem, hValue⟩ := exists_of_findSome?_eq_some h
  split at hValue
  · exact mem_records.mpr ⟨t, hMem, by rw [‹t.source = source›, hValue]⟩
  · cases hValue

theorem replacementOf_eq_none_iff : p.replacementOf source = none ↔ ∀ id, (source, some id) ∉ p.outline.records := by
  refine ⟨fun h id hMem => ?_, fun h => Option.eq_none_iff_forall_ne_some.mpr fun id hFound => h id (replacementOf_mem hFound)⟩
  obtain ⟨t, hTarget, hRecord⟩ := mem_records.mp hMem
  obtain ⟨hSource, hRepl⟩ := Prod.mk.inj hRecord
  have hNone := findSome?_eq_none_iff.mp h t hTarget
  rw [if_pos hSource, hRepl] at hNone
  cases hNone

theorem Sound.replacementOf (h : Sound input p.outline) (hMem : (source, some id) ∈ p.outline.records) :
    p.replacementOf source = some id := by
  cases hFound : p.replacementOf source with
  | none => exact absurd hMem (replacementOf_eq_none_iff.mp hFound id)
  | some other => exact h.uniform _ (replacementOf_mem hFound) _ hMem rfl

theorem sound_initial (input : Input) : Sound input (initialProgress input).outline := by
  have hNone : ∀ r ∈ (initialProgress input).outline.records, r.2 = none := by
    intro r hr
    obtain ⟨t, hMem, rfl⟩ := mem_records.mp hr
    exact input.fresh t hMem
  refine ⟨?_, ?_, ?_, ?_, ?_⟩
  · simp [Progress.outline, initialProgress, repositoryUpdateDeviceProgressFrom]
  · simp [Progress.outline, initialProgress]
  · intro r hr r' hr' _
    rw [hNone r hr, hNone r' hr']
  · intro r hr hSome
    exact absurd (hNone r hr) hSome
  · refine pairwise_of_forall fun d e _ hMem => ?_
    cases hNone _ hMem

structure Core (input : Input) (s : State) : Prop where
  live : s.run.terminal = false
  present : ∀ d ∈ input.deployments, (s.rows d.source).isSome
  known : ∀ id ∈ s.created, (s.rows id).isSome
  fresh : ∀ id ∈ s.created, ∀ d ∈ input.deployments, d.source ≠ id
  saved : ∀ o, s.saved.map Progress.outline = some o → Sound input o

structure Working (input : Input) (s : State) : Prop extends Core input s where
  progress : Sound input s.progress.outline
  held : ∀ id ∈ s.created, Recorded s.progress.outline id
  controller : s.controller = .working

structure Left (input : Input) (s : State) : Prop extends Core input s where
  kept : s.controller = .stopped → AllSaved s
  controller : s.controller ≠ .working

variable {s t : State}

theorem Core.moved (h : Core input s) (hSound : Sound input s.progress.outline) (hMoved : Moved a s t) :
    Core input t where
  live := hMoved.run h.live
  present d hd := hMoved.present _ (h.present d hd)
  known id hId := hMoved.present _ (h.known id (hMoved.created ▸ hId))
  fresh id hId := h.fresh id (hMoved.created ▸ hId)
  saved o ho := by
    rcases hMoved.saved with hSame | hNew
    · exact h.saved o (hSame ▸ ho)
    rw [hNew] at ho
    cases ho
    exact hSound

variable {s : State}

theorem Working.moved (h : Working input s) (hMoved : Moved a s t) : Working input t where
  toCore := h.toCore.moved h.progress hMoved
  progress := by
    rw [hMoved.outline]
    exact h.progress
  held id hId := by
    rw [hMoved.outline]
    exact h.held id (hMoved.created ▸ hId)
  controller := hMoved.controller.trans h.controller

theorem Working.ends (h : Working input s) (hEnds : Ends a s t) : Left input t := by
  cases hEnds with
  | stopped hMoved hSaved => exact ⟨{ h.moved hMoved with }, fun _ => hSaved, nofun⟩
  | resting hMoved => exact ⟨{ h.moved hMoved with }, nofun, nofun⟩

def Keeps {α : Type} (input : Input) (P : State → Prop) (x : Prog α) (Q : α → State → Prop) : Prop :=
  Spec (FairWorld input) (fun s => Working input s ∧ P s) x (fun v s => Working input s ∧ Q v s)
    (fun _ => Working input) (Left input)

variable {α : Type}

/-- The part of a life that looks for a replacement. -/
def Within {α : Type} (input : Input) (P : State → Prop) (x : Prog α) (Q : α → State → Prop) : Prop :=
  Spec (FairWorld input) P x Q (fun _ => Working input) (Left input)

variable {P : State → Prop} {x : Prog α} {Q : α → State → Prop}

theorem Working.within (h : Working input s) (hSpec : Spec (FairWorld input) P x Q (fun _ => Moved a s) (Ends a s)) :
    Within input P x Q :=
  hSpec.weaken (fun _ => id) (fun _ _ => id) (fun _ _ => h.moved) fun _ => h.ends

theorem Acts.keeps (h : Acts input a P x Q) : Keeps input P x Q :=
  spec_of_state fun s hs => (hs.1.within (h s hs.2)).post fun _ _ ht => ⟨hs.1.moved ht.1, ht.2⟩

section Rules

variable {β : Type} {R : β → State → Prop}

theorem Keeps.bind {f : α → Prog β} (hx : Keeps input P x Q) (hf : ∀ v, Keeps input (Q v) (f v) R) :
    Keeps input P (x >>= f) R :=
  spec_bind hx hf

theorem Touches.keeps (h : Touches input id x) : Keeps input (fun _ => True) x fun _ _ => True := Acts.keeps h

theorem Quiet.keeps (h : Quiet input x) : Keeps input (fun _ => True) x fun _ _ => True := Acts.keeps h

end Rules

def Fits (input : Input) (d : Deployment) (id : Text) : Prop :=
  input.deployments.Pairwise fun d' e => d'.source = d.source → e.sourceWasStopped = false → id ≠ e.source

structure Found (input : Input) (d : Deployment) (id : Text) (s : State) : Prop extends Core input s where
  progress : Sound input s.progress.outline
  held : ∀ other ∈ s.created, other = id ∨ Recorded s.progress.outline other
  unrecorded : s.progress.replacementOf d.source = none
  fits : Fits input d id
  controller : s.controller = .working

variable {d : Deployment}

theorem Working.found (h : Working input s)
    (hNone : s.progress.replacementOf d.source = none) (hFits : Fits input d id) : Found input d id s :=
  ⟨h.toCore, h.progress, fun other hOther => .inr (h.held other hOther), hNone, hFits, h.controller⟩

theorem fits_of_existing {w : World} {row : Row} (hd : d ∈ input.deployments) (hFair : Fair input w)
    (hFound : w.existing d = .found id row) : Fits input d id := by
  refine hFair.existing.imp_of_mem ?_
  intro d' e hd' _ hNot hSource hRan hId
  rw [(inj_on_of_nodup_map input.distinct hd' hd hSource)] at hNot
  exact hNot hRan row (hId ▸ hFound)

theorem fits_of_fresh (h : ∀ e ∈ input.deployments, e.source ≠ id) : Fits input d id := by
  refine List.Pairwise.imp_of_mem ?_ (pairwise_of_forall fun _ _ => trivial)
  intro _ e _ he _ _ _ hId
  exact h e he hId.symm

section Replacement

variable {D : Plan.Digester} {d : Deployment}

def Open (d : Deployment) (s : State) : Prop := s.progress.replacementOf d.source = none

theorem Open.moved (h : Open d s) (hMoved : Moved a s t) : Open d t := by
  rwa [Open, replacementOf_eq_none_iff, hMoved.outline, ← replacementOf_eq_none_iff]

theorem Touches.keepsOpen {x : Prog α} (h : Touches input id x) : Keeps input (Open d) x fun _ => Open d :=
  (Acts.frame h subset_rfl fun _ _ hMoved hOpen => hOpen.moved hMoved).keeps

theorem within_call : Within input (fun s => Working input s ∧ Open d s) call
    fun w s => Fair input w ∧ Working input s ∧ Open d s :=
  Spec.post (acts_call (a := ∅)).keeps fun _ _ h => ⟨h.2.1, h.1, h.2.2⟩

theorem insert_spec (id runID : Text) :
    Within input (fun s => Working input s ∧ Open d s) (insert id runID) fun _ => Found input d id := by
  refine spec_bind (Q := fun v s => v = s ∧ Working input s ∧ Open d s) (spec_state fun s hs => ⟨rfl, hs⟩) fun v => ?_
  refine spec_ite (fun _ => spec_fail fun s hs => hs.2.1) fun hUnknown => spec_modify ?_
  rintro s ⟨rfl, hWork, hOpen⟩
  have hNone : v.rows id = none := by simpa using hUnknown
  have hSource : ∀ e ∈ input.deployments, e.source ≠ id := by
    rintro e he rfl
    have hSome := hWork.present e he
    rw [hNone] at hSome
    cases hSome
  refine ⟨⟨hWork.live, ?_, ?_, ?_, hWork.saved⟩, hWork.progress, ?_, hOpen, fits_of_fresh hSource,
    hWork.controller⟩
  · exact fun e he => isSome_update (hWork.present e he)
  · intro other hOther
    rcases mem_cons.mp hOther with rfl | hOther
    · simp
    · exact isSome_update (hWork.known other hOther)
  · intro other hOther e he
    rcases mem_cons.mp hOther with rfl | hOther
    · exact hSource e he
    · exact hWork.fresh other hOther e he
  intro other hOther
  rcases mem_cons.mp hOther with rfl | hOther
  · exact .inl rfl
  · exact .inr (hWork.held other hOther)

theorem createPlanned_spec : Within input (fun s => Working input s ∧ Open d s) createPlanned (Found input d) := by
  refine spec_bind within_call fun w => spec_of_fact fun hFair => ?_
  cases hCreation : w.creation with
  | refused message => exact spec_fail fun _ h => h.1
  | created id => exact spec_bind (insert_spec id w.serveID) fun _ => spec_pure fun _ h => h
  | unread id message => exact absurd hCreation (hFair.creation id message)

theorem createReplacement_spec :
    Within input (fun s => Working input s ∧ Open d s) (createReplacement D input d) (Found input d) := by
  refine spec_bind (@Quiet.touches _ input [] _ quiet_call).keepsOpen fun w => ?_
  cases w.plan d with
  | error message => exact spec_fail fun s hs => hs.1
  | ok fresh =>
    refine spec_ite (fun _ => spec_fail fun s hs => hs.1) fun _ => ?_
    exact spec_ite (fun _ => spec_fail fun s hs => hs.1) fun _ => createPlanned_spec

theorem keeps_adoptReplacement (id : Text) (row : Row) :
    Keeps input (Open d) (adoptReplacement id row) fun v s => v = id ∧ Open d s := by
  refine (touches_see row).keepsOpen.bind fun _ => ?_
  refine spec_ite (fun _ => ?_) fun _ => spec_pure fun s hs => ⟨hs.1, rfl, hs.2⟩
  exact Keeps.bind (touches_start id).keepsOpen fun _ => spec_pure fun s hs => ⟨hs.1, rfl, hs.2⟩

theorem findReplacement_spec (hd : d ∈ input.deployments) :
    Within input (fun s => Working input s ∧ Open d s) (findReplacement D input d) (Found input d) := by
  refine spec_bind within_call fun w => spec_of_fact fun hFair => ?_
  cases hExisting : w.existing d with
  | found id row =>
    have hFits := fits_of_existing hd hFair hExisting
    refine Spec.post (keeps_adoptReplacement id row) ?_
    rintro v t ⟨hWork, rfl, hOpen⟩
    exact hWork.found hOpen hFits
  | noRows => exact createReplacement_spec
  | failed message => exact spec_fail fun _ h => h.1

variable {update : Target → Target}

theorem mem_records_record
    (hSource : ∀ t, (update t).source = t.source) (hRepl : ∀ t, (update t).replacement = some id) :
    r ∈ ({ s.progress with
    hardware := s.progress.hardware.map fun t => if t.source = d.source then update t else t } : Progress).outline.records ↔
    (r = (d.source, some id) ∧ ∃ r' ∈ s.progress.outline.records, r'.1 = d.source) ∨
    (r ∈ s.progress.outline.records ∧ r.1 ≠ d.source) := by
  rw [mem_records]
  constructor
  · rintro ⟨t', ht', rfl⟩
    obtain ⟨t, ht, rfl⟩ := mem_map.mp ht'
    by_cases hEq : t.source = d.source
    · rw [if_pos hEq, hSource, hRepl]
      exact .inl ⟨by rw [hEq], _, mem_records.mpr ⟨t, ht, rfl⟩, hEq⟩
    · rw [if_neg hEq]
      exact .inr ⟨mem_records.mpr ⟨t, ht, rfl⟩, hEq⟩
  rintro (⟨rfl, r', hr', hEq⟩ | ⟨hr, hEq⟩)
  · obtain ⟨t, ht, rfl⟩ := mem_records.mp hr'
    refine ⟨_, mem_map_of_mem ht, ?_⟩
    have hSourceEq : t.source = d.source := hEq
    rw [if_pos hSourceEq, hSource, hRepl, hSourceEq]
  obtain ⟨t, ht, rfl⟩ := mem_records.mp hr
  refine ⟨_, mem_map_of_mem ht, ?_⟩
  have hSourceNe : t.source ≠ d.source := hEq
  rw [if_neg hSourceNe]

theorem Sound.exists_record {o : Outline} (h : Sound input o) (hd : d ∈ input.deployments) : ∃ r ∈ o.records, r.1 = d.source := by
  obtain ⟨t, ht, hSource⟩ := input.covered d hd
  have hMem : d.source ∈ o.records.map Prod.fst := by
    rw [h.sources, ← hSource]
    exact mem_map_of_mem ht
  exact mem_map.mp hMem

section

variable (hd : d ∈ input.deployments)
include hd

theorem recordTargets_spec (hSource : ∀ t, (update t).source = t.source)
    (hRepl : ∀ t, (update t).replacement = some id) :
    Within input (Found input d id) (setUpdateTargets d.source update) fun _ => Working input := by
  refine spec_modify fun s h => ?_
  have hMem := fun r => mem_records_record (d := d) (s := s) (r := r) hSource hRepl
  have hSources : ({ s.progress with
      hardware := s.progress.hardware.map fun t => if t.source = d.source then update t else t } : Progress).outline.records.map
      Prod.fst = input.targets.map Target.source := by
    rw [← h.progress.sources]
    simp only [Progress.outline, map_map]
    refine map_congr_left fun t _ => ?_
    dsimp only [Function.comp_apply]
    split
    · exact hSource t
    · rfl
  refine ⟨{ h with }, ⟨h.progress.devices, hSources, ?_, ?_, ?_⟩, ?_, h.controller⟩
  · intro r hr r' hr' hEq
    rcases (hMem r).mp hr with ⟨rfl, -⟩ | ⟨hr, hNe⟩
    · rcases (hMem r').mp hr' with ⟨rfl, -⟩ | ⟨-, hNe'⟩
      · rfl
      · exact absurd hEq.symm hNe'
    rcases (hMem r').mp hr' with ⟨rfl, -⟩ | ⟨hr', -⟩
    · exact absurd hEq hNe
    · exact h.progress.uniform r hr r' hr' hEq
  · intro r hr hSome
    rcases (hMem r).mp hr with ⟨rfl, -⟩ | ⟨hr, -⟩
    · exact ⟨d, hd, rfl⟩
    · exact h.progress.owners r hr hSome
  · refine (h.progress.separate.and h.fits).imp ?_
    rintro d' e ⟨hOld, hFits⟩ hRan hRecord
    rcases (hMem _).mp hRecord with ⟨hEq, -⟩ | ⟨hRecord, -⟩
    · obtain ⟨hSame, hId⟩ := Prod.mk.inj hEq
      exact hFits hSame hRan (Option.some.inj hId).symm
    · exact hOld hRan hRecord
  intro other hOther
  rcases h.held other hOther with rfl | ⟨r, hr, hId⟩
  · obtain ⟨r, hr, hEq⟩ := h.progress.exists_record hd
    exact ⟨(d.source, some other), (hMem _).mpr (.inl ⟨rfl, r, hr, hEq⟩), rfl⟩
  refine ⟨r, (hMem r).mpr (.inr ⟨hr, ?_⟩), hId⟩
  intro hEq
  refine replacementOf_eq_none_iff.mp h.unrecorded other ?_
  rw [← hEq, ← hId]
  exact hr

theorem recordReplacement_spec (id : Text) :
    Within input (Found input d id) (recordReplacement d id) fun _ => Working input := by
  have hShow : Quiet input (do setPhase .preparing; persistUpdateProgress) :=
    (quiet_setPhase _).bind fun _ => quiet_persistUpdateProgress
  refine spec_bind (recordTargets_spec hd ?_ ?_) fun _ => ?_
  · exact fun _ => rfl
  · exact fun _ => rfl
  · exact Spec.weaken hShow.keeps (fun s hs => ⟨hs, trivial⟩) (fun _ s hs => hs.1) (fun _ _ h => h) fun _ h => h

theorem keeps_ensureUpdateReplacement :
    Keeps input (fun _ => True) (ensureUpdateReplacement D input d) fun _ _ => True := by
  refine spec_bind (Q := fun v s => v = s ∧ Working input s) (spec_state fun s hs => ⟨rfl, hs.1⟩) fun v => ?_
  refine spec_of_state fun s hs => ?_
  obtain ⟨rfl, hWork⟩ := hs
  cases hRepl : v.progress.replacementOf d.source with
  | some id =>
    refine spec_pure ?_
    rintro _ rfl
    exact ⟨hWork, trivial⟩
  | none =>
    refine spec_bind ((findReplacement_spec hd).pre ?_) fun id => ?_
    · rintro _ rfl
      exact ⟨hWork, hRepl⟩
    · exact spec_bind (recordReplacement_spec hd id) fun _ => spec_pure fun s hs => ⟨hs, trivial⟩

theorem keeps_replaceDeployment : Keeps input (fun _ => True) (replaceDeployment D input d) fun _ _ => True := by
  refine quiet_checkCancelled.keeps.bind fun _ => (touches_stopUpdateSource d).keeps.bind fun _ => ?_
  refine quiet_checkCancelled.keeps.bind fun _ => (keeps_ensureUpdateReplacement hd).bind fun id => ?_
  exact ((quiet_patience.touches.bind fun polls => touches_awaitReplacement d id polls)).keeps

end

end Replacement

section Forward

variable {D : Plan.Digester}

theorem quiet_prepare : Quiet input (prepare input) :=
  quiet_ite (quiet_acquireRepositoryReplacement _) quiet_installRepositoryUpdateDevices

theorem keeps_replaceEach : ∀ deployments : List Deployment, (∀ d ∈ deployments, d ∈ input.deployments) →
    Keeps input (fun _ => True) (fold (fun _ d => replaceDeployment D input d) deployments ()) fun _ _ => True
  | [], _ => spec_pure fun _ hs => hs
  | d :: deployments, hMem => (keeps_replaceDeployment (hMem d mem_cons_self)).bind fun _ =>
      keeps_replaceEach deployments fun e he => hMem e (mem_cons_of_mem d he)

theorem keeps_replaceAll : Keeps input (fun _ => True) (replaceAll D input) fun _ _ => True := by
  refine quiet_checkCancelled.keeps.bind fun _ => quiet_prepare.keeps.bind fun _ => ?_
  refine quiet_checkCancelled.keeps.bind fun _ => (keeps_replaceEach _ fun _ h => h).bind fun _ => ?_
  refine quiet_checkCancelled.keeps.bind fun _ => (quiet_setState rfl).keeps.bind fun _ => ?_
  exact (quiet_ite (quiet_pure ()) (quiet_call.bind fun _ => quiet_ite (quiet_pure ()) acts_fail)).keeps

end Forward

structure Settled (s : State) (d : Deployment) : Prop where
  source : d.sourceWasStopped = false → Up s d.source
  replacements : ∀ id ∈ s.created, (d.source, some id) ∈ s.progress.outline.records → Down s id

section Rollback

variable {s t : State} {d e : Deployment}

theorem Up.of_rows (h : Up s id) (hRows : t.rows id = s.rows id) : Up t id := by
  rwa [Up, hRows]

theorem Down.of_rows (h : Down s id) (hRows : t.rows id = s.rows id) : Down t id := by
  rwa [Down, hRows]

theorem Settled.after_replacement (h : Settled s e) (hMoved : Moved (replacedBy s d) s t)
    (hDown : ∀ id ∈ replacedBy s d, Down t id)
    (hApart : e.sourceWasStopped = false → (d.source, some e.source) ∉ s.progress.outline.records) : Settled t e where
  source hRan := by
    refine (h.source hRan).of_rows (hMoved.rows _ fun hMem => hApart hRan ?_)
    exact replacementOf_mem hMem
  replacements id hMade hRecord := by
    by_cases hMem : id ∈ replacedBy s d
    · exact hDown id hMem
    rw [hMoved.outline] at hRecord
    rw [hMoved.created] at hMade
    exact (h.replacements id hMade hRecord).of_rows (hMoved.rows id hMem)

theorem Settled.after_source (h : Settled s e) (hMoved : Moved {d.source} s t) (hNe : e.source ≠ d.source)
    (hFresh : ∀ id ∈ s.created, d.source ≠ id) : Settled t e where
  source hRan := (h.source hRan).of_rows (hMoved.rows _ hNe)
  replacements id hMade hRecord := by
    rw [hMoved.outline] at hRecord
    rw [hMoved.created] at hMade
    exact (h.replacements id hMade hRecord).of_rows (hMoved.rows id fun hEq => hFresh id hMade hEq.symm)

theorem settled_self {u : State} (hWork : Working input s) (hd : d ∈ input.deployments)
    (hReplaced : Moved (replacedBy s d) s t) (hDown : ∀ id ∈ replacedBy s d, Down t id) (hSource : Moved {d.source} t u)
    (hUp : d.sourceWasStopped = false → Up u d.source) : Settled u d where
  source := hUp
  replacements id hMade hRecord := by
    rw [hSource.outline, hReplaced.outline] at hRecord
    rw [hSource.created, hReplaced.created] at hMade
    refine (hDown id (hWork.progress.replacementOf hRecord)).of_rows (hSource.rows id fun hEq => ?_)
    exact hWork.fresh id hMade d hd hEq.symm

theorem rollbackDeployment_spec (hd : d ∈ input.deployments) (done : List Deployment)
    (hApart : ∀ e ∈ done, ∀ s, Working input s →
      e.sourceWasStopped = false → (d.source, some e.source) ∉ s.progress.outline.records)
    (hNe : ∀ e ∈ done, e.source ≠ d.source) (errors : List Text) :
    Keeps input (fun s => errors = [] → ∀ e ∈ done, Settled s e) (rollbackDeployment errors d)
      fun errors' s => errors' = [] → ∀ e ∈ done ++ [d], Settled s e := by
  refine spec_of_state fun s hs => ?_
  obtain ⟨hWork, hDone⟩ := hs
  refine spec_bind (hWork.within (stopReplacement_spec d s)) fun stopError => ?_
  refine spec_of_state fun t ht => ?_
  obtain ⟨hReplaced, hDown⟩ := ht
  have hWork' := hWork.moved hReplaced
  refine spec_bind (hWork'.within (acts_settleSource d t trivial)) fun sourceError => ?_
  refine spec_pure fun u hu => ⟨hWork'.moved hu.1, fun hErrors => ?_⟩
  obtain ⟨hRest, hSourceError⟩ := append_eq_nil_iff.mp hErrors
  obtain ⟨rfl, hStopError⟩ := append_eq_nil_iff.mp hRest
  have hStop := hDown (Option.toList_eq_nil_iff.mp hStopError)
  have hUp := hu.2 (Option.toList_eq_nil_iff.mp hSourceError)
  intro e he
  rcases mem_append.mp he with he | he
  · refine Settled.after_source ?_ hu.1 (hNe e he) fun id hId => hWork'.fresh id hId d hd
    exact (hDone rfl e he).after_replacement hReplaced hStop (hApart e he s hWork)
  · rw [mem_singleton.mp he]
    exact settled_self hWork hd hReplaced hStop hu.1 hUp

theorem rollbackEach_spec : ∀ (left done : List Deployment) (errors : List Text), input.deployments.reverse = done ++ left →
    Keeps input (fun s => errors = [] → ∀ e ∈ done, Settled s e) (fold rollbackDeployment left errors)
      fun errors' s => errors' = [] → ∀ e ∈ input.deployments, Settled s e
  | [], done, errors, hSplit => by
    refine spec_pure fun s hs => ⟨hs.1, fun hErrors e he => hs.2 hErrors e ?_⟩
    rw [append_nil] at hSplit
    rw [← hSplit]
    exact mem_reverse.mpr he
  | d :: left, done, errors, hSplit => by
    have hOrder : input.deployments = left.reverse ++ d :: done.reverse := by
      rw [← reverse_reverse input.deployments, hSplit]
      simp
    have hd : d ∈ input.deployments := by
      rw [hOrder]
      simp
    have hAfter : ∀ {R : Deployment → Deployment → Prop}, input.deployments.Pairwise R → ∀ e ∈ done, R d e := by
      intro R hPairwise e he
      rw [hOrder] at hPairwise
      exact (pairwise_cons.mp (pairwise_append.mp hPairwise).2.1).1 e (mem_reverse.mpr he)
    have hNe : ∀ e ∈ done, e.source ≠ d.source := fun e he => (hAfter (pairwise_map.mp input.distinct) e he).symm
    refine spec_bind (rollbackDeployment_spec hd done (fun e he s hWork => ?_) hNe errors) fun errors' => ?_
    · exact hAfter hWork.progress.separate e he
    · exact rollbackEach_spec left (done ++ [d]) errors' (by rw [hSplit, append_assoc, singleton_append])

theorem Working.restored (h : Working input s) (hSettled : ∀ d ∈ input.deployments, Settled s d) : Restored input s where
  sources d hd hRan := (hSettled d hd).source hRan
  replacements id hId := by
    obtain ⟨r, hr, hRecord⟩ := h.held id hId
    obtain ⟨d, hd, hSource⟩ := h.progress.owners r hr (by rw [hRecord]; exact Option.some_ne_none id)
    refine (hSettled d hd).replacements id hId ?_
    rw [hSource, ← hRecord]
    exact hr

theorem Restored.moved (h : Restored input s) (hMoved : Moved ∅ s t) : Restored input t where
  sources d hd hRan := (h.sources d hd hRan).moved hMoved
  replacements id hId := (h.replacements id (hMoved.created ▸ hId)).of_rows (hMoved.rows id (Set.notMem_empty id))

theorem Quiet.keepsRestored {x : Prog α} (h : Quiet input x) : Keeps input (Restored input) x fun _ => Restored input :=
  (h.acts (a := ∅) fun _ _ hMoved hRestored => hRestored.moved hMoved).keeps

theorem keeps_rollbackRepositoryUpdate :
    Keeps input (fun _ => True) (rollbackRepositoryUpdate input) fun _ => Restored input := by
  refine (quiet_setPhase _).keeps.bind fun _ => quiet_persistUpdateProgress.keeps.bind fun _ => ?_
  refine spec_bind ((rollbackEach_spec input.deployments.reverse [] [] rfl).pre ?_) fun errors => ?_
  · exact fun s hs => ⟨hs.1, fun _ e he => nomatch he⟩
  refine spec_ite (fun hErrors => ?_) fun _ => ?_
  · have hShow : Quiet input (do setPhase .restored; persistUpdateProgress) :=
      (quiet_setPhase _).bind fun _ => quiet_persistUpdateProgress
    exact Spec.pre hShow.keepsRestored fun s hs => ⟨hs.1, hs.1.restored (hs.2 hErrors)⟩
  · refine Spec.pre (Keeps.bind (quiet_setPhase .rollbackFailed).keeps fun _ => ?_) fun s hs => ⟨hs.1, trivial⟩
    exact Keeps.bind quiet_persistUpdateProgress.keeps fun _ => spec_fail fun s hs => hs.1

end Rollback

structure Returned (input : Input) (s : State) : Prop where
  core : s.run.terminal = false → Core input s
  restored : Ended s → Restored input s
  controller : s.controller = .working

theorem not_ended_of_live (h : s.run.terminal = false) : ¬ Ended s := by
  rintro (hRun | ⟨hRun, -⟩)
  all_goals
    rw [hRun] at h
    cases h

theorem Core.returned (h : Core input s) (hCtl : s.controller = .working) : Returned input s :=
  ⟨fun _ => h, fun hEnded => absurd hEnded (not_ended_of_live h.live), hCtl⟩

section Complete

variable {α : Type} {P : State → Prop}

def Returns (input : Input) (P : State → Prop) (x : Prog Unit) : Prop :=
  Spec (FairWorld input) (fun s => Working input s ∧ P s) x (fun _ => Returned input) (fun _ => Returned input)
    (Left input)

theorem Keeps.returns {x : Prog α} {Q : α → State → Prop} {f : α → Prog Unit} (hx : Keeps input P x Q)
    (hf : ∀ v, Returns input (Q v) (f v)) : Returns input P (x >>= f) :=
  spec_bind (Spec.weaken hx (fun _ h => h) (fun _ _ h => h) (fun _ _ h => h.toCore.returned h.controller) fun _ h => h) hf

theorem returns_complete (hEnd : new.terminal = true)
    (hRestored : ∀ s, P s → new = .cancelled ∨ (new = .failed ∧ code = "recipe.update_failed") → Restored input s)
    (hMoved : ∀ s t, Moved ∅ s t → P s → P t) : Returns input P (complete new code message) := by
  refine Keeps.returns (quiet_call.acts (a := ∅) hMoved).keeps fun w => ?_
  refine Keeps.returns ((quiet_noteCancel w).acts (a := ∅) hMoved).keeps fun _ => spec_modify fun s hs => ?_
  obtain ⟨hWork, hP⟩ := hs
  split
  · refine ⟨fun hLive => ?_, fun hEnded => ?_, hWork.controller⟩
    · rw [hEnd] at hLive
      cases hLive
    · exact { hRestored s hP hEnded with }
  · exact hWork.toCore.returned hWork.controller

theorem returns_completeOther (hEnd : new.terminal = true)
    (hOther : ¬ (new = .cancelled ∨ (new = .failed ∧ code = "recipe.update_failed"))) :
    Returns input (fun _ => True) (complete new code message) :=
  returns_complete hEnd (fun _ _ h => absurd h hOther) fun _ _ _ _ => trivial

theorem returns_completeRestored (hEnd : new.terminal = true) :
    Returns input (Restored input) (complete new code message) :=
  returns_complete hEnd (fun _ h _ => h) fun _ _ hMoved h => h.moved hMoved

end Complete

section Life

variable {D : Plan.Digester}

theorem returns_undo (failure : Failure) : Returns input (fun _ => True) (undo input failure) := by
  refine spec_bind (spec_attempt keeps_rollbackRepositoryUpdate) fun result => ?_
  cases result with
  | error rollbackError =>
    refine Spec.pre (quiet_setOutput.keeps.returns fun _ => returns_completeOther rfl ?_) fun s hs => ⟨hs, trivial⟩
    decide
  | ok _ =>
    refine Keeps.returns quiet_setOutput.keepsRestored fun _ => ?_
    refine spec_ite (fun _ => returns_completeRestored rfl) fun _ => ?_
    refine Keeps.returns quiet_updateCancelled.keepsRestored fun cancelled => ?_
    exact spec_ite (fun _ => returns_completeRestored rfl) fun _ => returns_completeRestored rfl

theorem returns_succeed : Returns input (fun _ => True) succeed := by
  refine (quiet_modify fun s => moved_progress ?_).keeps.returns fun _ => ?_
  · simp only [Progress.outline, length_map, map_map]
    rfl
  refine quiet_persistUpdateProgress.keeps.returns fun _ => ?_
  refine quiet_setOutput.keeps.returns fun _ => returns_completeOther rfl ?_
  decide

theorem returns_completeInstallation (hNil : input.deployments = []) (result : Except Failure Unit) :
    Returns input (fun _ => True) (completeInstallation result) := by
  have hRestored : ∀ {new code message}, Runs.State.terminal new = true →
      Returns input (fun _ => True) (complete new code message) := fun hEnd =>
    Spec.pre (returns_completeRestored hEnd) fun s hs => ⟨hs.1, hs.1.restored (by simp [hNil])⟩
  cases result with
  | error failure =>
    cases failure with
    | cancelled | state | other => exact quiet_setOutput.keeps.returns fun _ => hRestored rfl
  | ok _ =>
    refine (quiet_setPhase _).keeps.returns fun _ => quiet_persistUpdateProgress.keeps.returns fun _ => ?_
    refine (quiet_setState rfl).keeps.returns fun _ => quiet_setOutput.keeps.returns fun _ => hRestored rfl

theorem returns_coordinateRepositoryInstallationUpdate :
    Returns input (fun _ => True) (coordinateRepositoryInstallationUpdate input) := by
  refine spec_ite (fun _ => returns_completeOther rfl (by decide)) fun hLengths => ?_
  have hNil : input.deployments = [] := by
    simp only [Bool.or_eq_true, decide_eq_true_eq, not_or, not_not] at hLengths
    exact eq_nil_of_length_eq_zero hLengths.1
  have hInstall : Quiet input (attempt (installRepositoryUpdateDevices input) : Prog (Except Failure Unit)) :=
    (acts_attempt quiet_installRepositoryUpdateDevices).forget
  refine hInstall.keeps.returns fun result => quiet_call.keeps.returns fun w => ?_
  refine spec_ite (fun _ => (spec_pure fun _ hs => hs.1.toCore.returned hs.1.controller)) fun _ => ?_
  cases result with
  | error failure => exact returns_completeInstallation hNil _
  | ok _ => exact quiet_updateCancelled.keeps.returns fun _ => returns_completeInstallation hNil _

theorem returns_coordinateLoaded : Returns input (fun _ => True) (coordinateLoaded D input) := by
  refine (quiet_state.bind fun _ => quiet_ite (quiet_pure ()) (quiet_setState rfl)).keeps.returns fun _ => ?_
  refine spec_ite (fun _ => returns_coordinateRepositoryInstallationUpdate) fun _ => ?_
  refine spec_bind (spec_attempt keeps_replaceAll) fun result => ?_
  cases result with
  | error failure => exact Spec.pre (returns_undo failure) fun s hs => ⟨hs, trivial⟩
  | ok _ => exact returns_succeed

theorem Core.working (h : Core input s) (hSaved : AllSaved s) (hCtl : s.controller = .working) :
    Working input { s with progress := loadProgress input s.saved } := by
  have hLoaded : Sound input (loadProgress input s.saved).outline ∧
      ∀ id ∈ s.created, Recorded (loadProgress input s.saved).outline id := by
    cases hProgress : s.saved with
    | none =>
      refine ⟨sound_initial input, fun id hId => ?_⟩
      obtain ⟨p, hSome, -⟩ := hSaved id hId
      rw [hProgress] at hSome
      cases hSome
    | some p =>
      have hSound : Sound input p.outline := h.saved _ (by rw [hProgress, Option.map_some])
      have hLoad : loadProgress input (some p) = p := by
        refine if_neg ?_
        simp only [Bool.or_eq_true, Bool.and_eq_true, decide_eq_true_eq]
        rintro (⟨hNone, hSome⟩ | ⟨hNone, hSome⟩)
        · have hDevs := hSound.devices
          rw [Progress.outline, hNone] at hDevs
          exact hSome (eq_nil_of_length_eq_zero hDevs.symm)
        have hSources := hSound.sources
        rw [Progress.outline, hNone] at hSources
        exact hSome (map_eq_nil_iff.mp hSources.symm)
      rw [hLoad]
      refine ⟨hSound, fun id hId => ?_⟩
      obtain ⟨q, hSome, t, ht, hRepl⟩ := hSaved id hId
      obtain rfl : p = q := Option.some.inj (hProgress.symm.trans hSome)
      exact ⟨_, mem_records.mpr ⟨_, ht, rfl⟩, hRepl⟩
  exact ⟨{ h with }, hLoaded.1, hLoaded.2, hCtl⟩

theorem coordinateRepositoryUpdate_spec :
    Spec (FairWorld input) (fun s => Core input s ∧ AllSaved s ∧ s.controller = .working)
      (coordinateRepositoryUpdate D input) (fun _ => Returned input) (fun _ => Returned input) (Left input) := by
  refine spec_of_state fun s hs => ?_
  obtain ⟨hCore, hSaved, hCtl⟩ := hs
  refine spec_bind ((call_spec s).weaken (fun _ h => h) (fun _ _ h => h.2) (fun _ _ h => h) ?_) fun w => ?_
  · rintro _ ⟨rfl, -⟩
    exact ⟨{ hCore with }, fun _ => hSaved, nofun⟩
  refine spec_bind (Q := fun _ s => Core input s ∧ AllSaved s ∧ s.controller = .working) (spec_modify ?_) fun _ => ?_
  · rintro _ rfl
    split
    · exact ⟨{ hCore with live := rfl }, hSaved, hCtl⟩
    · exact ⟨hCore, hSaved, hCtl⟩
  refine spec_ite (fun _ => spec_pure fun t ht => ht.1.returned ht.2.2) fun _ => ?_
  refine spec_bind (spec_modify fun t ht => ?_) fun _ => returns_coordinateLoaded
  exact ⟨ht.1.working ht.2.1 ht.2.2, trivial⟩

structure Between (input : Input) (s : State) : Prop where
  left : s.run.terminal = false → Left input s
  restored : Ended s → Restored input s

theorem between_init (h : Starts input s) : Between input s := by
  have hLive : s.run.terminal = false := by
    rcases h.run with hRun | hRun | hRun <;> rw [hRun] <;> rfl
  have hNone : ∀ {id}, id ∉ s.created := by
    intro id hId
    rw [h.created] at hId
    cases hId
  refine ⟨fun _ => ⟨⟨hLive, h.present, ?_, ?_, ?_⟩, ?_, ?_⟩, fun hEnded => absurd hEnded (not_ended_of_live hLive)⟩
  · exact fun id hId => absurd hId hNone
  · exact fun id hId => absurd hId hNone
  · intro o ho
    rcases h.saved with hSaved | hSaved
    · rw [hSaved] at ho
      cases ho
    rw [hSaved] at ho
    cases ho
    exact sound_initial input
  · exact fun _ id hId => absurd hId hNone
  · rw [h.controller]
    exact nofun

theorem Returned.between (h : Returned input s) : Between input s.settle := by
  rw [State.settle, if_pos h.controller]
  exact ⟨fun hLive => ⟨{ h.core hLive with }, nofun, nofun⟩, fun hEnded => { h.restored hEnded with }⟩

theorem between_next {e : Event} (h : Between input s) (hOn : (system D input).enabled s e)
    (hGuard : guard input s e) : Between input (next D input s e) := by
  cases e with
  | stop =>
    refine ⟨fun hLive => ⟨{ h.left hLive with }, fun _ => hGuard, nofun⟩, fun hEnded => ?_⟩
    exact { h.restored hEnded with }
  | live env =>
    obtain ⟨hStop, hLive⟩ := hOn
    have hLeft := h.left hLive
    have hMeets := @coordinateRepositoryUpdate_spec input D env hGuard 0 { s with controller := .working }
      ⟨{ hLeft with }, hLeft.kept hStop, rfl⟩
    change Between input (coordinateRepositoryUpdate D input env 0 { s with controller := .working }).state.settle
    revert hMeets
    rcases coordinateRepositoryUpdate D input env 0 { s with controller := .working } with ⟨exit, n, t⟩
    intro hMeets
    cases exit with
    | value | failed => exact Returned.between hMeets
    | crashed =>
      have hLeft : Left input t := hMeets
      have hSettle : t.settle = t := if_neg hLeft.controller
      rw [hSettle]
      exact ⟨fun _ => hLeft, fun hEnded => absurd hEnded (not_ended_of_live hLeft.live)⟩

/-- A run that ends as cancelled or as failed has restored its sources and stopped its replacements, if no replacement
escaped its record. -/
theorem update_restores (D : Plan.Digester) (input : Input) {s : State}
    (hReach : (system D input).Reachable (guard input) s) (hEnded : Ended s) : Restored input s :=
  (hReach.invariant (fun _ h => between_init h) fun _ _ h hOn hGuard => between_next h hOn hGuard).restored hEnded

end Life

def samplePlan : Plan.DeploymentPlan where
  recipeDigest := "sha256:new".toList
  recipeName := "recipe".toList
  parameters := []
  variants := []
  workloadIndex := 0
  acquisitionPolicy := .downloadMissing
  acquisition := some ⟨[], [], [], true⟩
  placements := [⟨"node-a".toList, [], 0, 0, [], [], []⟩]
  fabric := none
  upstream := []
  ports := []
  endpoint := ⟨[], 0, [], []⟩
  risks := []
  conflicts := []
  diagnostics := []
  ready := true

variable (sourceWasStopped : Bool)

def sampleInput : Input where
  targetDigest := "sha256:new".toList
  installedDevices := [("node-a".toList, "node-a".toList)]
  targets := [⟨"source".toList, none, "node-a".toList, 0, .pending, .fetching, 0, "", []⟩]
  deployments := [⟨"source".toList, sourceWasStopped, [], samplePlan⟩]
  savedVersionReplacement := true
  packageInstallOnly := false
  installationSpecs := none
  fresh := by simp
  covered := by simp
  distinct := by simp

def sampleRow (desired : Deploy.Desired) (observed : Deploy.Observed) : Row := ⟨desired, observed, none, fun _ => .none⟩

def sampleDigester : Plan.Digester := ⟨fun text => text, fun _ => .null⟩

def sampleStart : State where
  rows id := if id = "source".toList then some (sampleRow .stopped .stopped) else none
  created := []
  run := .waiting
  errorCode := ""
  errorMessage := []
  saved := some (initialProgress (sampleInput sourceWasStopped))
  progress := initialProgress (sampleInput sourceWasStopped)
  controller := .stopped

theorem sampleStart_starts : Starts (sampleInput sourceWasStopped) (sampleStart sourceWasStopped) := by
  refine ⟨.inr (.inr rfl), .inr rfl, fun d hd => ?_, rfl, rfl⟩
  rw [mem_singleton.mp hd]
  rfl

def sampleWorld : World where
  stops _ := false
  cancel := false
  succeeds := true
  message := []
  deployment _ := .ok (sampleRow .stopped .stopped)
  existing _ := .noRows
  plan d := .ok d.plan
  creation := .created "replacement".toList
  commit := .done
  serveRun _ := none
  online _ := true
  validPlacement _ := true
  fetched := none
  serveID := "run".toList
  shutdown := false
  polls := 4

theorem sampleRow_consistent {desired : Deploy.Desired} {observed : Deploy.Observed}
    (hStop : observed = .stopped → desired = .stopped) (hHealthy : observed = .healthy → desired = .running) :
    (sampleRow desired observed).Consistent :=
  ⟨hStop, hHealthy⟩

def savedWorld : World := { sampleWorld with
  stops := fun s => s.created ≠ [] &&
    s.created.all fun id => s.saved.any fun p => p.hardware.any fun t => t.replacement = some id }

theorem savedWorld_fair : Fair (sampleInput sourceWasStopped) savedWorld where
  stops s hStops id hId := by
    have hAll := all_eq_true.mp (Bool.and_eq_true_iff.mp hStops).2 id hId
    cases hSaved : s.saved with
    | none =>
      rw [hSaved] at hAll
      cases hAll
    | some p =>
      rw [hSaved] at hAll
      obtain ⟨t, ht, hRepl⟩ := any_eq_true.mp hAll
      exact ⟨p, rfl, t, ht, of_decide_eq_true hRepl⟩
  creation _ _ h := nomatch h
  deployment _ row hRow := by
    cases hRow
    exact sampleRow_consistent (fun _ => rfl) nofun
  existing := pairwise_singleton _ _

def cancelWorld (n : Nat) : World := { sampleWorld with
  cancel := true
  deployment := fun _ => .ok (if n < 12 then sampleRow .stopped .stopped else sampleRow .running .healthy) }

theorem cancelWorld_fair (n : Nat) : Fair (sampleInput sourceWasStopped) (cancelWorld n) where
  stops _ h := nomatch h
  creation _ _ h := nomatch h
  deployment _ row hRow := by
    cases hRow
    split
    · exact sampleRow_consistent (fun _ => rfl) nofun
    · exact sampleRow_consistent nofun fun _ => rfl
  existing := pairwise_singleton _ _

def lostWorld : World := { sampleWorld with stops := fun s => s.created ≠ [] }

def sampleEvents (world : World) : List Event := [.live fun _ => world, .live cancelWorld]

def sampleEnd (world : World) : State :=
  (system sampleDigester (sampleInput sourceWasStopped)).exec (sampleStart sourceWasStopped) (sampleEvents world)

theorem sampleEnd_reachable {sourceWasStopped : Bool} {world : World} {guard : State → Event → Prop}
    (hFirst : ∀ s, guard s (.live fun _ => world)) (hSecond : ∀ s, guard s (.live cancelWorld))
    (hStop : (next sampleDigester (sampleInput sourceWasStopped) (sampleStart sourceWasStopped)
      (.live fun _ => world)).controller = .stopped)
    (hLive : (next sampleDigester (sampleInput sourceWasStopped) (sampleStart sourceWasStopped)
      (.live fun _ => world)).run.terminal = false) :
    (system sampleDigester (sampleInput sourceWasStopped)).Reachable guard (sampleEnd sourceWasStopped world) :=
  .of_allowed (sampleStart_starts sourceWasStopped)
    ⟨⟨⟨rfl, rfl⟩, hFirst _⟩, ⟨⟨hStop, hLive⟩, hSecond _⟩, trivial⟩

theorem update_restores_cancelled :
    Ended (sampleEnd false savedWorld) ∧ Restored (sampleInput false) (sampleEnd false savedWorld) := by
  have hEnded : Ended (sampleEnd false savedWorld) := .inl (by decide +kernel)
  refine ⟨hEnded, update_restores sampleDigester (sampleInput false) ?_ hEnded⟩
  refine sampleEnd_reachable ?_ ?_ (by decide +kernel) (by decide +kernel)
  · exact fun _ _ => savedWorld_fair false
  · exact fun _ n => cancelWorld_fair false n

theorem update_loses_replacement : ¬ ∀ (D : Plan.Digester) (input : Input) (s : State),
    (system D input).Reachable (fun _ _ => True) s → Ended s → Restored input s := by
  intro h
  have hEnd : (sampleEnd true lostWorld).run = .cancelled ∧ "replacement".toList ∈ (sampleEnd true lostWorld).created ∧
      ((sampleEnd true lostWorld).rows "replacement".toList).map Row.desired = some .running := by decide +kernel
  obtain ⟨hCut, hMade, hRun⟩ := hEnd
  have hReach := @sampleEnd_reachable true lostWorld (fun _ _ => True) (fun _ => trivial) (fun _ => trivial)
    (by decide +kernel) (by decide +kernel)
  obtain ⟨row, hRow, hStop⟩ := (h _ _ _ hReach (.inl hCut)).replacements _ hMade
  rw [hRow, Option.map_some, hStop] at hRun
  cases hRun

def Row.Settled (row : Row) : Prop :=
  (row.observed = .healthy ∧ row.desired = .running) ∨ row.observed = .failed ∨
    (row.desired = .stopped ∧ row.observed = .stopped)

/-- The world answers the reads of the wait with these rows, one after the other, and lets it poll. -/
def Reads (env : Nat → World) (id : Text) : Nat → List Row → Prop
  | _, [] => True
  | n, row :: rows => (env n).deployment id = .ok row ∧ (∀ s, (env n).stops s = false) ∧
      (∀ s, (env (n + 1)).stops s = false) ∧ (env (n + 1)).shutdown = false ∧ Reads env id (n + 2) rows

variable {env : Nat → World}

theorem call_ok {n : Nat} (hRuns : (env n).stops s = false) : call env n s = ⟨.value (env n), n + 1, s⟩ := by
  change (if (env n).stops s then stopController else pure (env n) : Prog World) env (n + 1) s = _
  rw [if_neg (Bool.eq_false_iff.mp hRuns)]
  rfl

theorem awaitSourceHealthy_reads {row : Row} {rows : List Row} {n : Nat}
    (hReads : Reads env d.source n (row :: rows)) (polls : Nat) (s : State) :
    ∃ t, awaitSourceHealthy d (polls + 1) env n s =
    if row.observed = .healthy then ⟨.value none, n + 1, t⟩
    else if row.observed = .failed then
    ⟨.value (some ("source deployment ".toList ++ d.source ++ " failed during restore".toList)), n + 1, t⟩
    else awaitSourceHealthy d polls env (n + 2) t := by
  obtain ⟨hRow, hRuns, hStays, hUp, _⟩ := hReads
  refine ⟨{ s with rows := Function.update s.rows d.source (some row) }, ?_⟩
  have hGet : getDeployment d.source env n s =
      ⟨.value row, n + 1, { s with rows := Function.update s.rows d.source (some row) }⟩ := by
    change Outcome.andThen _ (call env n s) = _
    rw [call_ok (hRuns s)]
    simp only [Outcome.andThen, hRow]
    rfl
  have hPoll t : waitUpdatePoll env (n + 1) t = ⟨.value (), n + 2, t⟩ := by
    change Outcome.andThen _ (call env (n + 1) t) = _
    rw [call_ok (hStays t)]
    simp only [Outcome.andThen, hUp]
    rfl
  change Outcome.andThen _ (attempt (getDeployment d.source) env n s) = _
  simp only [attempt, hGet, Outcome.andThen]
  split_ifs
  · rfl
  · rfl
  change Outcome.andThen _ (waitUpdatePoll env (n + 1) _) = _
  rw [hPoll]
  rfl

/-- The wait for a restored source ends on a row that is healthy or failed, and on no other. -/
theorem restore_wait_returns_iff (d : Deployment) {env : Nat → World} {rows : List Row} {n : Nat}
    (hReads : Reads env d.source n rows) (s : State) :
    (∃ result, (awaitSourceHealthy d rows.length env n s).exit = .value result) ↔
      ∃ row ∈ rows, row.observed = .healthy ∨ row.observed = .failed := by
  induction rows generalizing n s with
  | nil =>
    constructor
    · rintro ⟨result, hReturned⟩
      cases hReturned
    · rintro ⟨row, hRow, _⟩
      cases hRow
  | cons row rows ih =>
    obtain ⟨t, hStep⟩ := awaitSourceHealthy_reads hReads rows.length s
    rw [length_cons, hStep, exists_mem_cons_iff]
    split
    next hHealthy => exact ⟨fun _ => .inl (.inl hHealthy), fun _ => ⟨none, rfl⟩⟩
    next hNot =>
      split
      next hFailed => exact ⟨fun _ => .inl (.inr hFailed), fun _ => ⟨_, rfl⟩⟩
      next hOpen => rw [ih hReads.2.2.2.2 t, or_iff_right (not_or.mpr ⟨hNot, hOpen⟩)]

def sampleSource : Deployment := ⟨"source".toList, false, [], samplePlan⟩

/-- The source is read as it starts, and then as it has become healthy. -/
def startingWorld (n : Nat) : World :=
  { sampleWorld with deployment := fun _ => .ok (sampleRow .running (if n < 2 then .starting else .healthy)) }

theorem restore_wait_returns_second :
    (¬∃ result, (awaitSourceHealthy sampleSource 1 startingWorld 0 (sampleStart false)).exit = .value result) ∧
      ∃ result, (awaitSourceHealthy sampleSource 2 startingWorld 0 (sampleStart false)).exit = .value result := by
  have hOne : Reads startingWorld sampleSource.source 0 [sampleRow .running .starting] :=
    ⟨rfl, fun _ => rfl, fun _ => rfl, rfl, trivial⟩
  have hTwo : Reads startingWorld sampleSource.source 0 [sampleRow .running .starting, sampleRow .running .healthy] :=
    ⟨rfl, fun _ => rfl, fun _ => rfl, rfl, rfl, fun _ => rfl, fun _ => rfl, rfl, trivial⟩
  refine ⟨fun h => ?_, (restore_wait_returns_iff _ hTwo _).mpr ⟨_, mem_cons_of_mem _ mem_cons_self, .inl rfl⟩⟩
  obtain ⟨row, hRow, hEnd⟩ := (restore_wait_returns_iff _ hOne _).mp h
  obtain rfl := mem_singleton.mp hRow
  rcases hEnd with hEnd | hEnd <;> cases hEnd

theorem restore_wait_passes_stopped : (sampleRow .stopped .stopped).Settled ∧
    Reads (fun _ => sampleWorld) sampleSource.source 0 [sampleRow .stopped .stopped] ∧
    ¬∃ result, (awaitSourceHealthy sampleSource 1 (fun _ => sampleWorld) 0 (sampleStart false)).exit =
      .value result := by
  refine ⟨.inr (.inr ⟨rfl, rfl⟩), ⟨rfl, fun _ => rfl, fun _ => rfl, rfl, trivial⟩, ?_⟩
  rintro ⟨result, hReturned⟩
  cases hReturned

end LocalModelWorks.Update
