import LocalModelWorks.Upstream.Inspection

/-!
# Revocation, grant and start

`acquire` marks an overlapping record in memory first and writes its file afterwards, and it
passes over records that are marked already.
-/

namespace LocalModelWorks.Upstream

open Program List State

theorem readOnly_reusable (name : ContainerName) (ci : ContainerInfo) : ReadOnly (reusable name ci) := by
  refine (readOnly_ownerOf name ci.id).bind fun owner => ?_
  cases owner with
  | none => exact readOnly_pure _
  | some id =>
    refine readOnly_state.bind fun s => ?_
    cases Table.lookup Record.id s.memory id with
    | none => exact readOnly_pure _
    | some other =>
      exact (readOnly_jobAlive other).bind fun _ => readOnly_ite (readOnly_pure _) (readOnly_pure _)

variable (record : Record) (starting : Bool)

theorem readOnly_preflightName (before : Evidence) (name : ContainerName) :
    ReadOnly (preflightName record starting before name) := by
  refine readOnly_inspected name (readOnly_pure _) (fun _ => rfl) fun ci => ?_
  refine (readOnly_ownerOf name ci.id).bind fun owner => readOnly_ite ?_ (readOnly_ite ?_ (readOnly_fail _))
  · exact readOnly_ite (readOnly_fail _) (readOnly_pure _)
  · exact (readOnly_reusable name ci).bind fun _ => readOnly_ite (readOnly_pure _) (readOnly_fail _)

theorem readOnly_checkSettled (other : Record) : ReadOnly (checkSettled other) := by
  unfold checkSettled
  cases other.job with
  | none => exact readOnly_pure _
  | some job => exact (readOnly_readStatus job).bind fun _ => readOnly_ite (readOnly_pure _) (readOnly_fail _)

theorem readOnly_preflightOther (record other : Record) : ReadOnly (preflightOther record other) := by
  refine readOnly_ite (readOnly_pure _) ((readOnly_checkSettled other).bind fun _ => ?_)
  refine readOnly_ite (readOnly_pure _) ((readOnly_jobAlive other).bind fun _ => readOnly_ite (readOnly_fail _) ?_)
  exact readOnly_fold (fun _ name => readOnly_checkStopped _ name) _ _

theorem readOnly_preflight : ReadOnly (preflight record starting) := by
  refine (readOnly_fold (readOnly_preflightName record starting) _ _).bind fun before => ?_
  refine readOnly_ite (ReadOnly.bind ?_ fun _ => readOnly_pure _) (readOnly_pure _)
  exact readOnly_rangeRecords.bind fun others => readOnly_fold (fun _ => readOnly_preflightOther record) _ _

theorem readOnly_needsSetup : ReadOnly (needsSetup record) :=
  readOnly_ite (readOnly_pure _) (readOnly_attempt.bind fun _ => readOnly_ask _)

theorem readOnly_cancel : ReadOnly (cancel record) :=
  (readOnly_jobAlive record).bind fun _ => readOnly_ite readOnly_attempt (readOnly_pure _)

def State.Live (s : State) : Prop := s.Sound ∧ s.alive = true

def Claims (s : State) : Prop := (s.Live ∧ s.MayClaim record) ∧ record ∈ s.memory

variable {record old new other : Record} {s : State}

theorem Claims.live (h : Claims record s) : s.Live := h.1.1

theorem Claims.store (h : Claims old s) (hId : new.id = old.id) (hSpec : new.spec = old.spec)
    (hPlain : old.Plain → new.Plain) : Claims new (s.store new) := by
  obtain ⟨⟨⟨hSound, hAlive⟩, hClaim⟩, hMem⟩ := h
  have hNew : s.MayClaim new := hClaim.congr hId hSpec
  refine ⟨⟨⟨?_, hAlive⟩, hNew.store rfl⟩, store_mem hMem hId⟩
  exact hSound.store_claim hMem hId hSpec hPlain fun _ => hNew

theorem Claims.persist (h : Claims record s) : Claims record (s.persist record) :=
  ⟨⟨⟨h.1.1.1.persist h.2, h.1.1.2⟩, h.1.2.persist rfl⟩, h.2⟩

theorem stable_live (id : RecordID) : Stable id Live where
  store h hMem _ hTame := ⟨h.1.store hMem hTame.toQuiet, h.2⟩
  persist h hMem _ _ := ⟨h.1.persist hMem, h.2⟩
  undo {s old new back} h hMem _ _ hTame hBack := by
    have hSound := h.1.store hMem hTame.toQuiet
    have hNewMem : new ∈ (s.store new).memory := store_mem hMem hTame.id
    have hSameID : back.id = new.id := hBack.id.trans hTame.id.symm
    have hSameSpec : back.spec = new.spec := hBack.spec.trans hTame.spec.symm
    have hPlain : new.Plain → back.Plain := fun _ => hBack.plain (h.1.plain old (mem_copies.mpr (.inl hMem)))
    -- what the record owned before the change it may claim again
    have hClaim : back.owns = true → s.MayClaim back := fun hOwns =>
      (h.1.mayClaim hMem (hBack.owns hOwns)).congr hBack.id hBack.spec
    refine ⟨⟨?_, h.2⟩, ⟨?_, h.2⟩⟩
    · exact hSound.store_claim hNewMem hSameID hSameSpec hPlain fun hOwns => (hClaim hOwns).store hSameID.symm
    · exact (hSound.persist hNewMem).store_claim hNewMem hSameID hSameSpec hPlain fun hOwns =>
        ((hClaim hOwns).store hSameID.symm).persist hSameID.symm

def State.Landed (s : State) (record : Record) : Prop :=
  ∀ other ∈ s.memory, other.id ≠ record.id → upstreamNamesOverlap record other = true → other.superseded = true →
    ∀ d ∈ s.disk, d.id = other.id → d.superseded = true

theorem State.Landed.congr (h : s.Landed old) (hId : new.id = old.id) (hSpec : new.spec = old.spec) : s.Landed new := by
  intro other hMem hNe hOverlap
  rw [upstreamNamesOverlap_congr hSpec rfl] at hOverlap
  exact h other hMem (hId ▸ hNe) hOverlap

theorem State.Landed.store (h : s.Landed record) (hMem : old ∈ s.memory) (hId : new.id = old.id)
    (hSpec : new.spec = old.spec) (hOld : new.superseded = old.superseded) : (s.store new).Landed record := by
  intro other hOther hNe hOverlap hRevoked d hDisk hSame
  rcases mem_replace hOther with rfl | ⟨hOther, _⟩
  · rw [upstreamNamesOverlap_congr rfl hSpec] at hOverlap
    rw [hId] at hNe hSame
    exact h old hMem hNe hOverlap (hOld ▸ hRevoked) d hDisk hSame
  · exact h other hOther hNe hOverlap hRevoked d hDisk hSame

theorem State.Landed.persist (h : s.Landed record) (hSound : s.Sound) (hMem : new ∈ s.memory)
    (hActive : new.superseded = false) : (s.persist new).Landed record := by
  intro other hOther hNe hOverlap hRevoked d hDisk hId
  rcases mem_replace hDisk with rfl | ⟨hDisk, _⟩
  · rw [hSound.eq_of_id hMem hOther hId] at hActive
    simp [hActive] at hRevoked
  · exact h other hOther hNe hOverlap hRevoked d hDisk hId

/-- What a start keeps while it reconciles the others: nothing contradicts the memory's revocations, and the
records it still has to look at are current. -/
structure Starting (record : Record) (rest : List Record) (s : State) : Prop where
  live : s.Live
  landed : s.Landed record
  current : ∀ other ∈ rest, other ∈ s.memory

variable {rest : List Record} {before : Evidence}

theorem Starting.store (h : Starting record rest s) (hRest : ∀ other ∈ rest, other.id ≠ old.id)
    (hMem : old ∈ s.memory) (hId : new.id = old.id) (hSpec : new.spec = old.spec)
    (hOld : new.superseded = old.superseded) (hLive : (s.store new).Live) :
    Starting record rest (s.store new) where
  live := hLive
  landed := h.landed.store hMem hId hSpec hOld
  current other hOther := store_mem_of_ne (h.current other hOther) (hId ▸ hRest other hOther)

theorem Starting.persist (h : Starting record rest s) (hMem : new ∈ s.memory) (hActive : new.superseded = false) :
    Starting record rest (s.persist new) where
  live := ⟨h.live.1.persist hMem, h.live.2⟩
  landed := h.landed.persist h.live.1 hMem hActive
  current := h.current

theorem stable_starting {id : RecordID} (hRest : ∀ other ∈ rest, other.id ≠ id) : Stable id (Starting record rest) where
  store {s old new} h hMem hId hTame :=
    h.store (hId ▸ hRest) hMem hTame.id hTame.spec hTame.superseded ((stable_live id).store h.live hMem hId hTame)
  persist h hMem _ hActive := h.persist hMem hActive
  undo {s old new back} h hMem hId hActive hTame hBack := by
    obtain ⟨hLost, hLate⟩ := (stable_live id).undo h.live hMem hId hActive hTame hBack
    have hNew : new ∈ (s.store new).memory := store_mem hMem hTame.id
    have hRestNew : ∀ other ∈ rest, other.id ≠ new.id := by rw [hTame.id, hId]; exact hRest
    have hStored : Starting record rest (s.store new) :=
      h.store (hId ▸ hRest) hMem hTame.id hTame.spec hTame.superseded ((stable_live id).store h.live hMem hId hTame)
    have hSameID : back.id = new.id := hBack.id.trans hTame.id.symm
    have hSameSpec : back.spec = new.spec := hBack.spec.trans hTame.spec.symm
    have hSame : back.superseded = new.superseded := hBack.superseded.trans hTame.superseded.symm
    constructor
    · exact hStored.store hRestNew hNew hSameID hSameSpec hSame hLost
    · have hWrote := hStored.persist hNew (hTame.superseded.trans hActive)
      exact hWrote.store hRestNew hNew hSameID hSameSpec hSame hLate

theorem triple_rangeRecords {P E : State → Prop} :
    Triple P rangeRecords (fun records s => P s ∧ records.Perm s.memory) E := by
  refine triple_bind (Q := fun read s => P s ∧ read = s) (triple_state fun s hs => ⟨hs, rfl⟩) fun read => ?_
  refine triple_ask fun env n s hs => ⟨hs.1, ?_⟩
  rw [hs.2]
  exact env.order_perm n s.memory

structure Revoking (record : Record) (rest : List Record) (s : State) : Prop extends Starting record rest s where
  here : record ∈ s.memory
  nodup : (rest.map Record.id).Nodup
  done : ∀ other ∈ s.memory, other.id ≠ record.id → upstreamNamesOverlap record other = true →
    other ∈ rest ∨ other.superseded = true

theorem Revoking.skip (h : Revoking record (other :: rest) s)
    (hSkip : other.id = record.id ∨ other.superseded = true ∨ upstreamNamesOverlap record other = false) :
    Revoking record rest s where
  live := h.live
  landed := h.landed
  current next hNext := h.current next (mem_cons_of_mem _ hNext)
  here := h.here
  nodup := (nodup_cons.mp h.nodup).2
  done next hMem hNe hOverlap := by
    rcases h.done next hMem hNe hOverlap with hRest | hRevoked
    · rcases mem_cons.mp hRest with rfl | hRest
      · rcases hSkip with hId | hRevoked | hApart
        · exact absurd hId hNe
        · exact .inr hRevoked
        · simp [hApart] at hOverlap
      · exact .inl hRest
    · exact .inr hRevoked

def Record.revoked (record : Record) : Record := { record with superseded := true, armed := false }

theorem Record.quiet_revoked (record : Record) : record.Quiet record.revoked :=
  ⟨rfl, rfl, fun h => by simp [Record.owns, Record.revoked] at h, fun h => h⟩

theorem Revoking.revoke (h : Revoking record (other :: rest) s) (hId : other.id ≠ record.id) :
    Revoking record rest ((s.store other.revoked).persist other.revoked) := by
  have hMem : other ∈ s.memory := h.current other mem_cons_self
  obtain ⟨hHead, hNodup⟩ := nodup_cons.mp h.nodup
  have hStored : (s.store other.revoked).Sound := h.live.1.store hMem other.quiet_revoked
  have hNew : other.revoked ∈ (s.store other.revoked).memory := store_mem hMem rfl
  refine ⟨⟨⟨hStored.persist hNew, h.live.2⟩, ?_, ?_⟩, ?_, hNodup, ?_⟩
  · intro next hNext hNe hOverlap hRevoked d hDisk hSame
    rcases mem_replace hDisk with rfl | ⟨hDisk, hOther⟩
    · rfl
    rcases mem_replace hNext with rfl | ⟨hNext, _⟩
    · exact absurd hSame hOther
    · exact h.landed next hNext hNe hOverlap hRevoked d hDisk hSame
  · intro next hNext
    refine store_mem_of_ne (h.current next (mem_cons_of_mem _ hNext)) fun hSame => hHead ?_
    exact mem_map.mpr ⟨next, hNext, hSame⟩
  · exact store_mem_of_ne h.here (Ne.symm hId)
  intro next hNext hNe hOverlap
  rcases mem_replace hNext with rfl | ⟨hNext, hOther⟩
  · exact .inr rfl
  · refine (h.done next hNext hNe hOverlap).imp_left fun hRest => ?_
    exact (mem_cons.mp hRest).resolve_left fun hEq => hOther (hEq ▸ rfl)

theorem triple_revoke :
    Triple (Revoking record (other :: rest)) (revoke record other) (fun _ => Revoking record rest) Live := by
  refine triple_ite (fun hSkip => triple_pure fun s h => h.skip ?_) fun hVisit => ?_
  · simpa [or_assoc] using hSkip
  have hId : other.id ≠ record.id := by
    rintro hId
    simp [hId] at hVisit
  refine triple_bind (Q := fun _ t => ∃ s, Revoking record (other :: rest) s ∧ t = s.store other.revoked)
    (triple_store fun s hs => ⟨s, hs, rfl⟩) fun _ => ?_
  refine triple_save ?_ ?_
  · rintro _ ⟨s, hs, rfl⟩
    exact hs.revoke hId
  rintro _ ⟨s, hs, rfl⟩
  have hMem : other ∈ s.memory := hs.current other mem_cons_self
  exact ⟨⟨hs.live.1.store hMem other.quiet_revoked, hs.live.2⟩, (hs.revoke hId).live⟩

theorem Revoking.claims (h : Revoking record [] s) : Claims record s := by
  refine ⟨⟨h.live, ?_⟩, h.here⟩
  have hRevoked : ∀ other ∈ s.memory, other.id ≠ record.id → upstreamNamesOverlap record other = true →
      other.superseded = true := fun other hMem hNe hOverlap =>
    (h.done other hMem hNe hOverlap).resolve_left (not_mem_nil)
  intro c hCopy hNe hOverlap
  by_contra hOwner
  rw [Bool.not_eq_false] at hOwner
  suffices hOld : c.superseded = true by simp [Record.owns, hOld] at hOwner
  rcases mem_copies.mp hCopy with hMem | hDisk
  · exact hRevoked c hMem hNe hOverlap
  obtain ⟨other, hMem, hId⟩ := h.live.1.known h.live.2 c hDisk hOwner
  have hSpec := h.live.1.frozen other (mem_copies.mpr (.inl hMem)) c hCopy hId
  have hNeOther : other.id ≠ record.id := hId ▸ hNe
  have hOverlapOther : upstreamNamesOverlap record other = true := upstreamNamesOverlap_congr rfl hSpec ▸ hOverlap
  exact h.landed other hMem hNeOther hOverlapOther (hRevoked other hMem hNeOther hOverlapOther) c hDisk hId.symm

theorem revoking_of_perm {others : List Record} (h : Starting record [record] s) (hPerm : others.Perm s.memory) :
    Revoking record others s where
  live := h.live
  landed := h.landed
  current _ hOther := hPerm.mem_iff.mp hOther
  here := h.current record mem_cons_self
  nodup := (hPerm.map Record.id).nodup_iff.mpr h.live.1.ids
  done _ hMem _ _ := .inl (hPerm.mem_iff.mpr hMem)

theorem triple_trySave_claims : Triple (Claims record) (trySave record) (fun _ => Claims record) Live :=
  triple_trySave (fun _ h => h.persist) (fun _ _ h => h) (fun _ _ h => h.persist) fun _ h => ⟨h.live, h.persist.live⟩

theorem triple_store_claims (hId : new.id = old.id) (hSpec : new.spec = old.spec) (hPlain : old.Plain → new.Plain) :
    Triple (Claims old) (store new) (fun _ => Claims new) Live :=
  triple_store fun _ h => h.store hId hSpec hPlain

theorem triple_acquire : Triple (Starting record [record]) (acquire record before)
      (fun granted s => granted.spec = record.spec ∧ Claims granted s) Live := by
  refine triple_bind triple_rangeRecords fun others => ?_
  have hLoop := triple_fold (I := fun rest _ => Revoking record rest)
    (fun _ _ _ => triple_revoke) others ()
  refine triple_bind (hLoop.pre fun s h => revoking_of_perm h.1 h.2) fun _ => ?_
  refine Triple.pre ?_ fun s h => Revoking.claims h
  refine triple_bind (triple_store_claims rfl rfl fun h => h) fun _ => ?_
  refine triple_bind triple_trySave_claims fun result => ?_
  cases result with
  | ok u => exact triple_pure fun _ h => ⟨rfl, h⟩
  | error message =>
    refine triple_bind (triple_store_claims rfl rfl fun h => h) fun _ => ?_
    exact triple_bind triple_trySave_claims fun _ => triple_fail fun _ h => h.live

def Launched (record : Record) (result : Except String Record) (s : State) : Prop :=
  match result with
  | .ok started => started.spec = record.spec ∧ Claims started s
  | .error _ => Claims record s

theorem triple_undo {message : String} (hId : record.id = old.id) (hSpec : record.spec = old.spec)
    (hPlain : old.Plain → record.Plain) :
    Triple (Claims old) (launch.undo record message) (Launched record) Live := by
  refine triple_bind (triple_store_claims hId hSpec hPlain) fun _ => ?_
  exact triple_bind triple_trySave_claims fun _ => triple_pure fun _ h => h

theorem triple_launch {operation : Operation} :
    Triple (Claims record) (launch record operation) (Launched record) Live := by
  refine readOnly_state.then (fun _ h => h.live) fun _ => ?_
  refine triple_branch (triple_pure fun _ h => h) ?_
  refine (readOnly_ask _).then (fun _ h => h.live) fun fault => ?_
  cases fault with
  | some message => exact triple_pure fun _ h => h
  | none =>
    refine (readOnly_ask _).then (fun _ h => h.live) fun worker => ?_
    refine triple_bind (triple_store_claims rfl rfl fun h => h) fun _ => ?_
    refine triple_bind triple_trySave_claims fun result => ?_
    cases result with
    | error message => exact triple_undo rfl rfl fun h => h
    | ok u =>
      refine (readOnly_ask _).then (fun _ h => h.live) fun fault => ?_
      cases fault with
      | some message => exact triple_undo rfl rfl fun h => h
      | none => exact triple_pure fun _ h => ⟨rfl, h⟩

theorem triple_arm {setup : Bool} : Triple (Claims record) (arm record setup) (Launched record) Live := by
  refine triple_branch triple_launch ?_
  refine triple_bind triple_trySave_claims fun result => ?_
  cases result with
  | ok u => exact triple_pure fun _ h => ⟨rfl, h⟩
  | error message => exact triple_pure fun _ h => h

theorem triple_startObserver (hWatch : record.spec.observeOnly = true) :
    Triple (Starting record [record]) (startObserver record before) (fun _ => Live) Live := by
  refine (readOnly_needsSetup record).then (fun _ h => h.live) fun setup => ?_
  refine readOnly_attempt.then (fun _ h => h.live) fun _ => ?_
  refine triple_bind triple_acquire fun granted => triple_of_fact fun hSpec => ?_
  have hPlain : ∀ other : Record, other.spec = granted.spec → other.Plain := by
    intro other hSame hOurs
    rw [hSame, hSpec, hWatch] at hOurs
    cases hOurs
  refine triple_bind (triple_store_claims rfl rfl fun _ => hPlain _ rfl) fun _ => ?_
  refine triple_bind triple_arm fun result => ?_
  cases result with
  | ok armed => exact triple_pure fun _ h => h.2.live
  | error message =>
    refine triple_bind (triple_store_claims rfl rfl fun _ => hPlain _ rfl) fun _ => ?_
    exact triple_bind triple_trySave_claims fun _ => triple_fail fun _ h => h.live

theorem triple_startManaged :
    Triple (Starting record [record]) (startManaged record before) (fun _ => Live) Live := by
  refine triple_bind triple_acquire fun granted => triple_of_fact fun _ => ?_
  refine triple_bind triple_launch fun result => ?_
  cases result with
  | ok started => exact triple_pure fun _ h => h.2.live
  | error message => exact triple_fail fun _ h => h.live

theorem triple_reconcile (hNodup : ((other :: rest).map Record.id).Nodup) :
    Triple (fun s => Starting record (record :: other :: rest) s) (reconcile record other)
      (fun _ s => Starting record (record :: rest) s) Live := by
  have hDrop : ∀ s, Starting record (record :: other :: rest) s → Starting record (record :: rest) s := by
    intro s h
    refine ⟨h.live, h.landed, fun next hNext => h.current next ?_⟩
    rcases mem_cons.mp hNext with rfl | hNext
    · exact mem_cons_self
    · exact mem_cons_of_mem _ (mem_cons_of_mem _ hNext)
  refine triple_ite (fun hOther => ?_) fun _ => triple_pure hDrop
  simp only [Bool.and_eq_true, decide_eq_true_eq] at hOther
  have hRest : ∀ next ∈ record :: rest, next.id ≠ other.id := by
    intro next hNext
    rcases mem_cons.mp hNext with rfl | hNext
    · exact Ne.symm hOther.1
    · exact fun hId => (nodup_cons.mp hNodup).1 (mem_map.mpr ⟨next, hNext, hId⟩)
  have hStable : Stable other.id (Starting record (record :: rest)) := stable_starting hRest
  have hInspect := triple_inspect hStable
  refine triple_bind ((hInspect.weaken ?_ (fun _ _ => id) fun s h => h.live).post fun _ _ h => h.2.1) fun _ => ?_
  · exact fun s h => ⟨hDrop s h, h.current other (mem_cons_of_mem _ mem_cons_self)⟩
  · exact triple_pure fun _ => id

theorem triple_reconcileAll (others : List Record) (hNodup : (others.map Record.id).Nodup) :
    Triple (Starting record (record :: others)) (fold (fun _ other => reconcile record other) others ())
      (fun _ => Starting record [record]) Live := by
  induction others with
  | nil => exact triple_pure fun _ => id
  | cons other rest ih =>
    exact triple_bind (triple_reconcile hNodup) fun _ => ih (nodup_cons.mp hNodup).2

theorem triple_startRecord :
    Triple (Starting record [record]) (startRecord record) (fun _ => Live) Live := by
  refine (readOnly_validateUpstream record.spec).then (fun _ h => h.live) fun _ => ?_
  have hStable : Stable record.id (Starting record []) := stable_starting fun _ h => absurd h not_mem_nil
  have hInspect := triple_inspect hStable
  refine triple_bind (hInspect.weaken ?_ (fun _ _ => id) fun s h => h.live) ?_
  · exact fun s h => ⟨⟨h.live, h.landed, fun _ h => absurd h not_mem_nil⟩, h.current record mem_cons_self⟩
  rintro ⟨info, seen⟩
  refine triple_of_fact fun hTame => ?_
  refine Triple.pre (R := Starting seen [seen]) ?_ fun s h => ?_
  · refine (readOnly_jobAlive seen).then (fun _ h => h.live) fun alive => ?_
    refine triple_branch (triple_pure fun _ h => h.live) (triple_branch ?_ ?_)
    · exact triple_branch (triple_fail fun _ h => h.live) (triple_pure fun _ h => h.live)
    refine readOnly_requireExecution.then (fun _ h => h.live) fun _ => ?_
    refine triple_bind triple_rangeRecords fun others => ?_
    refine triple_bind (Q := fun _ => Starting seen [seen]) ?_ fun _ => ?_
    · intro env n s h
      obtain ⟨hStart, hPerm⟩ := h
      have hNodup : (others.map Record.id).Nodup := (hPerm.map Record.id).nodup_iff.mpr hStart.live.1.ids
      refine triple_reconcileAll others hNodup env n s ⟨hStart.live, hStart.landed, fun next hNext => ?_⟩
      rcases mem_cons.mp hNext with rfl | hNext
      · exact hStart.current next mem_cons_self
      · exact hPerm.mem_iff.mp hNext
    · refine (readOnly_preflight seen true).then (fun _ h => h.live) fun before => ?_
      exact triple_ite (fun hWatch => triple_startObserver hWatch) fun _ => triple_startManaged
  refine ⟨h.1.live, h.1.landed.congr hTame.id hTame.spec, fun next hNext => ?_⟩
  rw [mem_singleton.mp hNext]
  exact h.2

end LocalModelWorks.Upstream
