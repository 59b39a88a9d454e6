import LocalModelWorks.Upstream.Grant

/-!
# One owner per container name

The remaining calls take no ownership, so in every run whose starts find the revocations of
their memory on disk, no two overlapping records own anything, neither in memory nor on
disk.
-/

namespace LocalModelWorks.Upstream

open Program State
open Record (owns hasEvidence Tame Quiet)

variable (record : Record)

theorem readOnly_stopObserverName (stopped : Bool) (name : ContainerName) :
    ReadOnly (stopObserverName record stopped name) := by
  refine readOnly_inspected name (readOnly_pure _) (fun _ => rfl) fun ci => ?_
  refine (readOnly_ownerOf name ci.id).bind fun _ => readOnly_ite ?_ (readOnly_pure _)
  exact readOnly_ite (readOnly_pure _) (readOnly_fail _)

theorem readOnly_activeName (active : Bool) (name : ContainerName) :
    ReadOnly (removeActive.activeName record active name) := by
  refine readOnly_inspected name (readOnly_pure _) (fun _ => rfl) fun ci => ?_
  exact (readOnly_ownerOf name ci.id).bind fun _ => readOnly_pure _

theorem readOnly_removeName (name : ContainerName) : ReadOnly (removeName record name) := by
  refine readOnly_inspected name (readOnly_pure _) (fun _ => rfl) fun ci => ?_
  refine (readOnly_ownerOf name ci.id).bind fun owner => ?_
  cases owner with
  | none => exact readOnly_fail _
  | some id =>
    refine readOnly_ite (readOnly_pure _) (readOnly_ite (readOnly_fail _) ?_)
    exact readOnly_ite (readOnly_pure _) readOnly_attempt

variable {record : Record} {s : State}

theorem triple_findRecord {P E : State → Prop} (key : String) :
    Triple P (findRecord key) (fun found s => P s ∧ ∀ record, found = some record →
      record ∈ s.memory ∧ (record.id = key ∨ record.spec.name = key)) E := by
  refine triple_bind triple_rangeRecords fun records => ?_
  have hName : ∀ s, P s ∧ records.Perm s.memory → P s ∧ ∀ record, findRecord.byName key records = some record →
      record ∈ s.memory ∧ (record.id = key ∨ record.spec.name = key) := by
    intro s h
    refine ⟨h.1, fun record hFound => ⟨h.2.mem_iff.mp (List.mem_of_find?_eq_some hFound), .inr ?_⟩⟩
    have hMatch := List.find?_some hFound
    simp only [Bool.and_eq_true, beq_iff_eq] at hMatch
    exact hMatch.2
  cases hGet : Table.lookup Record.id records key with
  | none => exact triple_pure hName
  | some found =>
    refine triple_branch (triple_pure hName) (triple_pure fun s h => ⟨h.1, ?_⟩)
    rintro _ ⟨⟩
    exact ⟨h.2.mem_iff.mp (Table.mem_of_lookup hGet), .inl (Table.key_of_lookup hGet)⟩

theorem triple_inspect_live (record : Record) :
    Triple (At Live record) (inspect record) (fun result => Leaves Live record result.2) Live :=
  triple_inspect (stable_live record.id)

theorem triple_update_quiet {new : Record} (hQuiet : record.Quiet new) :
    Triple (At Live record) (update new) (fun _ => Live) Live := by
  have hStored : ∀ s, At Live record s → (s.store new).Live := fun s h => ⟨h.1.1.store h.2 hQuiet, h.1.2⟩
  have hWrote : ∀ s, At Live record s → ((s.store new).persist new).Live := fun s h =>
    ⟨(hStored s h).1.persist (store_mem h.2 hQuiet.id), h.1.2⟩
  exact triple_update hStored hWrote hWrote

theorem Record.quiet_disarmed (record : Record) (removed stopped : Bool) :
    record.Quiet { record with removed := removed, armed := false, stopped := stopped } where
  id := rfl
  spec := rfl
  owns h := by
    simp only [owns, hasEvidence, Bool.or_false, Bool.and_eq_true, Bool.or_eq_true] at h ⊢
    exact ⟨h.1, .inl h.2⟩
  plain h := h

theorem triple_waitFor {R : Record → Prop} {round : Record → Action (Option Record)} {late : String}
    (hRound : ∀ record, R record → Triple (At Live record) (round record) (fun result s =>
      s.Live ∧ ∀ next, result = some next → R next ∧ next ∈ s.memory) Live) (patience : Nat) :
    ∀ {record : Record}, R record →
      Triple (At Live record) (waitFor round late patience record) (fun _ => Live) Live := by
  induction patience with
  | zero =>
    intro record hRecord
    refine triple_bind (hRound record hRecord) fun result => ?_
    cases result with
    | none => exact triple_pure fun _ h => h.1
    | some next => exact ((readOnly_expire _).triple fun _ h => h.1).post fun _ _ h => h.1
  | succ patience ih =>
    intro record hRecord
    refine triple_bind (hRound record hRecord) fun result => ?_
    cases result with
    | none => exact triple_pure fun _ h => h.1
    | some next =>
      intro env n s h
      obtain ⟨hNext, hMem⟩ := h.2 next rfl
      exact ih hNext env n s ⟨h.1, hMem⟩

theorem triple_stopObserverRound (record : Record)
    (hRecord : record.spec.observeOnly = true ∧ record.superseded = false) :
    Triple (At Live record) (stopObserverRound record) (fun result s => s.Live ∧ ∀ next, result = some next →
      (next.spec.observeOnly = true ∧ next.superseded = false) ∧ next ∈ s.memory) Live := by
  refine triple_bind (triple_inspectObserver hRecord.1 hRecord.2 (stable_live record.id)) ?_
  rintro ⟨info, seen⟩
  refine (readOnly_fold (readOnly_stopObserverName seen) _ _).then (fun _ h => h.2.1) fun stopped => ?_
  refine triple_branch ?_ (triple_pure fun s h => ⟨h.2.1, ?_⟩)
  · refine triple_bind ((triple_update_quiet (seen.quiet_disarmed _ _)).pre fun _ h => h.2) fun _ => ?_
    exact triple_pure fun _ h => ⟨h, fun _ hNone => (by cases hNone)⟩
  · rintro _ ⟨⟩
    exact ⟨⟨h.1.observeOnly hRecord.1, h.1.superseded.trans hRecord.2⟩, h.2.2⟩

theorem triple_stopRound (record : Record) : Triple (At Live record) (stopRound record)
      (fun result s => s.Live ∧ ∀ next, result = some next → True ∧ next ∈ s.memory) Live := by
  refine triple_bind (triple_inspect_live record) ?_
  rintro ⟨info, seen⟩
  refine (readOnly_jobAlive seen).then (fun _ h => h.2.1) fun alive => ?_
  refine triple_branch (triple_pure fun s h => ⟨h.2.1, ?_⟩) (triple_branch ?_ ?_)
  · rintro _ ⟨⟩
    exact ⟨trivial, h.2.2⟩
  · exact triple_fail fun _ h => h.2.1
  refine (readOnly_fold (fun _ => readOnly_checkStopped _) _ _).then (fun _ h => h.2.1) fun _ => ?_
  refine triple_bind ((triple_update_quiet (seen.tame_stopped true).toQuiet).pre fun _ h => h.2) fun _ => ?_
  exact triple_pure fun _ h => ⟨h, fun _ hNone => (by cases hNone)⟩

theorem triple_stopObserver (hWatch : record.spec.observeOnly = true) :
    Triple (At Live record) (stopObserver record) (fun _ => Live) Live := by
  refine triple_ite (fun _ => triple_pure fun _ h => h.1) fun hActive => ?_
  refine (readOnly_cancel record).then (fun _ h => h.1) fun _ => ?_
  refine (readOnly_ask _).then (fun _ h => h.1) fun patience => ?_
  exact triple_waitFor triple_stopObserverRound patience ⟨hWatch, by simpa using hActive⟩

/-- A managed installation has something to stop only where it owns its names, so its stop worker is a claim
it already has. -/
theorem triple_stopManaged (hOwns : record.owns = true) (hOurs : record.spec.observeOnly = false) :
    Triple (At Live record) (stopManaged record) (fun _ => Live) Live := by
  refine (readOnly_cancel record).then (fun _ h => h.1) fun _ => ?_
  refine triple_bind (triple_inspect_live record) ?_
  rintro ⟨info, seen⟩
  refine triple_of_fact fun hTame => ?_
  have hSeen : seen.owns = true := by
    simp only [owns, Bool.and_eq_true] at hOwns ⊢
    exact ⟨hTame.superseded ▸ hOwns.1, hTame.evidence hOurs hOwns.2⟩
  refine (readOnly_preflight seen false).then (fun _ h => h.1) fun before => ?_
  refine readOnly_attempt.then (fun _ h => h.1) fun _ => ?_
  refine (readOnly_ask _).then (fun _ h => h.1) fun found => ?_
  refine triple_branch ?_ (triple_branch ?_ (triple_fail fun _ h => h.1))
  · refine triple_bind (triple_launch.pre fun s h => ⟨⟨h.1, h.1.1.mayClaim h.2 hSeen⟩, h.2⟩) fun result => ?_
    cases result with
    | error message => exact triple_fail fun _ h => h.live
    | ok started =>
      refine (readOnly_ask _).then (fun _ h => h.2.live) fun patience => ?_
      exact (triple_waitFor (fun record _ => triple_stopRound record) patience trivial).pre
        fun s h => ⟨h.2.live, h.2.2⟩
  · refine triple_bind (triple_update_quiet (seen.tame_stopped true).toQuiet) fun _ => ?_
    exact triple_pure fun _ h => h

theorem hasEvidence_of_touched (hPlain : record.Plain) (hOurs : record.spec.observeOnly = false)
    (hTouched : record.untouched = false) : record.hasEvidence = true := by
  obtain ⟨hPre, hAttached⟩ := hPlain hOurs
  by_contra hNone
  simp only [hasEvidence, Bool.or_eq_true, not_or, Bool.not_eq_true, Bool.not_eq_false'] at hNone
  simp [Record.untouched, hPre, hAttached, hNone.1.1, hNone.2, Option.isSome_eq_false_iff.mp hNone.1.2] at hTouched

theorem triple_stopRecord : Triple (At Live record) (stopRecord record) (fun _ => Live) Live := by
  refine readOnly_requireExecution.then (fun _ h => h.1) fun _ => ?_
  refine triple_ite (fun _ => ?_) fun hTouched => ?_
  · have hTame := record.tame_stopped true
    have hStored : ∀ s, At Live record s → At Live { record with stopped := true }
        (s.store { record with stopped := true }) := fun s h => (stable_live record.id).at_store h hTame
    have hWrote : ∀ s, At Live record s → (persist (s.store { record with stopped := true })
        { record with stopped := true }).Live := fun s h => ⟨(hStored s h).1.1.persist (hStored s h).2, h.1.2⟩
    refine triple_bind (triple_updateOr hWrote ?_ ?_) fun _ => triple_pure fun _ => id
    · exact fun s h => ⟨(hStored s h).1, hWrote s h⟩
    intro s h
    have hBack : Tame { record with stopped := true } record := Record.tame_stopped _ record.stopped
    exact ⟨((stable_live _).at_store (hStored s h) hBack).1,
      ((stable_live _).at_store ⟨hWrote s h, (hStored s h).2⟩ hBack).1⟩
  have hInspect := triple_inspect_live record
  refine triple_bind (Q := fun result s => (record.Plain ∧ record.Tame result.2) ∧ At Live result.2 s) ?_ ?_
  · intro env n s h
    have hPlain := h.1.1.plain record (mem_copies.mpr (.inl h.2))
    exact (hInspect env n s h).weaken (fun _ _ h => ⟨⟨hPlain, h.1⟩, h.2⟩) fun _ => id
  rintro ⟨info, seen⟩
  refine triple_of_fact ?_
  rintro ⟨hPlain, hTame⟩
  refine triple_ite (fun _ => triple_pure fun _ h => h.1) fun hActive => ?_
  refine triple_ite (fun hWatch => triple_stopObserver hWatch) fun hOurs => ?_
  rw [Bool.not_eq_true] at hTouched hActive hOurs
  rw [hTame.spec] at hOurs
  have hEvidence := hTame.evidence hOurs (hasEvidence_of_touched hPlain hOurs hTouched)
  refine triple_stopManaged ?_ (hTame.spec ▸ hOurs)
  simp [owns, hActive, hEvidence]

theorem triple_removeActive (key : String) : Triple Live (removeActive key) (fun _ => Live) Live := by
  refine triple_bind (triple_findRecord key) fun found => ?_
  cases found with
  | none =>
    refine readOnly_attempt.then (fun _ h => h.1) fun _ => triple_pure fun _ h => h.1
  | some record =>
    refine triple_bind ((triple_inspect_live record).pre fun s h => ⟨h.1, (h.2 record rfl).1⟩) ?_
    rintro ⟨info, seen⟩
    refine (readOnly_jobAlive seen).then (fun _ h => h.2.1) fun alive => ?_
    exact ((readOnly_fold (readOnly_activeName seen) _ _).triple fun _ h => h.2.1).post fun _ _ h => h.2.1

theorem triple_removeRecord (key : String) : Triple Live (removeRecord key) (fun _ => Live) Live := by
  refine triple_bind (triple_findRecord key) fun found => ?_
  cases found with
  | none => exact triple_fail fun _ h => h.1
  | some record =>
    refine Triple.pre (R := At Live record) ?_ fun s h => ⟨h.1, (h.2 record rfl).1⟩
    refine (readOnly_jobAlive record).then (fun _ h => h.1) fun alive => ?_
    refine triple_branch (triple_fail fun _ h => h.1) (triple_branch ?_ ?_)
    · refine triple_bind (triple_update_quiet ⟨rfl, rfl, fun h => h, fun h => h⟩) fun _ => triple_pure fun _ => id
    · refine (readOnly_fold (fun _ => readOnly_removeName record) _ _).then (fun _ h => h.1) fun _ => ?_
      exact triple_bind (triple_update_quiet (record.quiet_disarmed _ _)) fun _ => triple_pure fun _ => id

theorem triple_create (id : RecordID) (spec : ContainerSpec) :
    Triple (fun s => s.Live ∧ s.fresh id) (create id spec) (fun _ => Live) Live := by
  have hStop : ∀ s : State, s.Live ∧ s.fresh id → s.Live := fun _ h => h.1
  refine readOnly_requireExecution.then hStop fun _ => ?_
  refine (readOnly_validateUpstream spec).then hStop fun _ => ?_
  refine (readOnly_findRecord spec.name).then hStop fun found => ?_
  cases found with
  | some record => exact triple_fail hStop
  | none =>
    refine (readOnly_inspectContainer spec.name).then hStop fun reply => ?_
    cases reply with
    | found | failed => exact triple_fail hStop
    | missing =>
      refine readOnly_attempt.then hStop fun _ => ?_
      refine (readOnly_ask _).then hStop fun write => ?_
      cases write with
      | done => exact triple_modify fun s h => ⟨h.1.1.create h.2 spec rfl (.inl rfl) rfl, h.1.2⟩
      | lost | late => exact triple_fail hStop
      | killedBefore => exact triple_crash hStop
      | killedAfter =>
        refine triple_bind ?_ fun _ => triple_crash fun _ h => h
        exact triple_modify fun s h => ⟨h.1.1.create h.2 spec rfl (.inr rfl) rfl, h.1.2⟩

theorem triple_loadRecord (record : Record) (s : State) :
    Triple (· = s) (loadRecord record) (fun loaded t => record.Quiet loaded ∧ t = s) (· = s) := by
  refine triple_bind (readOnly_validateUpstream record.spec s) fun _ => ?_
  cases hJob : record.job with
  | none => exact triple_pure fun _ h => ⟨(Tame.refl record).toQuiet, h⟩
  | some job =>
    refine triple_branch (triple_pure fun _ h => ⟨(Tame.refl record).toQuiet, h⟩) ?_
    refine triple_bind (readOnly_readStatus job s) fun status => ?_
    have hSome : record.job.isSome = true := by rw [hJob]; rfl
    refine triple_pure fun _ h => ⟨?_, h⟩
    rw [← hJob]
    exact (tame_observed hSome _).toQuiet

theorem triple_loadRecords (s : State) : ∀ records : List Record,
    Triple (· = s) (loadRecords records) (fun loaded t => List.Forall₂ Quiet records loaded ∧ t = s) (· = s)
  | [] => triple_pure fun _ h => ⟨.nil, h⟩
  | record :: rest => by
    refine triple_bind (triple_loadRecord record s) fun loaded => triple_of_fact fun hQuiet => ?_
    refine triple_bind (triple_loadRecords s rest) fun others => triple_of_fact fun hOthers => ?_
    exact triple_pure fun _ h => ⟨.cons hQuiet hOthers, h⟩

theorem triple_withUpstream (allowExecution : Bool) :
    Triple Sound (withUpstream allowExecution) (fun _ => Sound) Sound := by
  intro env n s h
  have hLoad : Triple (· = s) (withUpstream allowExecution) (fun _ => Sound) Sound := by
    refine triple_bind (Q := fun read t => read = s ∧ t = s) (triple_state fun _ h => ⟨h, h⟩) fun read => ?_
    refine triple_of_fact ?_
    rintro rfl
    refine triple_bind ((triple_loadRecords read read.disk).weaken (fun _ => id) (fun _ _ => id) ?_) fun records => ?_
    · rintro _ rfl
      exact h
    refine triple_of_fact fun hLoaded => triple_modify ?_
    rintro _ rfl
    exact h.load hLoaded allowExecution
  exact hLoad env n s rfl

/-- A start finds every revocation of its memory on disk: of the records that share a name with the started
one, those marked superseded in memory are superseded in their files. -/
def RevocationsLanded (s : State) : Event → Prop
  | .call _ (.start key) => ∀ record ∈ s.memory, record.id = key ∨ record.spec.name = key → s.Landed record
  | _ => True

theorem sound_settle {outcome : Outcome String State Unit} (h : outcome.Satisfies (fun _ => Sound) Sound) :
    (settle outcome).Sound := by
  rcases outcome with ⟨exit, n, s⟩
  cases exit with
  | value | failed => exact h
  | crashed => exact Sound.die h

theorem sound_call (c : Call) (env : Env) (hLive : s.Live) (hPossible : c.possible s)
    (hLanded : RevocationsLanded s (.call env c)) : (settle (c.action env 0 s)).Sound := by
  have hSound : ∀ {P : State → Prop}, Triple P c.action (fun _ => Live) Live → P s →
      (settle (c.action env 0 s)).Sound := fun h hs =>
    sound_settle ((h env 0 s hs).weaken (fun _ _ h => h.1) fun _ h => h.1)
  cases c with
  | create id spec => exact hSound (triple_create id spec) ⟨hLive, hPossible⟩
  | start key =>
    refine hSound ?_ rfl
    refine triple_bind (triple_findRecord key) fun found => ?_
    cases found with
    | none =>
      refine (readOnly_attempt.triple ?_).post ?_
      · rintro _ ⟨rfl, _⟩
        exact hLive
      · rintro _ _ ⟨rfl, _⟩
        exact hLive
    | some record =>
      refine triple_startRecord.pre ?_
      rintro _ ⟨rfl, hFound⟩
      obtain ⟨hMem, hKey⟩ := hFound record rfl
      refine ⟨hLive, hLanded record hMem hKey, fun next hNext => ?_⟩
      rw [List.mem_singleton.mp hNext]
      exact hMem
  | stop key =>
    refine hSound (triple_bind (triple_findRecord key) fun found => ?_) hLive
    cases found with
    | none => exact (readOnly_attempt.triple fun _ h => h.1).post fun _ _ h => h.1
    | some record => exact triple_stopRecord.pre fun s h => ⟨h.1, (h.2 record rfl).1⟩
  | removeActive key =>
    exact hSound (triple_bind (triple_removeActive key) fun _ => triple_pure fun _ => id) hLive
  | removeRecord key => exact hSound (triple_removeRecord key) hLive
  | inspect key =>
    refine hSound (triple_bind (triple_findRecord key) fun found => ?_) hLive
    cases found with
    | none => exact (readOnly_attempt.triple fun _ h => h.1).post fun _ _ h => h.1
    | some record =>
      refine triple_bind ((triple_inspect_live record).pre fun s h => ⟨h.1, (h.2 record rfl).1⟩) fun _ => ?_
      exact triple_pure fun _ h => h.2.1

theorem sound_of_reachable (hReach : system.Reachable RevocationsLanded s) : s.Sound := by
  refine hReach.invariant ?_ ?_
  · rintro s rfl
    refine ⟨?_, ?_, ?_, List.nodup_nil, List.nodup_nil, ?_⟩
    · exact fun c hc => absurd hc List.not_mem_nil
    · exact fun a ha => absurd ha List.not_mem_nil
    · exact fun c hc => absurd hc List.not_mem_nil
    · exact fun _ d hd => absurd hd List.not_mem_nil
  intro s e hSound hOn hLanded
  cases e with
  | call env c => exact sound_call c env ⟨hSound, hOn.1⟩ hOn.2 hLanded
  | kill => exact hSound.die
  | restart env allowExecution => exact sound_settle (triple_withUpstream allowExecution env 0 s hSound)

/-- No two records that are not superseded and share a container name both hold evidence of ownership. -/
def SingleOwner (records : List Record) : Prop :=
  ∀ a ∈ records, ∀ b ∈ records, a.id ≠ b.id → a.superseded = false → b.superseded = false →
    upstreamNamesOverlap a b = true → ¬(a.hasEvidence = true ∧ b.hasEvidence = true)

/-- In every run whose starts find the revocations of their memory on disk, each container name has one owner,
in memory and among the files. -/
theorem single_owner (hReach : system.Reachable RevocationsLanded s) : SingleOwner s.memory ∧ SingleOwner s.disk := by
  have hSound := sound_of_reachable hReach
  have hAll : SingleOwner s.copies := by
    rintro a ha b hb hId hActive hActive' hOverlap ⟨hEvidence, hEvidence'⟩
    have hOwns : a.owns = true := by simp [owns, hActive, hEvidence]
    have hFree := hSound.exclusive a ha hOwns b hb (Ne.symm hId) hOverlap
    simp [owns, hActive', hEvidence'] at hFree
  constructor
  · exact fun a ha b hb => hAll a (mem_copies.mpr (.inl ha)) b (mem_copies.mpr (.inl hb))
  · exact fun a ha b hb => hAll a (mem_copies.mpr (.inr ha)) b (mem_copies.mpr (.inr hb))

def calm : Env where
  write _ := .done
  engine _ _ := .missing
  process _ _ := false
  status _ _ := .read { phase := some .started, done := true }
  order _ records := records
  order_perm _ _ := .refl _
  fault _ := none
  exists? _ := false
  worker n := ("job", n)
  ticks _ := 0

def diskFull : Env := { calm with write := fun _ => .lost "no space left on device" }

def modelSpec (name : String) : ContainerSpec := ⟨name, ["model"], [], false, [], []⟩

def handover : List Event :=
  [.restart calm true, .call calm (.create "~lmw-upstream-1" (modelSpec "first")),
    .call calm (.create "~lmw-upstream-2" (modelSpec "second")), .call calm (.start "first")]

instance (s : State) (record : Record) : Decidable (s.Landed record) := by
  unfold Landed
  infer_instance

instance (s : State) : ∀ e : Event, Decidable (RevocationsLanded s e)
  | .call _ (.start key) =>
    inferInstanceAs (Decidable (∀ record ∈ s.memory, record.id = key ∨ record.spec.name = key → s.Landed record))
  | .call _ (.create _ _) | .call _ (.stop _) | .call _ (.removeActive _) | .call _ (.removeRecord _)
  | .call _ (.inspect _) | .kill | .restart _ _ => inferInstanceAs (Decidable True)

instance (records : List Record) : Decidable (SingleOwner records) := by
  unfold SingleOwner
  infer_instance

theorem single_owner_handed_over :
    SingleOwner (system.exec ⟨false, false, [], []⟩ (handover ++ [.call calm (.start "second")])).memory ∧
    SingleOwner (system.exec ⟨false, false, [], []⟩ (handover ++ [.call calm (.start "second")])).disk :=
  single_owner (.of_allowed rfl (by decide +kernel))

/-- The revocation of the first owner is not written, the start fails and is tried again. The second attempt
passes over the record that memory calls revoked, and both files are those of owners. -/
theorem retried_start_makes_two_owners : system.Reachable (fun _ _ => True) (system.exec ⟨false, false, [], []⟩
      (handover ++ [.call diskFull (.start "second"), .call calm (.start "second")])) ∧
    ¬SingleOwner (system.exec ⟨false, false, [], []⟩
      (handover ++ [.call diskFull (.start "second"), .call calm (.start "second")])).disk :=
  ⟨.of_allowed rfl (by decide +kernel), by decide +kernel⟩

end LocalModelWorks.Upstream
