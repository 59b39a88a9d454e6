import LocalModelWorks.Upstream.Sound

/-!
# What an inspection does to the records

The parts of the calls that only read, the rules for the two ways to write a record, and
`inspect`: whichever way it ends, its own record went through tame changes and no other
record was touched.
-/

namespace LocalModelWorks.Upstream

open Program

variable (name : ContainerName)

theorem readOnly_inspectContainer : ReadOnly (inspectContainer name) := readOnly_ask _

theorem readOnly_inspected {α : Type} {f : Reply → Action α} (name : ContainerName)
    (hGone : ReadOnly (f .missing)) (hFailed : ∀ message, f (.failed message) = fail message)
    (hFound : ∀ ci, ReadOnly (f (.found ci))) : ReadOnly (inspectContainer name >>= f) := by
  refine (readOnly_inspectContainer name).bind fun reply => ?_
  cases reply with
  | missing => exact hGone
  | failed message => exact hFailed message ▸ readOnly_fail _
  | found ci => exact hFound ci

theorem readOnly_attempt : ReadOnly attempt := by
  refine (readOnly_ask _).bind fun fault => ?_
  cases fault with
  | none => exact readOnly_pure _
  | some message => exact readOnly_fail _

theorem readOnly_expire (message : String) : ReadOnly (expire message) :=
  readOnly_attempt.bind fun _ => readOnly_fail _

theorem readOnly_rangeRecords : ReadOnly rangeRecords := readOnly_state.bind fun _ => readOnly_ask _

theorem readOnly_ownerOf (id : ContainerID) : ReadOnly (ownerOf name id) :=
  readOnly_state.bind fun _ => readOnly_pure _

variable (record : Record)

theorem readOnly_jobAlive : ReadOnly (jobAlive record) := by
  unfold jobAlive
  cases record.job with
  | none => exact readOnly_pure _
  | some job => exact readOnly_ask _

theorem readOnly_readStatus (job : Job) : ReadOnly (readStatus job) := by
  refine (readOnly_ask _).bind fun file => ?_
  cases file with
  | missing | read => exact readOnly_pure _
  | unreadable message => exact readOnly_fail _

theorem readOnly_requireExecution : ReadOnly requireExecution :=
  readOnly_state.bind fun _ => readOnly_ite (readOnly_pure _) (readOnly_fail _)

theorem readOnly_validateUpstream (spec : ContainerSpec) : ReadOnly (validateUpstream spec) := by
  refine readOnly_attempt.bind fun _ => readOnly_ite (readOnly_fail _) (readOnly_ite (readOnly_fail _) ?_)
  cases checkNames [] (upstreamContainerNames spec) with
  | some message => exact readOnly_fail _
  | none => exact readOnly_ite (readOnly_fail _) readOnly_attempt

theorem readOnly_findRecord (key : String) : ReadOnly (findRecord key) := by
  refine readOnly_rangeRecords.bind fun records => ?_
  cases Table.lookup Record.id records key with
  | none => exact readOnly_pure _
  | some record => exact readOnly_ite (readOnly_pure _) (readOnly_pure _)

theorem readOnly_inspectRequired (status : Status) (report : ContainerInfo × Bool)
    (name : ContainerName) : ReadOnly (inspectRequired record status report name) := by
  refine readOnly_inspected name (readOnly_pure _) (fun _ => rfl) fun ci => ?_
  refine (readOnly_ownerOf name ci.id).bind fun owner => readOnly_ite (readOnly_ite ?_ (readOnly_pure _)) ?_
  · exact (readOnly_jobAlive record).bind fun alive => readOnly_ite (readOnly_pure _) (readOnly_pure _)
  · exact readOnly_pure _

theorem readOnly_inspectAuxiliary (info : ContainerInfo) (name : ContainerName) :
    ReadOnly (inspectAuxiliary record info name) := by
  refine readOnly_inspected name (readOnly_pure _) (fun _ => rfl) fun ci => ?_
  refine (readOnly_ownerOf name ci.id).bind fun owner => readOnly_ite ?_ (readOnly_pure _)
  exact (readOnly_jobAlive record).bind fun alive => readOnly_ite (readOnly_pure _) (readOnly_pure _)

theorem readOnly_checkStopped (report : ContainerName → ContainerInfo → String) (name : ContainerName) :
    ReadOnly (checkStopped report name) := by
  refine readOnly_inspected name (readOnly_pure _) (fun _ => rfl) fun ci => ?_
  exact readOnly_ite (readOnly_pure _) (readOnly_fail _)

section Writing

variable {P : State → Prop} {E : State → Prop} {record : Record}

theorem triple_store {Q : Unit → State → Prop} (h : ∀ s, P s → Q () (s.store record)) : Triple P (store record) Q E :=
  triple_modify h

theorem triple_trySave {Q : Except String Unit → State → Prop} (hDone : ∀ s, P s → Q (.ok ()) (s.persist record))
    (hLost : ∀ message s, P s → Q (.error message) s)
    (hLate : ∀ message s, P s → Q (.error message) (s.persist record))
    (hKilled : ∀ s, P s → E s ∧ E (s.persist record)) : Triple P (trySave record) Q E := by
  refine triple_bind (triple_ask (Q := fun _ => P) fun _ _ _ => id) fun write => ?_
  cases write with
  | done =>
    exact triple_bind (triple_modify hDone) fun _ => triple_pure fun _ => id
  | lost message => exact triple_pure (hLost message)
  | late message =>
    exact triple_bind (triple_modify (hLate message)) fun _ => triple_pure fun _ => id
  | killedBefore => exact triple_crash fun s hs => (hKilled s hs).1
  | killedAfter =>
    exact triple_bind (triple_modify fun s hs => (hKilled s hs).2) fun _ => triple_crash fun _ => id

def AfterSave (done failed : State → Prop) : Except String Unit → State → Prop
  | .ok () => done
  | .error _ => failed

theorem triple_save {Q : Unit → State → Prop} (hDone : ∀ s, P s → Q () (s.persist record))
    (hStop : ∀ s, P s → E s ∧ E (s.persist record)) : Triple P (save record) Q E := by
  refine triple_bind (Q := AfterSave (Q ()) E) (triple_trySave hDone ?_ ?_ hStop) fun result => ?_
  · exact fun _ s hs => (hStop s hs).1
  · exact fun _ s hs => (hStop s hs).2
  cases result with
  | ok u => exact triple_pure fun _ => id
  | error message => exact triple_fail fun _ => id

theorem triple_update {Q : Record → State → Prop} (hStore : ∀ s, P s → E (s.store record))
    (hDone : ∀ s, P s → Q record ((s.store record).persist record))
    (hStop : ∀ s, P s → E ((s.store record).persist record)) : Triple P (update record) Q E := by
  refine triple_bind (Q := fun _ t => ∃ s, P s ∧ t = s.store record)
    (triple_store fun s hs => ⟨s, hs, rfl⟩) fun _ => ?_
  refine triple_bind (triple_save ?_ ?_) fun _ => triple_pure fun _ => id
  · rintro _ ⟨s, hs, rfl⟩
    exact hDone s hs
  · rintro _ ⟨s, hs, rfl⟩
    exact ⟨hStore s hs, hStop s hs⟩

theorem triple_updateOr {back : Record} {Q : Record → State → Prop}
    (hDone : ∀ s, P s → Q record ((s.store record).persist record))
    (hKilled : ∀ s, P s → E (s.store record) ∧ E ((s.store record).persist record))
    (hBack : ∀ s, P s → E ((s.store record).store back) ∧ E (((s.store record).persist record).store back)) :
    Triple P (updateOr record back) Q E := by
  refine triple_bind (Q := fun _ t => ∃ s, P s ∧ t = s.store record)
    (triple_store fun s hs => ⟨s, hs, rfl⟩) fun _ => ?_
  refine triple_bind (Q := AfterSave (Q record) fun s => E (s.store back)) (triple_trySave ?_ ?_ ?_ ?_) fun result => ?_
  · rintro _ ⟨s, hs, rfl⟩
    exact hDone s hs
  · rintro _ _ ⟨s, hs, rfl⟩
    exact (hBack s hs).1
  · rintro _ _ ⟨s, hs, rfl⟩
    exact (hBack s hs).2
  · rintro _ ⟨s, hs, rfl⟩
    exact hKilled s hs
  cases result with
  | ok u => exact triple_pure fun _ => id
  | error message =>
    exact triple_bind (triple_store fun _ => id) fun _ => triple_fail fun _ => id

end Writing

/-- A condition that survives what an inspection does to the record under an id. The last field is the
observer's: it takes a change back when the file could not be written. -/
structure Stable (id : RecordID) (J : State → Prop) : Prop where
  store : ∀ {s old new}, J s → old ∈ s.memory → old.id = id → old.Tame new → J (s.store new)
  persist : ∀ {s record}, J s → record ∈ s.memory → record.id = id → record.superseded = false → J (s.persist record)
  undo : ∀ {s old new back}, J s → old ∈ s.memory → old.id = id → old.superseded = false → old.Tame new → old.Tame back →
    J ((s.store new).store back) ∧ J (((s.store new).persist new).store back)

def At (J : State → Prop) (record : Record) (s : State) : Prop := J s ∧ record ∈ s.memory

def Leaves (J : State → Prop) (record new : Record) (s : State) : Prop := record.Tame new ∧ At J new s

variable {J : State → Prop} {record old new : Record} {s : State} {job : Job} {name : ContainerName}

theorem At.leaves (h : At J record s) : Leaves J record record s := ⟨.refl record, h⟩

theorem Stable.at_store (hJ : Stable old.id J) (h : At J old s) (hTame : old.Tame new) : At J new (s.store new) :=
  ⟨hJ.store h.1 h.2 rfl hTame, State.store_mem h.2 hTame.id⟩

theorem Stable.at_persist (hJ : Stable record.id J) (h : At J record s) (hActive : record.superseded = false) :
    At J record (s.persist record) :=
  ⟨hJ.persist h.1 h.2 rfl hActive, h.2⟩

theorem Record.Tame.stable (hTame : old.Tame new) (hJ : Stable old.id J) : Stable new.id J := hTame.id ▸ hJ

theorem triple_update_tame (hJ : Stable old.id J) (hTame : old.Tame new) (hActive : old.superseded = false) :
    Triple (At J old) (update new) (fun written s => written = new ∧ At J new s) J := by
  have hWrote : ∀ s, At J old s → At J new ((s.store new).persist new) := fun s hs =>
    (hTame.stable hJ).at_persist (hJ.at_store hs hTame) (hTame.superseded.trans hActive)
  exact triple_update (fun s hs => (hJ.at_store hs hTame).1) (fun s hs => ⟨rfl, hWrote s hs⟩)
    fun s hs => (hWrote s hs).1

theorem tame_observed (hEvidence : record.job.isSome = true) (observed : Evidence) :
    record.Tame { record with observed := observed } :=
  .of_evidence rfl rfl rfl (by simp [Record.hasEvidence, hEvidence]) (fun _ => by simp [Record.hasEvidence, hEvidence])
    fun h => h

theorem triple_noteStopped {status : Status} (hJ : Stable record.id J) (hActive : record.superseded = false) :
    Triple (At J record) (noteStopped record job status)
      (fun noted s => (record.Tame noted ∧ noted.job = record.job) ∧ At J noted s) J := by
  refine triple_branch ?_ (triple_pure fun _ h => ⟨⟨.refl record, rfl⟩, h⟩)
  refine (triple_update_tame hJ (record.tame_stopped true) hActive).post ?_
  rintro _ s ⟨rfl, hAt⟩
  exact ⟨⟨record.tame_stopped true, rfl⟩, hAt⟩

theorem triple_noteObserved (status : Status) (hJ : Stable record.id J) (hActive : record.superseded = false)
    (hJob : record.job.isSome = true) :
    Triple (At J record) (noteObserved record status) (Leaves J record) J := by
  refine triple_branch ?_ (triple_pure fun _ h => h.leaves)
  refine (triple_update_tame hJ (tame_observed hJob _) hActive).post ?_
  rintro _ s ⟨rfl, hAt⟩
  exact ⟨tame_observed hJob _, hAt⟩

section

variable (hJ : Stable record.id J) (hActive : record.superseded = false)
include hJ hActive

theorem triple_inspectJob (hJob : record.job = some job) :
    Triple (At J record) (inspectJob record job) (fun result => Leaves J record result.2.2) J := by
  refine (readOnly_readStatus job).then (fun _ h => h.1) fun status => ?_
  refine triple_bind (triple_noteStopped hJ hActive) fun noted => triple_of_fact ?_
  rintro ⟨hTame, hSame⟩
  have hSeen := triple_noteObserved status (hTame.stable hJ) (hTame.superseded.trans hActive)
    (by simp [hSame, hJob])
  refine triple_bind hSeen fun seen => triple_of_fact fun hTame' => ?_
  refine Triple.post (R := fun result s => At J result.2.2 s ∧ result.2.2 = seen) ?_ ?_
  · refine triple_branch (triple_pure fun _ h => ⟨h, rfl⟩) ?_
    refine (readOnly_jobAlive seen).then (fun _ h => h.1) fun alive => ?_
    exact triple_branch (triple_pure fun _ h => ⟨h, rfl⟩) (triple_pure fun _ h => ⟨h, rfl⟩)
  · rintro ⟨_, _, _⟩ s ⟨hAt, rfl⟩
    exact ⟨hTame.trans hTame', hAt⟩

theorem triple_inspectStatus :
    Triple (At J record) (inspectStatus record) (fun result => Leaves J record result.2.2) J := by
  unfold inspectStatus
  cases hJob : record.job with
  | none => exact triple_pure fun _ h => h.leaves
  | some job => exact triple_inspectJob hJ hActive hJob

theorem triple_inspectManaged :
    Triple (At J record) (inspectManaged record) (fun result => Leaves J record result.2) J := by
  refine triple_bind (triple_inspectStatus hJ hActive) ?_
  rintro ⟨info, status, seen⟩
  have hStop : ∀ s, Leaves J record seen s → J s := fun _ h => h.2.1
  refine (readOnly_fold (readOnly_inspectRequired seen status) _ _).then hStop fun report => ?_
  refine (readOnly_fold (readOnly_inspectAuxiliary seen) _ _).then hStop fun info => ?_
  exact triple_branch (triple_pure fun _ => id) (triple_pure fun _ => id)

end

theorem tame_of_observer (hObserver : old.spec.observeOnly = true) (hId : new.id = old.id) (hSpec : new.spec = old.spec)
    (hOld : new.superseded = old.superseded) (hEvidence : new.hasEvidence = true → old.hasEvidence = true) :
    old.Tame new where
  id := hId
  spec := hSpec
  owns h := by
    simp only [Record.owns, Bool.and_eq_true] at h ⊢
    exact ⟨hOld ▸ h.1, hEvidence h.2⟩
  plain _ hOurs := by simp [hSpec, hObserver] at hOurs
  superseded := hOld
  evidence hOurs := by simp [hObserver] at hOurs

theorem Record.Tame.observeOnly (hTame : old.Tame new) (h : old.spec.observeOnly = true) : new.spec.observeOnly = true := by
  rw [hTame.spec, h]

theorem attachObserved_frame (entries : List (ContainerName × ContainerID)) : ∀ record : Record,
    ∃ observed attached, (attachObserved record entries).1 = { record with observed := observed, attached := attached } := by
  induction entries with
  | nil => exact fun record => ⟨record.observed, record.attached, rfl⟩
  | cons entry entries ih =>
    intro record
    rw [attachObserved]
    split
    · exact ih record
    · obtain ⟨observed, attached, hEq⟩ := ih (record.attach entry.1 entry.2)
      exact ⟨observed, attached, hEq⟩

def Observing (J : State → Prop) (record : Record) (o : Observation) (s : State) : Prop :=
  (record.Tame o.record ∧ (o.settled = true → o.record.armed = true)) ∧ At J o.record s

section Observer

variable {o : Observation}

theorem Observing.next {next : Observation} (h : Observing J record o s) (hSame : next.record = o.record)
    (hLess : next.settled = true → o.settled = true) : Observing J record next s := by
  refine ⟨⟨hSame ▸ h.1.1, fun hNext => ?_⟩, hSame ▸ h.2⟩
  rw [hSame]
  exact h.1.2 (hLess hNext)

variable (hRecord : o.record = record) (hSettled : o.settled = true → record.armed = true)
include hRecord hSettled

theorem At.observing (h : At J record s) : Observing J record o s := by
  subst hRecord
  exact ⟨⟨.refl o.record, hSettled⟩, h⟩

variable (hObserver : record.spec.observeOnly = true) (hJ : Stable record.id J)
include hObserver hJ

theorem triple_observeJob (hJob : record.job = some job) :
    Triple (At J record) (observeJob o job) (Observing J record) J := by
  subst hRecord
  refine (readOnly_readStatus job).then (fun _ h => h.1) fun status => ?_
  obtain ⟨observed, attached, hEq⟩ := attachObserved_frame status.observed o.record
  have hTame : o.record.Tame (attachObserved o.record status.observed).1 := by
    rw [hEq]
    exact tame_of_observer hObserver rfl rfl rfl fun _ => (by simp [Record.hasEvidence, hJob])
  have hArmed : (attachObserved o.record status.observed).1.armed = o.record.armed := by rw [hEq]
  refine triple_bind (Q := fun _ => At J (attachObserved o.record status.observed).1)
    (triple_store fun s hs => hJ.at_store hs hTame) fun _ => ?_
  -- every way on keeps the record, and settles only where the observation did
  have hGo : ∀ next : Observation, next.record = (attachObserved o.record status.observed).1 →
      (next.settled = true → o.settled = true) →
      Triple (At J (attachObserved o.record status.observed).1) (pure next : Action _) (Observing J o.record) J := by
    intro next hSame hLess
    rw [← hSame] at hTame hArmed ⊢
    exact triple_pure fun s hAt => ⟨⟨hTame, fun h => hArmed.trans (hSettled (hLess h))⟩, hAt⟩
  have hLess : (o.settled && status.done && status.error == "" && status.exitCode == 0 &&
      decide (status.phase = some .observing)) = true → o.settled = true := by
    simp only [Bool.and_eq_true]
    exact fun h => h.1.1.1.1
  refine triple_branch (hGo _ rfl hLess) (triple_branch (hGo _ rfl hLess) ?_)
  refine (readOnly_jobAlive _).then (fun _ h => h.1) fun alive => ?_
  exact triple_branch (hGo _ rfl hLess) (hGo _ rfl hLess)

theorem triple_observeWorker : Triple (At J record) (observeWorker o) (Observing J record) J := by
  unfold observeWorker
  cases hJob : o.record.job with
  | none => exact triple_pure fun _ h => h.observing hRecord hSettled
  | some job =>
    refine triple_branch (triple_observeJob hRecord hSettled hObserver hJ (hRecord ▸ hJob)) ?_
    refine triple_pure fun _ h => (h.observing hRecord hSettled).next rfl ?_
    exact nofun

theorem triple_observeAttach {required : Bool} {ci : ContainerInfo} :
    Triple (At J record) (observeAttach o required name ci) (Observing J record) J := by
  refine triple_ite (fun hAttach => ?_) fun _ => triple_pure fun _ h => h.observing hRecord hSettled
  subst hRecord
  simp only [Bool.and_eq_true] at hAttach
  have hTame : o.record.Tame (o.record.attach name ci.id) :=
    tame_of_observer hObserver rfl rfl rfl fun _ => by simp [Record.hasEvidence, hAttach.1.1.1]
  refine triple_bind (Q := fun _ => At J (o.record.attach name ci.id))
    (triple_store fun s hs => hJ.at_store hs hTame) fun _ => ?_
  exact triple_pure fun s h => ⟨⟨hTame, hSettled⟩, h⟩

theorem triple_observeFound {required : Bool} {ci : ContainerInfo} :
    Triple (At J record) (observeFound o required name ci) (Observing J record) J := by
  refine (readOnly_ownerOf name ci.id).then (fun _ h => h.1) fun owner => ?_
  refine triple_bind (triple_observeAttach (o := o.noteIdentity required _ ci) hRecord ?_ hObserver hJ) fun attached => ?_
  · simp only [Observation.noteIdentity, Bool.and_eq_true]
    exact fun h => hSettled h.1.1
  refine triple_branch (triple_pure fun _ h => h.next rfl id) ?_
  refine (readOnly_ownerOf name ci.id).then (fun _ h => h.2.1) fun owner => ?_
  refine triple_branch (triple_branch ?_ ?_) (triple_branch ?_ (triple_pure fun _ => id))
  all_goals exact triple_pure fun _ h => h.next rfl id

theorem triple_observeContainer : Triple (At J record) (observeContainer o name) (Observing J record) J := by
  refine (readOnly_inspectContainer name).then (fun _ h => h.1) fun reply => ?_
  have hStay : ∀ s, At J record s → Observing J record o s := fun _ h => h.observing hRecord hSettled
  cases reply with
  | failed message => exact triple_fail fun _ h => h.1
  | found ci => exact triple_observeFound hRecord hSettled hObserver hJ
  | missing =>
    refine triple_branch (triple_pure hStay) (triple_branch ?_ ?_)
    all_goals exact triple_pure fun s h => (hStay s h).next rfl id

end Observer

theorem triple_observeContainers (hObserver : record.spec.observeOnly = true) (hJ : Stable record.id J)
    (names : List ContainerName) (o : Observation) :
    Triple (Observing J record o) (fold observeContainer names o) (Observing J record) J := by
  refine triple_fold (I := fun _ => Observing J record) (fun seen name _ => triple_of_fact ?_) names o
  rintro ⟨hTame, hSettled⟩
  refine (triple_observeContainer rfl hSettled (hTame.observeOnly hObserver) (hTame.stable hJ)).post ?_
  exact fun next s h => ⟨⟨hTame.trans h.1.1, h.1.2⟩, h.2⟩

theorem triple_writeObservation {o : Observation} (hObserver : record.spec.observeOnly = true)
    (hActive : record.superseded = false) (hJ : Stable record.id J) :
    Triple (Observing J record o) (writeObservation o) (Leaves J record) J := by
  refine triple_of_fact ?_
  rintro ⟨hTame, hSettled⟩
  have hStable := hTame.stable hJ
  have hObserver := hTame.observeOnly hObserver
  have hActive := hTame.superseded.trans hActive
  refine triple_ite (fun _ => ?_) fun hSame => ?_
  · have hEnd : o.record.Tame (if o.settled then { o.record with armed := false, stopped := true } else o.record) := by
      split
      · refine tame_of_observer hObserver rfl rfl rfl fun h => ?_
        simp only [Record.hasEvidence, Bool.or_false] at h
        simp [Record.hasEvidence, h]
      · exact .refl _
    generalize hNew : (if o.settled then { o.record with armed := false, stopped := true } else o.record) = new at hEnd
    have hBack : o.record.Tame (if o.settled then { new with armed := true, stopped := false } else new) := by
      split
      next hOpen =>
        refine tame_of_observer hObserver hEnd.id hEnd.spec hEnd.superseded fun _ => ?_
        simp [Record.hasEvidence, hSettled hOpen]
      · exact hEnd
    have hWrote : ∀ s, At J o.record s → At J new ((s.store new).persist new) := fun s hs =>
      (hEnd.stable hStable).at_persist (hStable.at_store hs hEnd) (hEnd.superseded.trans hActive)
    refine triple_updateOr ?_ ?_ ?_
    · exact fun s hs => ⟨hTame.trans hEnd, hWrote s hs⟩
    · exact fun s hs => ⟨(hStable.at_store hs hEnd).1, (hWrote s hs).1⟩
    · exact fun s hs => hStable.undo hs.1 hs.2 rfl hActive hEnd hBack
  refine triple_pure fun s h => ?_
  simp only [Bool.or_eq_true, not_or, Bool.not_eq_true] at hSame
  rw [hSame.2]
  exact ⟨hTame, h⟩

theorem triple_workerEnded (record : Record) :
    Triple (At J record) (workerEnded record) (fun ended s => (ended = true → record.armed = true) ∧ At J record s) J := by
  refine triple_ite (fun hArmed => ?_) fun _ => triple_pure fun _ h => ⟨nofun, h⟩
  simp only [Bool.and_eq_true] at hArmed
  refine (readOnly_jobAlive record).then (fun _ h => h.1) fun alive => ?_
  refine triple_branch ?_ ?_
  all_goals exact triple_pure fun _ h => ⟨fun _ => hArmed.1, h⟩

theorem triple_inspectObserver (hObserver : record.spec.observeOnly = true) (hActive : record.superseded = false)
    (hJ : Stable record.id J) :
    Triple (At J record) (inspectObserver record) (fun result => Leaves J record result.2) J := by
  refine triple_bind (triple_workerEnded record) fun ended => triple_of_fact fun hEnded => ?_
  refine triple_bind (triple_observeWorker rfl hEnded hObserver hJ) fun seen => ?_
  refine triple_bind ((triple_observeContainers hObserver hJ _ _).pre fun s h => h.next rfl ?_) fun last => ?_
  · simp only [Bool.and_eq_true]
    exact fun h => h.1
  · refine triple_bind (triple_writeObservation hObserver hActive hJ) fun written => ?_
    exact triple_pure fun _ => id

theorem triple_inspect (hJ : Stable record.id J) :
    Triple (At J record) (inspect record) (fun result => Leaves J record result.2) J := by
  refine triple_ite (fun _ => triple_pure fun _ h => h.leaves) fun hActive => ?_
  rw [Bool.not_eq_true] at hActive
  refine triple_ite (fun hObserver => ?_) fun _ => triple_inspectManaged hJ hActive
  exact triple_inspectObserver hObserver hActive hJ

end LocalModelWorks.Upstream
