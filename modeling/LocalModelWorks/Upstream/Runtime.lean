import LocalModelWorks.Transition
import LocalModelWorks.Upstream.Record

/-!
# The calls of the upstream runtime

Every method of `upstreamRuntime` that changes records, as a program over the two copies
of them. An environment gives what comes from outside: the engine's answers, the workers'
processes and status files, the outcome of every write, the order of a map iteration, and
the failures of other files and processes. A record is handled as a value; `store` is the
assignment through its pointer and `save` writes `record.json`.
-/

namespace LocalModelWorks.Upstream

inductive Reply
  | missing
  | failed (message : String)
  | found (info : ContainerInfo)
  deriving DecidableEq

inductive StatusFile
  | missing
  | unreadable (message : String)
  | read (status : Status)
  deriving DecidableEq

/-- How `writeUpstreamJSON` ends: it can fail before the rename and after it (the directory is synced
last), and the agent can be killed on either side of the rename. -/
inductive Write
  | done
  | lost (message : String)
  | late (message : String)
  | killedBefore
  | killedAfter
  deriving DecidableEq

/-- What the outside answers to the `n`-th question of a call. -/
structure Env where
  write : Nat → Write
  engine : Nat → ContainerName → Reply
  process : Nat → Job → Bool
  status : Nat → Job → StatusFile
  order : Nat → List Record → List Record
  order_perm : ∀ n records, (order n records).Perm records
  fault : Nat → Option String
  exists? : Nat → Bool
  worker : Nat → String × Nat
  ticks : Nat → Nat

abbrev Action := Program Env String State

open Program

def RunState.text : RunState → String
  | .created => "created"
  | .running => "running"
  | .paused => "paused"
  | .restarting => "restarting"
  | .removing => "removing"
  | .exited => "exited"
  | .dead => "dead"
  | .starting => "starting"
  | .installing => "installing"
  | .stopping => "stopping"
  | .observing => "observing"
  | .started => "started"

variable (name : ContainerName)

def inspectContainer : Action Reply := ask fun env n => env.engine n name

def attempt : Action Unit := do
  match ← ask fun env n => env.fault n with
  | none => pure ()
  | some message => fail message

variable (message : String)

def expire : Action Unit := do
  attempt
  fail message

def rangeRecords : Action (List Record) := do
  let s ← state
  ask fun env n => env.order n s.memory

variable (id : ContainerID)

def ownerOf : Action (Option RecordID) := do
  let s ← state
  pure (currentOwner s.memory name id)

variable (record : Record)

def jobAlive : Action Bool :=
  match record.job with
  | none => pure false
  | some job => ask fun env n => env.process n job

variable (job : Job)

def readStatus : Action Status := do
  match ← ask fun env n => env.status n job with
  | .missing => pure {}
  | .unreadable message => fail message
  | .read status => pure status

def store : Action Unit := modify (·.store record)

def trySave : Action (Except String Unit) := do
  match ← ask fun env n => env.write n with
  | .done => do
    modify (·.persist record)
    pure (.ok ())
  | .lost message => pure (.error message)
  | .late message => do
    modify (·.persist record)
    pure (.error message)
  | .killedBefore => crash
  | .killedAfter => do
    modify (·.persist record)
    crash

def save : Action Unit := do
  match ← trySave record with
  | .ok () => pure ()
  | .error message => fail message

def update : Action Record := do
  store record
  save record
  pure record

def updateOr (record back : Record) : Action Record := do
  store record
  match ← trySave record with
  | .ok () => pure record
  | .error message => do
    store back
    fail message

def joined : Except String Unit → String
  | .ok () => message
  | .error other => message ++ "\n" ++ other

def requireExecution : Action Unit := do
  if (← state).allowExecution then pure ()
  else fail ("upstream.execution_disabled: node administrator must enable upstream execution; " ++
    "retained installations remain observable")

/-- `upstreamName`: a letter or digit, then letters, digits, `_`, `.` and `-`. -/
def validName (name : String) : Bool :=
  match name.toList with
  | [] => false
  | first :: rest =>
    first.isAlphanum && rest.all fun c => c.isAlphanum || c = '_' || c = '.' || c = '-'

def checkNames : List ContainerName → List ContainerName → Option String
  | _, [] => none
  | seen, name :: names =>
    if !validName name || seen.contains name then some ("upstream.container_name_invalid: \"" ++ name ++ "\"")
    else checkNames (name :: seen) names

/-- The checks of `validateUpstream` on the names. Its other checks read fields that no call here reads. -/
def validateUpstream (spec : ContainerSpec) : Action Unit := do
  attempt
  if !validName spec.name then fail "upstream.logical_name_invalid"
  else if spec.containers.isEmpty then fail "upstream.observed_containers_required"
  else match checkNames [] (upstreamContainerNames spec) with
    | some message => fail message
    | none =>
      if (upstreamContainerNames spec).contains spec.name then
        fail "upstream.logical_name_conflicts_authored_container"
      else attempt

variable (key : String)

/-- `r.record`: by id, or by the logical name; removed records are not found. -/
def findRecord : Action (Option Record) := do
  let records ← rangeRecords
  match Table.lookup Record.id records key with
  | some record => if record.removed then pure (byName records) else pure (some record)
  | none => pure (byName records)
where
  byName (records : List Record) : Option Record :=
    records.find? fun record => !record.removed && record.spec.name == key

def importObserved (observed : Evidence) : List (ContainerName × ContainerID) → Evidence × Bool
  | [] => (observed, false)
  | (name, id) :: entries =>
    if observed.get name = id then importObserved observed entries
    else ((importObserved (observed.put name id) entries).1, true)

variable (status : Status)

def noteStopped : Action Record :=
  if status.done && status.error == "" && job.operation = .stop && !record.stopped then
    update { record with stopped := true }
  else pure record

def noteObserved : Action Record :=
  let imported := importObserved record.observed status.observed
  if imported.2 then update { record with observed := imported.1 } else pure record

def inspectJob : Action (ContainerInfo × Status × Record) := do
  let status ← readStatus job
  let record ← noteStopped record job status
  let record ← noteObserved record status
  let info : ContainerInfo :=
    { state := status.phase.getD .starting, exitCode := status.exitCode, error := status.error }
  if status.done then pure (info, status, record)
  else if ← jobAlive record then pure (info, status, record)
  else pure ({ info with state := .dead, error := "upstream.supervisor_lost: lifecycle outcome unknown" }, status, record)

def inspectStatus : Action (ContainerInfo × Status × Record) :=
  match record.job with
  | none => pure ({ state := .created }, {}, record)
  | some job => inspectJob record job

def identityChanged : String := "upstream.container_identity_changed: " ++ name

def inspectRequired (report : ContainerInfo × Bool) (name : ContainerName) : Action (ContainerInfo × Bool) := do
  let (info, allRunning) := report
  match ← inspectContainer name with
  | .missing => pure (info, false)
  | .failed message => fail message
  | .found ci =>
    if (← ownerOf name ci.id) ≠ some record.id then
      if record.job.isSome && !record.stopped then
        if ← jobAlive record then pure (info, false)
        else pure ({ info with state := .dead, error := identityChanged name }, false)
      else pure (info, false)
    else
      let info := if ci.state ≠ .running && status.done && !record.stopped && status.error == "" then
        { info with state := ci.state, exitCode := ci.exitCode } else info
      let info := if ci.error ≠ "" then { info with error := ci.error } else info
      pure (info, allRunning && ci.state = .running)

def inspectAuxiliary (info : ContainerInfo) (name : ContainerName) : Action ContainerInfo := do
  match ← inspectContainer name with
  | .missing => pure info
  | .failed message => fail message
  | .found ci =>
    if (← ownerOf name ci.id) ≠ some record.id && record.job.isSome && !record.stopped then
      if ← jobAlive record then pure info else pure { info with error := identityChanged name }
    else pure info

def Record.runsStart : Bool :=
  record.stopped || match record.job with
    | none => true
    | some job => job.operation = .start

def inspectManaged : Action (ContainerInfo × Record) := do
  let (info, status, record) ← inspectStatus record
  let info := if record.stopped then { info with state := .exited } else info
  let (info, allRunning) ← fold (inspectRequired record status) record.spec.containers (info, true)
  let info ← fold (inspectAuxiliary record) record.spec.auxiliaryContainers info
  let info := if info.error == "" && allRunning && record.runsStart then { info with state := .running } else info
  let info := if info.error ≠ "" then { info with state := .dead } else info
  if status.done && status.phase = some .started && !allRunning && info.state = .started then
    pure ({ info with state := .exited, error := "upstream.containers_not_running" }, record)
  else pure (info, record)

structure Observation where
  record : Record
  info : ContainerInfo
  running : Bool
  changed : Bool
  settled : Bool
  primarySettled : Bool
  setupPending : Bool := false
  setupPhase : RunState := .installing
  deriving DecidableEq

def Record.attach (name : ContainerName) (id : ContainerID) : Record :=
  { record with observed := record.observed.put name id, attached := name :: record.attached.filter (· ≠ name) }

def attachObserved (record : Record) : List (ContainerName × ContainerID) → Record × Bool
  | [] => (record, false)
  | (name, id) :: entries =>
    if record.observed.get name = id && record.attached.contains name then attachObserved record entries
    else ((attachObserved (record.attach name id) entries).1, true)

variable (o : Observation)

def observeJob (job : Job) : Action Observation := do
  let status ← readStatus job
  let imported := attachObserved o.record status.observed
  store imported.1
  let o := { o with
    record := imported.1
    changed := imported.2
    settled := o.settled && status.done && status.error == "" && status.exitCode == 0 &&
      status.phase = some .observing }
  if o.record.stopped then pure o
  else
    let o := { o with
      info := { o.info with error := status.error, exitCode := status.exitCode }
      setupPending := !status.done
      setupPhase := status.phase.getD .installing }
    if status.done then pure o
    else if ← jobAlive o.record then pure o
    else pure { o with info := { o.info with
      error := "upstream.supervisor_lost: observer installation outcome unknown" } }

variable (required : Bool)

def observeAttach (name : ContainerName) (ci : ContainerInfo) : Action Observation :=
  if o.record.armed && !o.record.attached.contains name && (required || !o.primarySettled) &&
      (ci.id ≠ o.record.before.get name || ci.state = .running) then do
    let record := o.record.attach name ci.id
    store record
    pure { o with record := record, changed := true }
  else pure o

/-- Neither an active nor a foreign container proves that the observation cycle has ended. -/
def Observation.noteIdentity (required mine : Bool) (ci : ContainerInfo) : Observation :=
  { o with
    primarySettled := o.primarySettled && !(required && !stoppedUpstreamContainer ci.state && mine)
    settled := o.settled && stoppedUpstreamContainer ci.state && mine }

variable (ci : ContainerInfo)

def Observation.noteRequired : Observation :=
  { o with
    running := o.running && ci.state = .running
    info := { o.info with
      state := if ci.state = .running then o.info.state else ci.state
      exitCode := if ci.state = .running then o.info.exitCode else ci.exitCode
      error := if ci.error = "" then o.info.error else ci.error } }

def observeFound (name : ContainerName) (ci : ContainerInfo) : Action Observation := do
  let owner ← ownerOf name ci.id
  let o ← observeAttach (o.noteIdentity required (owner = some o.record.id) ci) required name ci
  if !o.record.attached.contains name then pure { o with running := o.running && !required }
  else if (← ownerOf name ci.id) ≠ some o.record.id then
    if o.record.stopped then pure { o with running := false }
    else pure { o with running := false, info := { o.info with error := identityChanged name } }
  else if required then pure (o.noteRequired ci)
  else pure o

def observeContainer (name : ContainerName) : Action Observation := do
  let required := o.record.spec.containers.contains name
  match ← inspectContainer name with
  | .failed message => fail message
  | .found ci => observeFound o required name ci
  | .missing =>
    if !required then pure o
    else if o.record.attached.contains name && !o.record.stopped then
      pure { o with running := false, info := { o.info with
        state := .exited, error := "upstream.observed_container_missing: " ++ name } }
    else pure { o with running := false }

def writeObservation : Action Record := do
  let record := if o.settled then { o.record with armed := false, stopped := true } else o.record
  if o.changed || o.settled then
    updateOr record (if o.settled then { record with armed := true, stopped := false } else record)
  else pure record

variable (stopped : Bool)

def Observation.report : ContainerInfo :=
  let info := if stopped then { o.info with state := .exited, error := "" } else o.info
  let info := if o.running && info.error == "" then { info with state := .running } else info
  let info := if o.setupPending && !stopped then { info with state := o.setupPhase } else info
  if info.error ≠ "" then { info with state := .dead } else info

def workerEnded : Action Bool :=
  if record.armed && !record.stopped then do
    if ← jobAlive record then pure false else pure true
  else pure false

def observeWorker : Action Observation :=
  match o.record.job with
  | none => pure o
  | some job => if job.operation = .observe then observeJob o job else pure { o with settled := false }

def inspectObserver : Action (ContainerInfo × Record) := do
  let ended ← workerEnded record
  let o ← observeWorker {
    record := record
    info := { state := if record.stopped then .exited else if record.armed then .observing else .created }
    running := record.armed
    changed := false
    settled := ended
    primarySettled := false }
  let settled := o.settled && o.record.spec.containers.all fun name =>
    o.record.attached.contains name && o.record.observed.get name ≠ ""
  let o ← fold observeContainer (upstreamContainerNames record.spec)
    { o with settled := settled, primarySettled := settled }
  let written ← writeObservation o
  pure (o.report written.stopped, written)

def inspect : Action (ContainerInfo × Record) :=
  if record.superseded then pure ({ state := .exited }, record)
  else if record.spec.observeOnly then inspectObserver record
  else inspectManaged record

variable (other : Record)

def revoke : Action Unit :=
  if other.id = record.id || other.superseded || !upstreamNamesOverlap record other then pure ()
  else do
    let other := { other with superseded := true, armed := false }
    store other
    save other

variable (before : Evidence)

def acquire : Action Record := do
  let others ← rangeRecords
  fold (fun _ other => revoke record other) others ()
  let record := { record with superseded := false, job := none, observed := before }
  store record
  match ← trySave record with
  | .ok () => pure record
  | .error message => do
    let record := { record with superseded := true }
    store record
    fail (joined message (← trySave record))

def foreignContainer : String :=
  "upstream.foreign_container: " ++ name ++ " (" ++ id ++ ")"

def reusable : Action Bool := do
  match ← ownerOf name ci.id with
  | none => pure false
  | some owner =>
    match Table.lookup Record.id (← state).memory owner with
    | none => pure false
    | some other => if ← jobAlive other then pure false else pure !other.armed

variable (starting : Bool)

def preflightName (before : Evidence) (name : ContainerName) : Action Evidence := do
  match ← inspectContainer name with
  | .missing => pure before
  | .failed message => fail message
  | .found ci =>
    let stopped := stoppedUpstreamContainer ci.state
    if (← ownerOf name ci.id) = some record.id then
      if starting && record.spec.observeOnly && !stopped then fail (foreignContainer name ci.id)
      else pure (before.put name ci.id)
    else if starting && stopped then
      if ← reusable name ci then pure (before.put name ci.id) else fail (foreignContainer name ci.id)
    else fail (foreignContainer name ci.id)

def checkStopped (report : ContainerName → ContainerInfo → String) (name : ContainerName) : Action Unit := do
  match ← inspectContainer name with
  | .missing => pure ()
  | .failed message => fail message
  | .found ci => if stoppedUpstreamContainer ci.state then pure () else fail (report name ci)

def checkSettled : Action Unit :=
  match other.job with
  | none => pure ()
  | some job => do
    if (← readStatus job).done then pure () else fail ("upstream.lifecycle_unsettled: " ++ other.id)

def containerReserved (_ : ContainerInfo) : String := "upstream.container_reserved: " ++ name

def preflightOther (record other : Record) : Action Unit :=
  if other.superseded || !upstreamNamesOverlap record other then pure ()
  else do
    checkSettled other
    if other.id = record.id then pure ()
    else if (← jobAlive other) || other.armed then fail ("upstream.container_reserved: " ++ other.id)
    else fold (fun _ name => checkStopped containerReserved name) (upstreamContainerNames other.spec) ()

def preflightOthers : Action Unit := do
  let others ← rangeRecords
  fold (fun _ other => preflightOther record other) others ()

def preflight : Action Evidence := do
  let before ← fold (preflightName record starting) (upstreamContainerNames record.spec) []
  if starting then do
    preflightOthers record
    pure before
  else pure before

/-- Start a worker and record it. A worker that cannot be recorded or released is ended, and the record gets
its previous job back. -/
def launch (operation : Operation) : Action (Except String Record) := do
  if !(← state).allowExecution then
    pure (.error ("upstream.execution_disabled: node administrator must enable upstream execution; " ++
      "retained installations remain observable"))
  else
    match ← ask fun env n => env.fault n with
    | some message => pure (.error message)
    | none =>
      let worker ← ask fun env n => env.worker n
      let started := { record with job := some ⟨worker.1, operation, worker.2⟩, stopped := false }
      store started
      match ← trySave started with
      | .error message => undo message
      | .ok () =>
        match ← ask fun env n => env.fault n with
        | some message => undo message
        | none => pure (.ok started)
where
  undo (message : String) : Action (Except String Record) := do
    store record
    pure (.error (joined message (← trySave record)))

def needsSetup : Action Bool :=
  if !record.spec.install.isEmpty || !record.spec.configuration.isEmpty then pure true
  else do
    attempt
    ask fun env n => env.exists? n

def arm (armed : Record) (setup : Bool) : Action (Except String Record) :=
  if setup then launch armed .observe
  else do
    match ← trySave armed with
    | .ok () => pure (.ok armed)
    | .error message => pure (.error message)

def startObserver : Action Unit := do
  let setup ← needsSetup record
  attempt
  let record ← acquire record before
  let armed := { record with before := before, armed := true, stopped := false, attached := [] }
  store armed
  match ← arm armed setup with
  | .ok _ => pure ()
  | .error message => do
    store record
    fail (joined message (← trySave record))

def startManaged : Action Unit := do
  let record ← acquire record before
  match ← launch record .start with
  | .ok _ => pure ()
  | .error message => fail message

def reconcile : Action Unit :=
  if other.id ≠ record.id && upstreamNamesOverlap record other then do
    let _ ← inspect other
    pure ()
  else pure ()

def startRecord : Action Unit := do
  validateUpstream record.spec
  let (info, record) ← inspect record
  if (← jobAlive record) || info.state = .running then pure ()
  else if record.armed then
    if info.error ≠ "" then fail info.error else pure ()
  else
    requireExecution
    let others ← rangeRecords
    fold (fun _ other => reconcile record other) others ()
    let before ← preflight record true
    if record.spec.observeOnly then startObserver record before else startManaged record before

def start : Action Unit := do
  match ← findRecord key with
  | none => attempt
  | some record => startRecord record

/-- `cancel` waits for the worker and then kills it; only the process is touched. -/
def cancel : Action Unit := do
  if ← jobAlive record then attempt else pure ()

def stopObserverName (name : ContainerName) : Action Bool := do
  match ← inspectContainer name with
  | .missing => pure stopped
  | .failed message => fail message
  | .found ci =>
    if (← ownerOf name ci.id) ≠ some record.id then
      if ci.id = record.before.get name && stoppedUpstreamContainer ci.state then pure stopped
      else fail ("upstream.foreign_container: " ++ name)
    else pure (stopped && stoppedUpstreamContainer ci.state)

def stopObserverRound : Action (Option Record) := do
  let (_, record) ← inspectObserver record
  if ← fold (stopObserverName record) (upstreamContainerNames record.spec) true then do
    let _ ← update { record with armed := false, stopped := true }
    pure none
  else pure (some record)

def waitFor (round : Record → Action (Option Record)) (late : String) : Nat → Record → Action Unit
  | 0, record => do
    match ← round record with
    | none => pure ()
    | some _ => expire late
  | patience + 1, record => do
    match ← round record with
    | none => pure ()
    | some record => waitFor round late patience record

def stopObserver : Action Unit :=
  if record.superseded then pure ()
  else do
    cancel record
    let patience ← ask fun env n => env.ticks n
    waitFor stopObserverRound "upstream.coordinator_stop_incomplete: observed containers remain active" patience record

def stopIncomplete : String :=
  "upstream.stop_incomplete: " ++ name ++ " remains " ++ ci.state.text

def stopRound : Action (Option Record) := do
  let (info, record) ← inspect record
  if ← jobAlive record then pure (some record)
  else if info.error ≠ "" then fail info.error
  else do
    fold (fun _ name => checkStopped stopIncomplete name) (upstreamContainerNames record.spec) ()
    let _ ← update { record with stopped := true }
    pure none

def stopManaged : Action Unit := do
  cancel record
  let (_, record) ← inspect record
  let before ← preflight record false
  attempt
  if ← ask fun env n => env.exists? n then
    match ← launch record .stop with
    | .error message => fail message
    | .ok record => do
      let patience ← ask fun env n => env.ticks n
      waitFor stopRound "upstream.stop_timeout" patience record
  else if before.isEmpty then do
    let _ ← update { record with stopped := true }
    pure ()
  else fail "upstream.source_missing"

def stopRecord : Action Unit := do
  requireExecution
  if record.untouched then
    let _ ← updateOr { record with stopped := true } record
    pure ()
  else
    let (_, record) ← inspect record
    if record.superseded then pure ()
    else if record.spec.observeOnly then stopObserver record
    else stopManaged record

def stop : Action Unit := do
  match ← findRecord key with
  | none => attempt
  | some record => stopRecord record

def removeActive : Action Bool := do
  match ← findRecord key with
  | none => do
    attempt
    pure false
  | some record => do
    let (info, record) ← inspect record
    let alive ← jobAlive record
    fold (activeName record) (upstreamContainerNames record.spec)
      (alive || record.armed || info.state = .running || info.state = .paused)
where
  activeName (record : Record) (active : Bool) (name : ContainerName) : Action Bool := do
    match ← inspectContainer name with
    | .missing => pure active
    | .failed message => fail message
    | .found ci =>
      pure (active || ((← ownerOf name ci.id) = some record.id && !stoppedUpstreamContainer ci.state))

def removeName (name : ContainerName) : Action Unit := do
  match ← inspectContainer name with
  | .missing => pure ()
  | .failed message => fail message
  | .found ci =>
    match ← ownerOf name ci.id with
    | none => fail ("upstream.remove_ownership_changed: " ++ name)
    | some owner =>
      if owner ≠ record.id then pure ()
      else if !stoppedUpstreamContainer ci.state then fail ("upstream.remove_container_active: " ++ name)
      else if record.spec.observeOnly then pure ()
      else attempt

def removeRecord : Action Unit := do
  match ← findRecord key with
  | none => fail "upstream.installation_missing"
  | some record =>
    if (← jobAlive record) || record.armed then fail "upstream.installation_active"
    else if record.superseded then do
      let _ ← update { record with removed := true }
      pure ()
    else do
      fold (fun _ name => removeName record name) (upstreamContainerNames record.spec) ()
      let _ ← update { record with removed := true, armed := false }
      pure ()

/-- The record is staged in a directory of its own, which is renamed into place. -/
def create (id : RecordID) (spec : ContainerSpec) : Action Unit := do
  requireExecution
  validateUpstream spec
  match ← findRecord spec.name with
  | some _ => fail ("upstream.logical_name_conflict: " ++ spec.name)
  | none =>
    match ← inspectContainer spec.name with
    | .found _ => fail ("upstream.logical_name_conflict: " ++ spec.name)
    | .failed message => fail message
    | .missing => do
      attempt
      let record : Record := { id := id, spec := spec }
      match ← ask fun env n => env.write n with
      | .done =>
        modify fun s => { s with memory := record :: s.memory, disk := record :: s.disk }
      | .lost message => fail message
      | .late message => fail message
      | .killedBefore => crash
      | .killedAfter => do
        modify fun s => { s with disk := record :: s.disk }
        crash

def loadRecord : Action Record := do
  validateUpstream record.spec
  match record.job with
  | none => pure record
  | some job =>
    if record.superseded then pure record
    else do
      let status ← readStatus job
      pure { record with observed := status.observed.foldl (fun observed entry => observed.put entry.1 entry.2) record.observed }

def loadRecords : List Record → Action (List Record)
  | [] => pure []
  | record :: rest => do
    let loaded ← loadRecord record
    let others ← loadRecords rest
    pure (loaded :: others)

def withUpstream (allowExecution : Bool) : Action Unit := do
  let s ← state
  let records ← loadRecords s.disk
  modify fun s => { s with alive := true, allowExecution := allowExecution, memory := records }

def inspectCall : Action Unit := do
  match ← findRecord key with
  | none => attempt
  | some record => do
    let _ ← inspect record
    pure ()

/-- `Remove` holds the mutex in two parts with a `Stop` between them, so each part is a call here and other
calls can come between. -/
inductive Call
  | create (id : RecordID) (spec : ContainerSpec)
  | start (key : String)
  | stop (key : String)
  | removeActive (key : String)
  | removeRecord (key : String)
  | inspect (key : String)
  deriving DecidableEq

def Call.action : Call → Action Unit
  | .create id spec => Upstream.create id spec
  | .start key => Upstream.start key
  | .stop key => Upstream.stop key
  | .removeActive key => do
    let _ ← Upstream.removeActive key
    pure ()
  | .removeRecord key => Upstream.removeRecord key
  | .inspect key => inspectCall key

inductive Event
  | call (env : Env) (call : Call)
  | kill
  | restart (env : Env) (allowExecution : Bool)

def settle : Outcome String State Unit → State
  | ⟨.value _, _, s⟩ => s
  | ⟨.failed _, _, s⟩ => s
  | ⟨.crashed, _, s⟩ => s.die

/-- Ids are random, so a created record gets one that no record has. -/
def State.fresh (s : State) (id : RecordID) : Prop := id ∉ s.memory.map Record.id ∧ id ∉ s.disk.map Record.id

def Call.possible (s : State) : Call → Prop
  | .create id _ => s.fresh id
  | _ => True

instance (s : State) (id : RecordID) : Decidable (s.fresh id) :=
  inferInstanceAs (Decidable (id ∉ s.memory.map Record.id ∧ id ∉ s.disk.map Record.id))

instance (s : State) : ∀ c : Call, Decidable (c.possible s)
  | .create id _ => inferInstanceAs (Decidable (s.fresh id))
  | .start _ | .stop _ | .removeActive _ | .removeRecord _ | .inspect _ => inferInstanceAs (Decidable True)

def system : Transition.System State Event where
  init s := s = ⟨false, false, [], []⟩
  enabled s
    | .call _ c => s.alive = true ∧ c.possible s
    | .kill => s.alive = true
    | .restart _ _ => s.alive = false
  next s
    | .call env c => settle (c.action env 0 s)
    | .kill => s.die
    | .restart env allowExecution => settle (withUpstream allowExecution env 0 s)

instance (s : State) (e : Event) : Decidable (system.enabled s e) :=
  match e with
  | .call _ c => inferInstanceAs (Decidable (s.alive = true ∧ c.possible s))
  | .kill => inferInstanceAs (Decidable (s.alive = true))
  | .restart _ _ => inferInstanceAs (Decidable (s.alive = false))

end LocalModelWorks.Upstream
