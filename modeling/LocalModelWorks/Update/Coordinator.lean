import LocalModelWorks.Deploy.State
import LocalModelWorks.Plan.Update
import LocalModelWorks.Program

/-!
# The coordinator of a recipe update

`coordinateRepositoryUpdate` and what it calls: it acquires or installs what the
replacements need, then stops one source deployment after the other and puts its
replacement in its place; on an error or a cancellation it rolls back. A restarted
controller resumes the run from the progress that was saved.

`rows` holds what the coordinator last read or wrote of each deployment; whatever others do
to a deployment shows in the row that is read next. Every call is a question to the world,
which answers as it likes: reads and statements may fail, an operator may cancel the run,
and the controller may be stopped.
-/

namespace LocalModelWorks.Update

open Recipe (Text)
open Plan (DeploymentPlan Placement)
open Program (ask state modify fail crash attempt fold)
open Deploy (Desired Observed)

inductive Phase
  | installingRecipe | fetching | validating | stoppingOld | preparing | pulling | starting | verifying
  | waitingOffline | ready | rollingBack | restoringOld | restored | rollbackFailed
  deriving DecidableEq

inductive Status
  | pending | waiting | running | succeeded | failed
  deriving DecidableEq

structure Target where
  source : Text
  replacement : Option Text
  nodeID : Text
  rank : Int
  status : Status
  phase : Phase
  currentStep : Nat
  errorCode : String
  errorMessage : Text
  deriving DecidableEq

structure Device where
  nodeID : Text
  nodeName : Text
  status : Status
  phase : Phase
  currentStep : Nat
  errorCode : String
  errorMessage : Text
  deriving DecidableEq

structure Progress where
  phase : Phase
  installedDevices : List Device
  hardware : List Target
  deriving DecidableEq

structure Deployment where
  source : Text
  sourceWasStopped : Bool
  fabric : Text
  plan : DeploymentPlan

/-- What `createReplacement` stores. Planning refuses a selection that names a deployment twice, and every rank of a
selected deployment becomes a target. -/
structure Input where
  targetDigest : Text
  installedDevices : List (Text × Text)
  targets : List Target
  deployments : List Deployment
  savedVersionReplacement : Bool
  packageInstallOnly : Bool
  installationSpecs : Option (List Text)
  fresh : ∀ t ∈ targets, t.replacement = none
  covered : ∀ d ∈ deployments, ∃ t ∈ targets, t.source = d.source
  distinct : (deployments.map Deployment.source).Nodup

def repositoryUpdateDeviceProgressFrom (devices : List (Text × Text)) : List Device :=
  devices.map fun device => ⟨device.1, device.2, .pending, .fetching, 0, "", []⟩

variable (input : Input)

def initialProgress : Progress :=
  ⟨.installingRecipe, repositoryUpdateDeviceProgressFrom input.installedDevices, input.targets⟩

structure Row where
  desired : Desired
  observed : Observed
  runID : Option Text
  dispatch : Int → Deploy.Phase

inductive Controller
  | working | resting | stopped
  deriving DecidableEq

/-- `saved` is the progress in the ledger, `progress` the one in memory. `created` lists the replacements that the run
created. -/
structure State where
  rows : Text → Option Row
  created : List Text
  run : Runs.State
  errorCode : String
  errorMessage : Text
  saved : Option Progress
  progress : Progress
  controller : Controller

/-- Errors, as far as they are told apart. -/
inductive Failure
  | cancelled
  | state (message : Text)
  | other (message : Text)
  deriving DecidableEq

def Failure.text : Failure → Text
  | .cancelled => "repository update cancelled".toList
  | .state message => "invalid state for operation: ".toList ++ message
  | .other message => message

inductive Lookup
  | found (id : Text) (row : Row)
  | noRows
  | failed (message : Text)

inductive Commit
  | refused (message : Text)
  | done
  | unread (message : Text)

inductive Creation
  | refused (message : Text)
  | created (id : Text)
  | unread (id message : Text)

/-- The world's answers to the next question, whichever it is. -/
structure World where
  stops : State → Bool
  cancel : Bool
  succeeds : Bool
  message : Text
  deployment : Text → Except Text Row
  existing : Deployment → Lookup
  plan : Deployment → Except Text DeploymentPlan
  creation : Creation
  commit : Commit
  serveRun : Text → Option (Runs.State × Text)
  online : Text → Bool
  validPlacement : Text → Bool
  fetched : Option Failure
  serveID : Text
  shutdown : Bool
  polls : Nat

abbrev Prog := Program (Nat → World) Failure State

variable {α : Type}

def stopController : Prog α := do
  modify fun s => { s with controller := .stopped }
  crash

def rest : Prog α := do
  modify fun s => { s with controller := .resting }
  crash

def call : Prog World := do
  let w ← ask fun env n => env n
  let s ← state
  if w.stops s then stopController else pure w

def patience : Prog Nat := ask fun env n => (env n).polls

variable (id : Text) (row : Row)

def see : Prog Unit := modify fun s => { s with rows := Function.update s.rows id (some row) }

def getDeployment : Prog Row := do
  let w ← call
  match w.deployment id with
  | .error message => fail (.other message)
  | .ok row => do
    see id row
    pure row

def waitUpdatePoll : Prog Unit := do
  let w ← call
  if w.shutdown then fail (.other w.message) else pure ()

def noteCancel (w : World) : Prog Unit :=
  modify fun s => if w.cancel && Runs.canTransition s.run .cancelling then { s with run := .cancelling } else s

def updateCancelled : Prog Bool := do
  let w ← call
  noteCancel w
  let s ← state
  pure (w.succeeds && s.run = .cancelling)

def checkCancelled : Prog Unit := do
  let cancelled ← updateCancelled
  if cancelled then fail .cancelled else pure ()

variable (new : Runs.State)

def setState : Prog Unit := do
  let w ← call
  noteCancel w
  modify fun s => if w.succeeds && Runs.canTransition s.run new then { s with run := new } else s

def complete (code : String) (message : Text) : Prog Unit := do
  let w ← call
  noteCancel w
  modify fun s =>
    if w.succeeds && Runs.canTransition s.run new then { s with run := new, errorCode := code, errorMessage := message }
    else s

def setOutput : Prog Unit := do
  let _ ← call
  pure ()

def persistUpdateProgress : Prog Unit := do
  let w ← call
  modify fun s => if w.succeeds then { s with saved := some s.progress } else s

def setPhase (phase : Phase) : Prog Unit := modify fun s => { s with progress := { s.progress with phase := phase } }

variable (source : Text)

def setUpdateTargets (update : Target → Target) : Prog Unit :=
  modify fun s =>
    let hardware := s.progress.hardware.map fun t => if t.source = source then update t else t
    { s with progress := { s.progress with hardware := hardware } }

def Progress.replacementOf (p : Progress) (source : Text) : Option Text :=
  p.hardware.findSome? fun t => if t.source = source then t.replacement else none

variable (index : Nat)

def setDevice (update : Device → Device) : Prog Unit :=
  modify fun s =>
    { s with progress := { s.progress with installedDevices := s.progress.installedDevices.modify index update } }

def noteOffline : Prog Unit := do
  let w ← call
  let s ← state
  if s.progress.hardware.any fun t => t.source = source && !w.online t.nodeID then do
    setPhase .waitingOffline
    setUpdateTargets source fun t => { t with status := .waiting, phase := .waitingOffline }
    persistUpdateProgress
  else pure ()

def afterStop : Prog Unit := do
  let w ← call
  match row.desired, row.runID with
  | .running, some runID =>
    match w.serveRun runID with
    | none => fail (.other w.message)
    | some (serve, _) => if !serve.terminal && !w.succeeds then fail (.other w.message) else pure ()
  | _, _ => pure ()

def readBack : Prog Unit := do
  let w ← call
  if w.succeeds then pure () else fail (.other w.message)

def stop : Prog Unit := do
  match ← attempt (getDeployment id) with
  | .error _ => fail (.other "unknown deployment".toList)
  | .ok row =>
    if row.desired = .stopped && row.observed = .stopped then readBack
    else do
      let w ← call
      if w.succeeds then do
        see id { row with desired := .stopped, observed := .stopping }
        afterStop row
        readBack
      else fail (.other w.message)

def observedText : Observed → Text
  | .unknown => "unknown".toList
  | .starting => "starting".toList
  | .healthy => "healthy".toList
  | .degraded => "degraded".toList
  | .failed => "failed".toList
  | .stopping => "stopping".toList
  | .stopped => "stopped".toList

def launched (runID : Text) : Row := ⟨.running, .unknown, some runID, fun _ => .none⟩

/-- `Service.Start`: everything between the checks and the commit may refuse. -/
def start (id : Text) : Prog Unit := do
  match ← attempt (getDeployment id) with
  | .error _ => fail (.other "unknown deployment".toList)
  | .ok row =>
    if row.desired = .running then fail (.state "deployment is already running".toList)
    else if row.observed ≠ .stopped then
      fail (.state ("deployment is ".toList ++ observedText row.observed ++ " (start requires observed stopped)".toList))
    else do
      let w ← call
      match w.commit with
      | .refused message => fail (.other message)
      | .done => see id (launched w.serveID)
      | .unread message => do
        see id (launched w.serveID)
        fail (.other message)

def insert (id runID : Text) : Prog Unit := do
  let s ← state
  if (s.rows id).isSome then fail (.other "UNIQUE constraint failed: deployments.id".toList)
  else
    modify fun s => { s with rows := Function.update s.rows id (some (launched runID)), created := id :: s.created }

def createPlanned : Prog Text := do
  let w ← call
  match w.creation with
  | .refused message => fail (.other message)
  | .created id => do
    insert id w.serveID
    pure id
  | .unread id message => do
    insert id w.serveID
    fail (.other message)

def acquireRepositoryReplacement : List Deployment → Prog Unit
  | [] => pure ()
  | _ :: deployments => do
    checkCancelled
    -- `acquirePlan`
    let w ← call
    if w.succeeds then acquireRepositoryReplacement deployments else fail (.other w.message)

def awaitOnline (nodeID : Text) : Nat → Prog Unit
  | 0 => rest
  | polls + 1 => do
    let w ← call
    if w.online nodeID then pure ()
    else do
      checkCancelled
      waitUpdatePoll
      awaitOnline nodeID polls

def awaitPlacement (index : Nat) (device : Device) : Nat → Prog Unit
  | 0 => do
    setDevice index fun d => { d with
      status := .failed, phase := .validating, errorCode := "recipe.update_placement_missing",
      errorMessage := "agent completed package fetch without a valid placement report".toList }
    persistUpdateProgress
    fail (.other (device.nodeName ++ ": candidate package placement was not reported".toList))
  | polls + 1 => do
    let w ← call
    if w.validPlacement device.nodeID then pure ()
    else do
      waitUpdatePoll
      awaitPlacement index device polls

variable (device : Device)

def awaitDevice : Prog Unit := do
  let w ← call
  if w.online device.nodeID then pure ()
  else do
    setDevice index fun d => { d with status := .waiting, phase := .waitingOffline, errorCode := "", errorMessage := [] }
    persistUpdateProgress
    let polls ← patience
    awaitOnline device.nodeID polls

def fetchPackage : Prog Unit := do
  if input.packageInstallOnly && !((input.installationSpecs.getD []).contains device.nodeID) then
    fail (.other ("recipe.update_history_missing: no frozen target configuration for node ".toList ++ device.nodeID))
  else do
    let w ← call
    noteCancel w
    match w.fetched with
    | some failure => do
      setDevice index fun d => { d with
        status := .failed, phase := .fetching, errorCode := "recipe.update_package_failed", errorMessage := failure.text }
      persistUpdateProgress
      match failure with
      | .cancelled => fail .cancelled
      | failure => fail (.other (device.nodeName ++ ": ".toList ++ failure.text))
    | none => do
      let polls ← patience
      awaitPlacement index device polls

def installDevice : Prog Unit := do
  checkCancelled
  if device.status = .succeeded then pure ()
  else do
    let w ← call
    if !input.packageInstallOnly && w.validPlacement device.nodeID then do
      setDevice index fun d => { d with status := .succeeded, phase := .ready, currentStep := 2 }
      persistUpdateProgress
    else do
      awaitDevice index device
      setPhase .installingRecipe
      setDevice index fun d => { d with status := .running, phase := .fetching, currentStep := 0 }
      persistUpdateProgress
      fetchPackage input index device
      setDevice index fun d => { d with status := .succeeded, phase := .ready, currentStep := 2 }
      persistUpdateProgress

def installRepositoryUpdateDevices : Prog Unit := do
  let artifact ← call
  if !artifact.succeeds then fail (.other ("candidate recipe package: ".toList ++ artifact.message))
  else do
    let run ← call
    if !run.succeeds then fail (.other run.message)
    else if input.packageInstallOnly && input.installationSpecs.isNone then
      fail (.other
        ("recipe.update_history_missing: update run predates target-bound source preparation; confirm a fresh update".toList))
    else do
      let s ← state
      fold (fun _ entry => installDevice input entry.2 entry.1) s.progress.installedDevices.zipIdx ()

def awaitSourceStopped (d : Deployment) : Nat → Prog Unit
  | 0 => rest
  | polls + 1 => do
    let row ← getDeployment d.source
    if row.observed = .stopped then do
      setUpdateTargets d.source fun t => { t with currentStep := max t.currentStep 1, phase := .preparing }
      persistUpdateProgress
    else do
      noteOffline d.source
      waitUpdatePoll
      awaitSourceStopped d polls

variable (d : Deployment)

def stopSource (row : Row) : Prog Unit := do
  if row.desired = .running then
    match ← attempt (stop d.source) with
    | .error (.state _) => pure ()
    | .error failure => fail failure
    | .ok _ => pure ()
  else pure ()

def stopUpdateSource : Prog Unit := do
  setUpdateTargets d.source fun t => { t with status := .running, phase := .stoppingOld }
  setPhase .stoppingOld
  persistUpdateProgress
  let row ← getDeployment d.source
  stopSource d row
  let polls ← patience
  awaitSourceStopped d polls

def preservedPlacementMismatch (source target : List Placement) : Option Text :=
  if source.length ≠ target.length then some "target recipe changes the hardware rank count".toList
  else
    source.findSome? fun expected =>
      let remain := "rank ".toList ++ Json.decimal expected.rank ++ " cannot remain on node ".toList ++ expected.nodeID
      -- a later placement of the rank overrides an earlier one
      match target.reverse.find? (·.rank = expected.rank) with
      | none => some remain
      | some actual =>
        if actual.nodeID ≠ expected.nodeID then some remain
        else if expected.acceleratorUUID ≠ [] && actual.acceleratorUUID ≠ expected.acceleratorUUID then
          some ("rank ".toList ++ Json.decimal expected.rank ++ " cannot retain accelerator ".toList ++
            expected.acceleratorUUID)
        else none

section Replacement

variable (D : Plan.Digester) (input : Input) (d : Deployment)

def createReplacement : Prog Text := do
  let w ← call
  match w.plan d with
  | .error message => fail (.other message)
  | .ok fresh =>
    if input.savedVersionReplacement && !Plan.replacementPlanMatchesAfterAcquisition D d.plan fresh then
      fail (.other "plan digest mismatch: replacement plan changed before create".toList)
    else if !fresh.ready || (preservedPlacementMismatch d.plan.placements fresh.placements).isSome ||
        fresh.workloadIndex ≠ d.plan.workloadIndex || fresh.fabric.getD [] ≠ d.fabric then
      fail (.other "plan not ready: frozen replacement placement, workload or fabric cannot be preserved".toList)
    else createPlanned

/-- A deployment with the target's recipe, parameters and placement is taken as it is, or started. -/
def adoptReplacement (id : Text) (row : Row) : Prog Text := do
  see id row
  if row.desired = .stopped && row.observed = .stopped then do
    start id
    pure id
  else pure id

def findReplacement : Prog Text := do
  let w ← call
  match w.existing d with
  | .found id row => adoptReplacement id row
  | .failed message => fail (.other message)
  | .noRows => createReplacement D input d

def recordReplacement (id : Text) : Prog Unit := do
  setUpdateTargets d.source fun t => { t with replacement := some id, status := .running, phase := .preparing }
  setPhase .preparing
  persistUpdateProgress

def ensureUpdateReplacement : Prog Text := do
  let s ← state
  match s.progress.replacementOf d.source with
  | some id => pure id
  | none => do
    let id ← findReplacement D input d
    recordReplacement d id
    pure id

end Replacement

def updateStepForDispatch : Deploy.Phase → Nat × Phase
  | .prepared => (2, .pulling)
  | .pulled | .created | .hostPreparing | .hostPrepared | .verifying => (3, .starting)
  | .started => (4, .verifying)
  | _ => (1, .preparing)

def updateOverallPhase (targets : List Target) (source : Text) : Phase :=
  targets.foldl (fun phase t => if t.source = source then t.phase else phase) .preparing

def showReplacement (row : Row) (t : Target) : Target :=
  let step := updateStepForDispatch (row.dispatch t.rank)
  if row.observed = .healthy then { t with currentStep := 5, status := .succeeded, phase := .ready }
  else { t with currentStep := max t.currentStep step.1, status := .running, phase := step.2 }

def checkServeRun (row : Row) : Prog Unit := do
  match row.runID with
  | none => pure ()
  | some runID => do
    let w ← call
    match w.serveRun runID with
    | some (.failed, message) => fail (.other ("replacement deployment failed: ".toList ++ message))
    | some (.interrupted, message) => fail (.other ("replacement deployment failed: ".toList ++ message))
    | _ => pure ()

def awaitReplacement (d : Deployment) (id : Text) : Nat → Prog Unit
  | 0 => rest
  | polls + 1 => do
    checkCancelled
    let row ← getDeployment id
    setUpdateTargets d.source (showReplacement row)
    let s ← state
    setPhase (updateOverallPhase s.progress.hardware d.source)
    persistUpdateProgress
    if row.observed = .healthy then pure ()
    else if row.observed = .failed || row.desired ≠ .running then
      fail (.other ("replacement deployment ".toList ++ id ++ " is ".toList ++ observedText row.observed))
    else do
      checkServeRun row
      noteOffline d.source
      waitUpdatePoll
      awaitReplacement d id polls

variable (d : Deployment) (id : Text)

def waitUpdateReplacement : Prog Unit := do
  let polls ← patience
  awaitReplacement d id polls

def awaitReplacementStopped (d : Deployment) (id : Text) : Nat → Row → Prog (Option Text)
  | 0, _ => rest
  | polls + 1, row =>
    if row.observed = .stopped then pure none
    else do
      setPhase .rollingBack
      setUpdateTargets d.source fun t => { t with status := .running, phase := .rollingBack }
      persistUpdateProgress
      waitUpdatePoll
      match ← attempt (getDeployment id) with
      | .error failure => pure (some failure.text)
      | .ok row => awaitReplacementStopped d id polls row

/-- The error of `Stop` is dropped, and the wait begins with the row from before it. -/
def stopRunning (row : Row) : Prog Unit := do
  if row.desired = .running then do
    let _ ← attempt (stop id)
    pure ()
  else pure ()

def stopReplacement : Prog (Option Text) := do
  let s ← state
  match s.progress.replacementOf d.source with
  | none => pure none
  | some id => do
    match ← attempt (getDeployment id) with
    | .error failure => pure (some failure.text)
    | .ok row => do
      stopRunning id row
      let polls ← patience
      awaitReplacementStopped d id polls row

def awaitSourceSettled (d : Deployment) : Nat → Row → Prog (Except Text Row)
  | 0, _ => rest
  | polls + 1, row =>
    if row.observed ≠ .stopped && row.desired = .stopped then do
      waitUpdatePoll
      match ← attempt (getDeployment d.source) with
      | .error failure => pure (.error failure.text)
      | .ok row => awaitSourceSettled d polls row
    else pure (.ok row)

def startSource (row : Row) : Prog (Option Text) := do
  let polls ← patience
  match ← awaitSourceSettled d polls row with
  | .error message => pure (some message)
  | .ok row =>
    if row.desired = .stopped then
      match ← attempt (start d.source) with
      | .error failure => pure (some failure.text)
      | .ok _ => pure none
    else pure none

def awaitSourceHealthy (d : Deployment) : Nat → Prog (Option Text)
  | 0 => rest
  | polls + 1 => do
    match ← attempt (getDeployment d.source) with
    | .error failure => pure (some failure.text)
    | .ok row =>
      if row.observed = .healthy then pure none
      else if row.observed = .failed then
        pure (some ("source deployment ".toList ++ d.source ++ " failed during restore".toList))
      else do
        waitUpdatePoll
        awaitSourceHealthy d polls

def rollbackFailed (message : Text) (t : Target) : Target :=
  { t with status := .failed, phase := .rollbackFailed, errorCode := "recipe.rollback_failed", errorMessage := message }

def restoreSource : Prog (Option Text) := do
  setPhase .restoringOld
  setUpdateTargets d.source fun t => { t with status := .running, phase := .restoringOld }
  persistUpdateProgress
  match ← attempt (getDeployment d.source) with
  | .error failure => pure (some failure.text)
  | .ok row => do
    match ← startSource d row with
    | some message => do
      setUpdateTargets d.source (rollbackFailed message)
      pure (some message)
    | none => do
      let polls ← patience
      match ← awaitSourceHealthy d polls with
      | some message => do
        setUpdateTargets d.source (rollbackFailed message)
        persistUpdateProgress
        pure (some message)
      | none => do
        setUpdateTargets d.source fun t => { t with status := .failed, phase := .restored }
        persistUpdateProgress
        pure none

def leaveSource : Prog (Option Text) := do
  setUpdateTargets d.source fun t => { t with status := .failed, phase := .restored }
  persistUpdateProgress
  pure none

def settleSource : Prog (Option Text) := if d.sourceWasStopped then leaveSource d else restoreSource d

def rollbackDeployment (errors : List Text) (d : Deployment) : Prog (List Text) := do
  let stopError ← stopReplacement d
  let sourceError ← settleSource d
  pure (errors ++ stopError.toList ++ sourceError.toList)

def rollbackRepositoryUpdate (input : Input) : Prog Unit := do
  setPhase .rollingBack
  persistUpdateProgress
  let errors ← fold rollbackDeployment input.deployments.reverse []
  if errors = [] then do
    setPhase .restored
    persistUpdateProgress
  else do
    setPhase .rollbackFailed
    persistUpdateProgress
    fail (.other ("; ".toList.intercalate errors))

section Coordinator

variable (D : Plan.Digester) (input : Input)

def completeInstallation (result : Except Failure Unit) : Prog Unit := do
  match result with
  | .error .cancelled => do
    setOutput
    complete .cancelled "run.cancelled" "package update cancelled; existing packages and deployments retained".toList
  | .error failure => do
    setOutput
    complete .failed "recipe.update_failed" failure.text
  | .ok _ => do
    setPhase .ready
    persistUpdateProgress
    setState .verifying
    setOutput
    complete .succeeded "" []

def coordinateRepositoryInstallationUpdate : Prog Unit := do
  if input.deployments.length ≠ 0 || input.targets.length ≠ 0 then
    complete .failed "recipe.update_input_invalid" "package update contains deployment replacements".toList
  else do
    let result ← attempt (installRepositoryUpdateDevices input)
    let w ← call
    if w.shutdown then pure ()
    else
      match result with
      | .error failure => completeInstallation (.error failure)
      | .ok _ => do
        let cancelled ← updateCancelled
        completeInstallation (if cancelled then .error .cancelled else .ok ())

def replaceDeployment (d : Deployment) : Prog Unit := do
  checkCancelled
  stopUpdateSource d
  checkCancelled
  let id ← ensureUpdateReplacement D input d
  waitUpdateReplacement d id

def prepare : Prog Unit :=
  if input.savedVersionReplacement then acquireRepositoryReplacement input.deployments
  else installRepositoryUpdateDevices input

def activate : Prog Unit := do
  if input.savedVersionReplacement then pure ()
  else do
    let w ← call
    if w.succeeds then pure () else fail (.other w.message)

def replaceAll : Prog Unit := do
  checkCancelled
  prepare input
  checkCancelled
  fold (fun _ d => replaceDeployment D input d) input.deployments ()
  checkCancelled
  setState .verifying
  activate input

def succeed : Prog Unit := do
  modify fun s => { s with progress := ⟨.ready,
    s.progress.installedDevices.map fun device => { device with status := .succeeded, phase := .ready, currentStep := 2 },
    s.progress.hardware.map fun t => { t with status := .succeeded, phase := .ready, currentStep := 5 }⟩ }
  persistUpdateProgress
  setOutput
  complete .succeeded "" []

def completeCancelled : Prog Unit :=
  complete .cancelled "run.cancelled" "recipe update cancelled and source deployments restored".toList

def completeRestored (failure : Failure) : Prog Unit := do
  setOutput
  if failure = .cancelled then completeCancelled
  else do
    let cancelled ← updateCancelled
    if cancelled then completeCancelled else complete .failed "recipe.update_failed" failure.text

def undo (failure : Failure) : Prog Unit := do
  match ← attempt (rollbackRepositoryUpdate input) with
  | .error rollbackError => do
    setOutput
    complete .failed "recipe.rollback_failed" rollbackError.text
  | .ok _ => completeRestored failure

def loadProgress (saved : Option Progress) : Progress :=
  match saved with
  | none => initialProgress input
  | some progress =>
    if (progress.installedDevices = [] && input.installedDevices ≠ []) ||
        (progress.hardware = [] && input.targets ≠ []) then initialProgress input
    else progress

def markRunning : Prog Unit := do
  let s ← state
  if s.run = .cancelling then pure () else setState .running

def coordinateLoaded : Prog Unit := do
  markRunning
  if input.packageInstallOnly then coordinateRepositoryInstallationUpdate input
  else do
    match ← attempt (replaceAll D input) with
    | .error failure => undo input failure
    | .ok _ => succeed

def coordinateRepositoryUpdate : Prog Unit := do
  let w ← call
  noteCancel w
  if !w.succeeds then pure ()
  else do
    modify fun s => { s with progress := loadProgress input s.saved }
    coordinateLoaded D input

inductive Event
  | live (env : Nat → World)
  | stop

def State.settle (s : State) : State := if s.controller = .working then { s with controller := .resting } else s

def next (s : State) : Event → State
  | .live env => (coordinateRepositoryUpdate D input env 0 { s with controller := .working }).state.settle
  | .stop => { s with controller := .stopped }

structure Starts (s : State) : Prop where
  run : s.run = .queued ∨ s.run = .planning ∨ s.run = .waiting
  saved : s.saved = none ∨ s.saved = some (initialProgress input)
  present : ∀ d ∈ input.deployments, (s.rows d.source).isSome
  created : s.created = []
  controller : s.controller = .stopped

def system : Transition.System State Event where
  init := Starts input
  enabled s
    | .live _ => s.controller = .stopped ∧ s.run.terminal = false
    | .stop => s.controller = .resting
  next := next D input

end Coordinator

end LocalModelWorks.Update
