import LocalModelWorks.Json
import LocalModelWorks.Separator
import LocalModelWorks.Deploy.Apart
import LocalModelWorks.Downloads.Store

/-!
# What a node may say

Every message of an agent arrives on the authenticated session of its node, and one call
handles it: command results go through the download service, the transfers, the command
broker and the deployment service in this order.
-/

namespace LocalModelWorks.Server.Messages

open Deploy (Deployment DeploymentID Rank StateUpdate)
open Downloads (Item ItemID Token)

abbrev NodeID := String

abbrev WaiterID := Nat

/-- Ids are drawn at random, so an id stands for one command, download or transfer. -/
inductive CommandID
  | workload (deployment : DeploymentID) (id : Deploy.CommandID)
  | download (token : Token)
  | transfer (id : Nat)
  | other (id : Nat)
  deriving DecidableEq

def CommandID.token : CommandID → Option Token
  | .download token => some token
  | _ => none

structure CommandResult where
  command : CommandID
  result : Deploy.CommandResult
  output : Item → Bool

structure LogChunk where
  runID : String
  deploymentID : DeploymentID
  rank : Int
  stream : String
  data : List UInt8
  final : Bool
  endOffset : Nat

inductive PlacementState
  | pending
  | valid
  | invalid
  deriving DecidableEq

structure PlacementReport where
  identity : String
  path : String
  state : PlacementState
  sizeBytes : Nat
  verifiedAt : Option Nat

structure DownloadProgress where
  itemID : ItemID
  command : CommandID
  phase : String
  bytesDone : Nat
  bytesTotal : Option Nat
  filesDone : Nat
  filesTotal : Option Nat
  currentFile : String
  deriving DecidableEq

structure TransferProgress where
  transfer : CommandID
  bytesDone : Nat
  bytesTotal : Nat

inductive Message
  | commandResult (cr : CommandResult)
  | stateUpdate (deploymentID : DeploymentID) (su : StateUpdate)
  | logChunk (lc : LogChunk)
  | placementReport (pr : PlacementReport)
  | transferProgress (tp : TransferProgress)
  | downloadProgress (dp : DownloadProgress)
  | ack (command : CommandID) (ok : Bool) (error : String)

inductive TransferState
  | pending
  | transferring
  | cancelling
  | succeeded
  | failed
  | cancelled
  deriving DecidableEq

def TransferState.terminal : TransferState → Bool
  | .succeeded | .failed | .cancelled => true
  | _ => false

structure Transfer where
  destNode : NodeID
  state : TransferState
  bytesDone : Nat
  bytesTotal : Nat
  diagnostic : Option String
  deriving DecidableEq

structure TransferKey where
  deploymentID : DeploymentID
  nodeID : NodeID
  identity : String
  deriving DecidableEq

structure PlacementKey where
  artifactID : String
  nodeID : NodeID
  path : String
  deriving DecidableEq

structure PlacementRow where
  state : PlacementState
  sizeBytes : Nat
  verifiedAt : Option Nat
  deriving DecidableEq

structure LogKey where
  runID : String
  deploymentID : DeploymentID
  rank : Int
  stream : String
  deriving DecidableEq

structure LogPath where
  runID : String
  deploymentID : DeploymentID
  file : List Char
  deriving DecidableEq

structure DownloadWaiter where
  waiter : WaiterID
  node : NodeID
  replied : Bool
  deriving DecidableEq

structure Delivery where
  waiter : WaiterID
  command : CommandID
  node : Option NodeID
  result : Deploy.CommandResult
  deriving DecidableEq

structure Broker where
  waiters : CommandID → List WaiterID
  replay : CommandID → Option Deploy.CommandResult
  order : List CommandID

/-- `sentTo` and `delivered` are not part of the controller: the node each command was sent to, and the
outcomes that waiters received, newest first. -/
structure Controller where
  deployments : DeploymentID → Option Deployment
  containers : DeploymentID → Rank → String
  fetches : CommandID → Option WaiterID
  cancels : CommandID → Option CommandID
  transfers : CommandID → Option Transfer
  transferInflight : List (TransferKey × CommandID)
  downloads : Downloads.Shared
  checkpoints : ItemID → Option DownloadProgress
  downloadWaiters : Bool → CommandID → Option DownloadWaiter
  broker : Broker
  placements : PlacementKey → Option PlacementRow
  logs : LogPath → List UInt8
  logEnds : LogKey → Option Nat
  sentTo : CommandID → Option NodeID
  delivered : List Delivery

structure Env where
  deploy : DeploymentID → Deploy.Env
  artifact : String → Option String

def itoa (n : Int) : List Char := if n = 0 then ['0'] else if n < 0 then [] else n.toNat.repr.toList

/-- The names that `filepath.Base` leaves alone. -/
def plainName (name : String) : Bool := name = "/" || !name.toList.contains '/'

def streamName (stream : String) : String := if stream = "stdout" ∨ stream = "stderr" then stream else "stdout"

def logDeployment (deploymentID : DeploymentID) : DeploymentID := if deploymentID = "" then "adhoc" else deploymentID

def runLogPath (runID : String) (deploymentID : DeploymentID) (rank : Int) (stream : String) : Option LogPath :=
  let deploymentID := logDeployment deploymentID
  if runID = "" ∨ runID = "." ∨ runID = ".." ∨ deploymentID = "." ∨ deploymentID = ".." ∨
      !plainName runID ∨ !plainName deploymentID then none
  else some ⟨runID, deploymentID, deploymentID.toList.map (fun c => if c = ' ' then '_' else c) ++
    ("-rank".toList ++ (itoa rank ++ '_' :: ((streamName stream).toList ++ ".log".toList)))⟩

namespace Controller

variable (c : Controller)

def markLogEnd (key : LogKey) (endOffset : Nat) : Controller :=
  if (c.logEnds key).any (endOffset ≤ ·) then c
  else { c with logEnds := Function.update c.logEnds key (some endOffset) }

def appendLog (lc : LogChunk) : Controller :=
  if lc.runID = "" then c
  else if lc.final then
    c.markLogEnd ⟨lc.runID, logDeployment lc.deploymentID, lc.rank, lc.stream⟩ lc.endOffset
  else match runLogPath lc.runID lc.deploymentID lc.rank lc.stream with
    | none => c
    | some path => { c with logs := Function.update c.logs path (c.logs path ++ lc.data) }

variable (command : CommandID) (node : NodeID)

def itemByCommand : Option Item :=
  c.downloads.items.find? fun item => command.token.isSome && item.commandID = command.token && item.nodeID = node

def itemByTransfer : Option Item :=
  c.downloads.items.find? fun item => command.token.isSome && item.transferID = command.token && item.nodeID = node

def ownsCommand : Bool :=
  command.token.isSome &&
    c.downloads.items.any fun item => item.commandID = command.token || item.transferID = command.token

def reply (peer : Bool) (cr : CommandResult) (w : DownloadWaiter) : Controller :=
  if w.replied then c
  else { c with
    downloadWaiters := Function.update c.downloadWaiters peer
      (Function.update (c.downloadWaiters peer) cr.command (some { w with replied := true }))
    delivered := ⟨w.waiter, cr.command, some w.node, cr.result⟩ :: c.delivered }

variable (row : Item)

/-- A late acknowledgement frees the destination, and ends an item that was being cancelled. -/
def quiesced : Controller :=
  let released := c.downloads.quiesce row
  { c with downloads := if row.state = .cancelling then (released.transition row .cancelled none).1 else released }

def lateResult (accepted : Bool) : Controller :=
  if (row.state = .interrupted ∨ row.state = .cancelling) ∧ accepted then c.quiesced row else c

variable (cr : CommandResult)

def onPeerResult : Controller × Bool :=
  match c.downloadWaiters true cr.command with
  | some w => if w.node ≠ node then (c, true) else (c.reply true cr w, true)
  | none => match c.itemByTransfer cr.command node with
    | none => (c, false)
    | some row => (c.lateResult row true, true)

def onResult : Controller × Bool :=
  match c.downloadWaiters false cr.command with
  | some w => if w.node ≠ node then (c, true) else (c.reply false cr w, true)
  | none => match c.itemByCommand cr.command node with
    | some row => (c.lateResult row (cr.output row), true)
    | none =>
      let (after, handled) := c.onPeerResult node cr
      (after, handled || c.ownsCommand cr.command)

def maxDestinationBytes : Nat := 4096

variable (dp : DownloadProgress)

def accepts : Bool :=
  row.id = dp.itemID &&
    (c.checkpoints row.id).all (fun seen => seen.bytesDone ≤ dp.bytesDone && seen.filesDone ≤ dp.filesDone) &&
    dp.currentFile.utf8ByteSize ≤ maxDestinationBytes && dp.phase.utf8ByteSize ≤ 128 &&
    dp.bytesTotal.all (dp.bytesDone ≤ ·) && dp.filesTotal.all (dp.filesDone ≤ ·)

/-- The write asks for the node, the state, the command and the transfer of the row that was read. -/
def recordCheckpoint : Controller :=
  match c.downloads.getItem row.id with
  | none => c
  | some item =>
    if item.nodeID = row.nodeID ∧ item.state = row.state ∧
        item.state ∈ [.checking, .transferring, .verifying, .cancelling] ∧ item.commandID = row.commandID ∧
        item.transferID = row.transferID then
      { c with checkpoints := Function.update c.checkpoints row.id (some dp) }
    else c

def onProgress : Controller :=
  match c.itemByCommand dp.command node with
  | none => c
  | some row => if c.accepts row dp then c.recordCheckpoint row dp else c

def endTransfer (id : CommandID) (state : TransferState) (diagnostic : Option String) : Controller :=
  { c with transfers := Function.update c.transfers id ((c.transfers id).map fun transfer =>
      if transfer.state.terminal then transfer
      else { transfer with
        state := if transfer.state = .cancelling then .cancelled else state
        diagnostic := diagnostic }) }

def transferLocks : CommandID → List Downloads.Lock
  | .transfer id => c.downloads.locks.filter (·.owner = .transfer id)
  | _ => []

def releaseLocks (locks : List Downloads.Lock) : Controller :=
  { c with downloads := locks.foldl (fun w lock => w.unlock lock.nodeID lock.destination lock.owner) c.downloads }

def settleTransfer (id : CommandID) (transfer : Transfer) (cancel : Bool) (cr : CommandResult) : Controller × Bool :=
  let locks := c.transferLocks id
  if !cancel && locks.isEmpty then (c, false)
  else
    let state : TransferState :=
      if cancel ∨ transfer.state = .cancelling then .cancelled else if cr.result.ok then .succeeded else .failed
    let diagnostic := if cr.result.error = [] then none else some (String.ofList cr.result.error)
    ((c.releaseLocks locks).endTransfer id state diagnostic, true)

def onTransferCommandResult : Controller × Bool :=
  let cancel := (c.cancels cr.command).isSome
  let id := (c.cancels cr.command).getD cr.command
  match c.transfers id with
  | none => (c, cancel)
  | some transfer =>
    if transfer.destNode ≠ node then (c, true)
    else
      let taken := if cancel then { c with cancels := Function.update c.cancels cr.command none } else c
      if cancel && !cr.result.ok then (taken, true) else taken.settleTransfer id transfer cancel cr

variable (tp : TransferProgress)

def updateTransferProgress : Controller :=
  { c with transfers := Function.update c.transfers tp.transfer ((c.transfers tp.transfer).map fun transfer =>
      { transfer with state := .transferring, bytesDone := tp.bytesDone, bytesTotal := tp.bytesTotal }) }

def applyTransferProgress : Controller :=
  match c.itemByTransfer tp.transfer node with
  | some row => match row.commandID with
    | some token => c.onProgress node ⟨row.id, .download token, "peer-copy", tp.bytesDone, some tp.bytesTotal, 0, none, ""⟩
    | none => c
  | none => match c.transfers tp.transfer with
    | none => c
    | some transfer =>
      if transfer.destNode ≠ node ∨ (transfer.state ≠ .pending ∧ transfer.state ≠ .transferring) then c
      else c.updateTransferProgress tp

def replaySize : Nat := 1024

def deliver : Controller :=
  let order := c.broker.order ++ [cr.command]
  let evicted := order.take (order.length - replaySize)
  { c with
    broker := {
      waiters := Function.update c.broker.waiters cr.command []
      replay := fun id =>
        if id ∈ evicted then none else Function.update c.broker.replay cr.command (some cr.result) id
      order := order.drop (order.length - replaySize) }
    delivered := (c.broker.waiters cr.command).map (⟨·, cr.command, c.sentTo cr.command, cr.result⟩) ++ c.delivered }

variable (id : DeploymentID)

def update (f : Deployment → Deployment) : Controller :=
  { c with deployments := Function.update c.deployments id ((c.deployments id).map f) }

variable (s : Deployment)

def setPlacementContainer (rank : Rank) (containerID : String) : Controller :=
  if containerID = "" ∨ s.placement.entryFor rank = none then c
  else { c with containers := Function.update c.containers id (Function.update (c.containers id) rank containerID) }

variable (env : Env)

def onStateUpdate (c : Controller) (id : DeploymentID) (su : StateUpdate) : Controller :=
  match c.deployments id with
  | none => c
  | some s =>
    if id = "" ∨ s.runID ≠ su.runID then c
    else (c.setPlacementContainer id s su.rank su.containerID).update id (Deployment.onStateUpdate (env.deploy id) · su)

def resultReport (id : Deploy.CommandID) (cr : Deploy.CommandResult) : Option StateUpdate :=
  (s.inflight.find? (·.id = id)).bind fun command =>
    if (s.dispatch command.rank = .stopped ∧ s.desired = .stopped) ∨ command.op ≠ .inspect then none
    else Deploy.inspected s command.rank cr

def onWorkloadResult (c : Controller) (id : DeploymentID) (command : Deploy.CommandID)
    (cr : Deploy.CommandResult) : Controller :=
  match c.deployments id with
  | none => c
  | some s =>
    let reported := match resultReport s command cr with
      | some su => c.setPlacementContainer id s su.rank su.containerID
      | none => c
    reported.update id (Deployment.onCommandResult (env.deploy id) · command cr)

def completeRepositoryUpdateFetch : Controller :=
  match c.fetches cr.command with
  | none => c
  | some waiter => { c with
      fetches := Function.update c.fetches cr.command none
      delivered := ⟨waiter, cr.command, c.sentTo cr.command, cr.result⟩ :: c.delivered }

def onCommandResult (c : Controller) (cr : CommandResult) : Controller :=
  match cr.command with
  | .workload id command => c.onWorkloadResult env id command cr.result
  | _ => c.completeRepositoryUpdateFetch cr

def failRanks (node : NodeID) (code message : String) : Controller :=
  c.update id fun s => (s.placement.ranksOnNode node).foldl (fun s rank => s.failDispatch rank code message) s

def wakeRanks (c : Controller) (id : DeploymentID) (node : NodeID) : Controller :=
  c.update id fun s => (s.placement.ranksOnNode node).foldl
    (fun s rank => s.dispatchNext (env.deploy id) rank (s.placement.entryFor rank)) s

def setTransferState (id : CommandID) (state : TransferState) (diagnostic : Option String) : Controller :=
  { c with transfers := Function.update c.transfers id ((c.transfers id).map fun transfer =>
      { transfer with state := state, diagnostic := diagnostic }) }

def dropInflight (key : TransferKey) : Controller :=
  { c with transferInflight := c.transferInflight.filter (·.1 ≠ key) }

def settleReport (identity : String) (state : PlacementState) (c : Controller)
    (entry : TransferKey × CommandID) : Controller :=
  let dropped := c.dropInflight entry.1
  if state = .valid then dropped.setTransferState entry.2 .succeeded none
  else (dropped.setTransferState entry.2 .failed (some "destination reported invalid placement")).failRanks
    entry.1.deploymentID node "artifact.invalid_placement" (identity ++ " reported invalid on " ++ node)

def onPlacementReport (c : Controller) (node : NodeID) (identity : String) (state : PlacementState) : Controller :=
  let entries := c.transferInflight.filter fun entry => entry.1.identity = identity && entry.1.nodeID = node
  let settled := entries.foldl (settleReport node identity state) c
  if state = .valid then entries.foldl (fun c entry => c.wakeRanks env entry.1.deploymentID node) settled else settled

def applyPlacementReport (c : Controller) (node : NodeID) (pr : PlacementReport) : Controller :=
  match env.artifact pr.identity with
  | none => c
  | some artifactID =>
    let key : PlacementKey := ⟨artifactID, node, pr.path⟩
    let row : PlacementRow := ⟨pr.state, pr.sizeBytes, pr.verifiedAt⟩
    let upserted := { c with placements := Function.update c.placements key (some row) }
    if c.placements key = some row then upserted else upserted.onPlacementReport env node pr.identity pr.state

variable (message : String)

def failTransfer (c : Controller) (entry : TransferKey × CommandID) : Controller :=
  ((c.dropInflight entry.1).setTransferState entry.2 .failed (if message = "" then none else some message)).failRanks
    entry.1.deploymentID entry.1.nodeID "artifact.transfer_failed" message

def onTransferResult : Controller :=
  (c.transferInflight.filter (·.2 = command)).foldl (failTransfer message) c

end Controller

variable (env : Env) (node : NodeID) (c : Controller)

def handleResult (cr : CommandResult) : Controller :=
  let (downloaded, ours) := c.onResult node cr
  if ours then downloaded
  else
    let (transferred, ours) := downloaded.onTransferCommandResult node cr
    if ours then transferred else (transferred.deliver cr).onCommandResult env cr

def handle : Message → Controller
  | .commandResult cr => handleResult env node c cr
  | .stateUpdate id su => c.onStateUpdate env id su
  | .logChunk lc => c.appendLog lc
  | .placementReport pr => c.applyPlacementReport env node pr
  | .transferProgress tp => c.applyTransferProgress node tp
  | .downloadProgress dp => c.onProgress node dp
  | .ack command ok error => if ok then c else c.onTransferResult command error

end LocalModelWorks.Server.Messages
