import LocalModelWorks.Transition
import LocalModelWorks.Downloads.Acquire

/-!
# The calls of the download service

`Cancel`, `cancelItem`, `OnReconnect`, `OnDisconnect`, `Reconcile` and the handling of late
results as threads, over any number of acquisitions.
-/

namespace LocalModelWorks.Downloads

open Transition

abbrev TaskID := Nat

inductive Task
  | cancel (runID : RunID)
  | cancelRows (rows : List Item)
  | cancelReread (id : ItemID) (rest : List Item)
  | cancelMark (row : Item) (rest : List Item)
  | cancelRelease (row : Item) (rest : List Item)
  | cancelFinish (row : Item) (rest : List Item)
  | cancelItem (row : Item)
  | awaitCancel (row : Item) (target : Token) (reply : Option Bool)
  | release (row : Item) (proof : QuiescenceProof)
  | settle (row : Item)
  | settleWrite (row : Item)
  | reconnect (nodeID : NodeID)
  | reconnectItems (ids : List ItemID)
  | reconnectRelease (row : Item) (rest : List ItemID)
  | disconnect (nodeID : NodeID)
  | disconnectRuns (nodeID : NodeID) (todo parents : List RunID)
  | disconnectGather (nodeID : NodeID) (todo : List RunID) (affected : List ItemID) (rows : List Item)
  | disconnectWaiters (nodeID : NodeID) (affected : List ItemID) (rows : List Item)
  | disconnectRows (rows : List Item)
  | disconnectRelease (row : Item) (rest : List Item)
  | late (token : Token) (matching : Bool)
  | lateRelease (row : Item)
  | lateFinish (row : Item)
  | reconcile (nodes : List NodeID) (seen : List RunID)
  | reconcileRuns (runs : List RunID) (nodes : List NodeID) (seen : List RunID)
  deriving DecidableEq

def Task.entry : Task → Bool
  | .cancel _ | .reconnect _ | .disconnect _ | .reconcile _ [] => true
  | _ => false

structure Reading where
  runCancelling : Bool
  online : NodeID → Bool
  accepted : Bool

def Item.target (row : Item) : Option Token := row.transferID.or row.commandID

def Item.neverDispatched (row : Item) : Bool :=
  row.transferID.isNone && (row.action = .peerCopy || row.commandID.isNone)

structure Outcome where
  shared : Shared
  task : Option Task
  spawned : Option Task

namespace Task

def afterLate (row : Item) (token : Token) (matching : Bool) : Option Task :=
  if (row.state = .interrupted ∨ row.state = .cancelling) ∧ (matching ∨ row.commandID ≠ some token) then
    some (.lateRelease row)
  else none

def step (w : Shared) (reading : Reading) : Task → Outcome
  | .cancel runID => ⟨w, some (.cancelRows (w.listItems runID)), none⟩
  | .cancelRows [] => ⟨w, none, none⟩
  | .cancelRows (row :: rest) =>
    if row.state.active then ⟨(w.transition row .cancelling none).1, some (.cancelReread row.id rest), none⟩
    else if row.state = .cancelling then ⟨w, some (.cancelMark row rest), none⟩
    else ⟨w, some (.cancelRows rest), none⟩
  | .cancelReread id rest =>
    match w.getItem id with
    | none => ⟨w, none, none⟩
    | some row => ⟨w, some (.cancelMark row rest), none⟩
  | .cancelMark row rest =>
    if row.neverDispatched then ⟨w.markCancelling row, some (.cancelRelease row rest), none⟩
    else if reading.online row.nodeID then ⟨w.markCancelling row, some (.cancelRows rest), some (.cancelItem row)⟩
    else ⟨w.markCancelling row, some (.cancelRows rest), none⟩
  | .cancelRelease row rest => ⟨w.quiesce row, some (.cancelFinish row rest), none⟩
  | .cancelFinish row rest => ⟨(w.transition row .cancelled none).1, some (.cancelRows rest), none⟩
  | .cancelItem row =>
    if row.action = .peerCopy ∧ row.transferID = none then ⟨w, some (.release row .neverDispatched), none⟩
    else match row.target with
      | none => ⟨w, none, none⟩
      | some target => ⟨w, if reading.accepted then some (.awaitCancel row target none) else none, none⟩
  | .awaitCancel row target none => ⟨w, some (.awaitCancel row target none), none⟩
  | .awaitCancel row _ (some ok) => ⟨w, if ok then some (.release row .terminalAck) else none, none⟩
  | .release row _ => ⟨w.quiesce row, some (.settle row), none⟩
  | .settle row => ⟨w, (w.getItem row.id).bind fun latest =>
      if latest.state = .cancelling then some (.settleWrite latest) else none, none⟩
  | .settleWrite row => ⟨(w.transition row .cancelled none).1, none, none⟩
  | .reconnect nodeID => ⟨w, some (.reconnectItems (w.lockedOnNode nodeID)), none⟩
  | .reconnectItems [] => ⟨w, none, none⟩
  | .reconnectItems (id :: rest) =>
    match w.getItem id with
    | none => ⟨w, some (.reconnectItems rest), none⟩
    | some row =>
      if row.commandID = none ∧ row.transferID = none then ⟨w, some (.reconnectRelease row rest), none⟩
      else ⟨w, some (.reconnectItems rest), some (.cancelItem row)⟩
  | .reconnectRelease row rest => ⟨w.quiesce row, some (.reconnectItems rest), none⟩
  | .disconnect nodeID =>
    let parents := ((w.activeOnNode nodeID).map (·.runID)).dedup
    ⟨w, some (.disconnectRuns nodeID parents parents), none⟩
  | .disconnectRuns nodeID [] parents => ⟨w, some (.disconnectGather nodeID parents [] []), none⟩
  | .disconnectRuns nodeID (runID :: todo) parents =>
    ⟨if reading.runCancelling then w else w.interruptRun runID, some (.disconnectRuns nodeID todo parents), none⟩
  | .disconnectGather nodeID [] affected rows => ⟨w, some (.disconnectWaiters nodeID affected rows), none⟩
  | .disconnectGather nodeID (runID :: todo) affected rows =>
    let items := w.listItems runID
    ⟨w, some (.disconnectGather nodeID todo (affected ++ items.map (·.id)) (rows ++ items.filter fun item =>
      item.state = .interrupted && item.nodeID ≠ nodeID && reading.online item.nodeID)), none⟩
  | .disconnectWaiters _ _ rows => ⟨w, some (.disconnectRows rows), none⟩
  | .disconnectRows [] => ⟨w, none, none⟩
  | .disconnectRows (row :: rest) =>
    if row.commandID = none ∧ row.transferID = none then ⟨w, some (.disconnectRelease row rest), none⟩
    else ⟨w, some (.disconnectRows rest), some (.cancelItem row)⟩
  | .disconnectRelease row rest => ⟨w.quiesce row, some (.disconnectRows rest), none⟩
  | .late token matching => ⟨w, (w.itemByToken token).bind (afterLate · token matching), none⟩
  | .lateRelease row => ⟨w.quiesce row, if row.state = .cancelling then some (.lateFinish row) else none, none⟩
  | .lateFinish row => ⟨(w.transition row .cancelled none).1, none, none⟩
  | .reconcile [] _ => ⟨w, none, none⟩
  | .reconcile (nodeID :: nodes) seen =>
    ⟨w, some (.reconcileRuns ((w.activeOnNode nodeID).map (·.runID)) nodes seen), none⟩
  | .reconcileRuns [] nodes seen => ⟨w, some (.reconcile nodes seen), none⟩
  | .reconcileRuns (runID :: runs) nodes seen =>
    if runID ∈ seen then ⟨w, some (.reconcileRuns runs nodes seen), none⟩
    else ⟨w.interruptRun runID, some (.reconcileRuns runs nodes (runID :: seen)), none⟩

/-- A CANCEL is sent under `dispatchMu`; a waiting call needs its reply. -/
def ready (w : Shared) : Task → Bool
  | .cancelItem row => (row.action = .peerCopy && row.transferID.isNone) || w.dispatchMu.isNone
  | .awaitCancel _ _ none => false
  | _ => true

/-- Whether a call waits for the result of a CANCEL, and the agent may send this one: it acknowledges only
the cancellation of a writer it knows. -/
def awaits (w : Shared) (ok : Bool) : Task → Bool
  | .awaitCancel _ target none => !ok || w.sent.any (·.2 = target)
  | _ => false

def dropped (nodeID : NodeID) (affected : List ItemID) : Task → Task
  | .awaitCancel row target none =>
    if row.nodeID = nodeID ∨ row.id ∈ affected then .awaitCancel row target (some false)
    else .awaitCancel row target none
  | task => task

end Task

structure State extends Shared where
  acquisitions : ItemID → Acquisition
  tasks : TaskID → Option Task

inductive Event
  | create (items : List Item)
  | list (id : ItemID)
  | acquire (id : ItemID) (answer : Answer)
  | cancelContext (id : ItemID)
  | call (taskID : TaskID) (task : Task)
  | proceed (taskID fresh : TaskID) (reading : Reading)
  | abandon (taskID : TaskID)
  | result (id : ItemID) (token : Token) (ok matching : Bool) (fresh : TaskID)
  | cancelResult (taskID : TaskID) (ok : Bool)
  | interrupt (runID : RunID)
  | lockOther (nodeID : NodeID) (destination : Destination) (owner : Owner)
  | unlockOther (nodeID : NodeID) (destination : Destination) (owner : Owner)
  | restart

namespace State

variable (s : State) (taskID : TaskID)

def setTask (task : Option Task) : State :=
  { s with tasks := Function.update s.tasks taskID task }

variable (id : ItemID)

def setAcquisition (acquisition : Acquisition) : State :=
  { s with acquisitions := Function.update s.acquisitions id acquisition }

def dropWaiters (nodeID : NodeID) (affected : List ItemID) : State :=
  { s with
    acquisitions := fun id =>
      if (s.getItem id).any (·.nodeID = nodeID) ∨ id ∈ affected then (s.acquisitions id).deliver false
      else s.acquisitions id
    tasks := fun taskID => (s.tasks taskID).map (·.dropped nodeID affected) }

def create (items : List Item) : State := { s with items := s.items ++ items }

def list : State :=
  match s.getItem id with
  | none => s
  | some row => s.setAcquisition id (.lock row)

def acquire (answer : Answer) : State :=
  let result := (s.acquisitions id).step s.toShared id answer
  { s with toShared := result.1 }.setAcquisition id result.2

def proceed (taskID fresh : TaskID) (reading : Reading) : State :=
  match s.tasks taskID with
  | none => s
  | some task =>
    let outcome := task.step s.toShared reading
    let waited := match task with
      | .disconnectWaiters nodeID affected _ => s.dropWaiters nodeID affected
      | _ => s
    let moved := { waited with toShared := outcome.shared }.setTask taskID outcome.task
    match outcome.spawned with
    | none => moved
    | some spawned => moved.setTask fresh (some spawned)

def onResult (token : Token) (ok matching : Bool) (fresh : TaskID) : State :=
  let heard := { s with toShared := s.finish token }
  if (s.acquisitions id).waiter = some token then heard.setAcquisition id ((s.acquisitions id).deliver ok)
  else heard.setTask fresh (some (.late token matching))

def onCancelResult (ok : Bool) : State :=
  match s.tasks taskID with
  | some (.awaitCancel row target _) =>
    { s with toShared := if ok then s.finish target else s.toShared }.setTask taskID (some (.awaitCancel row target (some ok)))
  | _ => s

def restart : State :=
  { s with
    dispatchMu := none
    acquisitions := fun id => if s.acquisitions id = .idle then .idle else .done
    tasks := fun _ => none }

def empty : State where
  items := []
  locks := []
  dispatchMu := none
  nextID := 0
  sent := []
  writers := []
  ended := []
  acquisitions _ := .idle
  tasks _ := none

end State

def next (s : State) : Event → State
  | .create items => s.create items
  | .list id => s.list id
  | .acquire id answer => s.acquire id answer
  | .cancelContext id => s.setAcquisition id (s.acquisitions id).cancelContext
  | .call taskID task => s.setTask taskID (some task)
  | .proceed taskID fresh reading => s.proceed taskID fresh reading
  | .abandon taskID => s.setTask taskID none
  | .result id token ok matching fresh => s.onResult id token ok matching fresh
  | .cancelResult taskID ok => s.onCancelResult taskID ok
  | .interrupt runID => { s with toShared := s.interruptRun runID }
  | .lockOther nodeID destination owner => { s with toShared := s.toShared.lockOther nodeID destination owner }
  | .unlockOther nodeID destination owner => { s with toShared := s.unlock nodeID destination owner }
  | .restart => s.restart

def Item.isFresh (item : Item) : Bool := item.state = .pending && item.commandID = none && item.transferID = none

def Owner.isDownload : Owner → Bool
  | .download _ => true
  | _ => false

/-- Items are created pending and unbound, and `execute` acquires each of them once. Results answer
what an agent accepted, any number of times and in any order. -/
def system : System State Event where
  init s := s = State.empty
  enabled s
    | .create items => (∀ item ∈ items, s.getItem item.id = none ∧ item.isFresh = true) ∧ (items.map Item.id).Nodup
    | .list id => s.acquisitions id = .idle
    | .acquire id _ => (s.acquisitions id).ready s.toShared = true
    | .call taskID task => s.tasks taskID = none ∧ task.entry = true
    | .proceed taskID fresh _ => fresh ≠ taskID ∧ s.tasks fresh = none ∧ ∃ task ∈ s.tasks taskID, task.ready s.toShared = true
    | .result id token _ _ fresh => (id, token) ∈ s.sent ∧ s.tasks fresh = none
    | .cancelResult taskID ok => ∃ task ∈ s.tasks taskID, task.awaits s.toShared ok = true
    | .lockOther _ _ owner | .unlockOther _ _ owner => owner.isDownload = false
    | _ => True
  next := next

instance (s : State) (e : Event) : Decidable (system.enabled s e) :=
  match e with
  | .create items => inferInstanceAs (Decidable
      ((∀ item ∈ items, s.getItem item.id = none ∧ item.isFresh = true) ∧ (items.map Item.id).Nodup))
  | .list id => inferInstanceAs (Decidable (s.acquisitions id = .idle))
  | .acquire id _ => inferInstanceAs (Decidable ((s.acquisitions id).ready s.toShared = true))
  | .call taskID task => inferInstanceAs (Decidable (s.tasks taskID = none ∧ task.entry = true))
  | .proceed taskID fresh _ => inferInstanceAs (Decidable
      (fresh ≠ taskID ∧ s.tasks fresh = none ∧ ∃ task ∈ s.tasks taskID, task.ready s.toShared = true))
  | .result id token _ _ fresh => inferInstanceAs (Decidable ((id, token) ∈ s.sent ∧ s.tasks fresh = none))
  | .cancelResult taskID ok => inferInstanceAs (Decidable (∃ task ∈ s.tasks taskID, task.awaits s.toShared ok = true))
  | .lockOther _ _ owner | .unlockOther _ _ owner => inferInstanceAs (Decidable (owner.isDownload = false))
  | .cancelContext .. | .abandon .. | .interrupt .. | .restart => inferInstanceAs (Decidable True)

end LocalModelWorks.Downloads
