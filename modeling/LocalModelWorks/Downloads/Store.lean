import LocalModelWorks.Table

/-!
# Download items and destination locks

The two tables of the download service with the statements on them. Every statement is
atomic; its WHERE clause, the constraints and the triggers of the schema decide whether it
takes effect. `sent`, `writers` and `ended` are not part of the service: the FETCH commands
and transfer STARTs that an agent accepted, those that nothing has ended yet, and the ids
whose terminal result or cancel acknowledgement was received.
-/

namespace LocalModelWorks.Downloads

abbrev ItemID := Nat

abbrev RunID := Nat

abbrev NodeID := String

abbrev Destination := String

/-- Command ids and transfer ids, drawn by `newID`. -/
abbrev Token := Nat

inductive Action
  | reuse
  | validateLocal
  | downloadOrigin
  | peerCopy
  deriving DecidableEq

inductive ItemState
  | pending
  | checking
  | transferring
  | verifying
  | cancelling
  | succeeded
  | failed
  | cancelled
  | interrupted
  deriving DecidableEq

def ItemState.terminal : ItemState → Bool
  | .succeeded | .failed | .cancelled | .interrupted => true
  | _ => false

def ItemState.active : ItemState → Bool
  | .pending | .checking | .transferring | .verifying => true
  | _ => false

/-- The edges that the trigger on `download_items` lets through. -/
def ItemState.allows : ItemState → ItemState → Bool
  | .pending, new => [.checking, .cancelling, .failed, .interrupted].contains new
  | .checking, new => [.transferring, .verifying, .succeeded, .cancelling, .failed, .interrupted].contains new
  | .transferring, new => [.verifying, .cancelling, .failed, .interrupted].contains new
  | .verifying, new => [.succeeded, .cancelling, .failed, .interrupted].contains new
  | .cancelling, new => [.cancelled, .interrupted].contains new
  | _, _ => false

structure Item where
  id : ItemID
  runID : RunID
  nodeID : NodeID
  destination : Destination
  action : Action
  state : ItemState
  commandID : Option Token
  transferID : Option Token
  errorCode : Option String
  deriving DecidableEq

inductive Owner
  | download (id : ItemID)
  | serving (id : Nat)
  | transfer (id : Nat)
  deriving DecidableEq

inductive LockState
  | held
  | cancelling
  deriving DecidableEq

structure Lock where
  nodeID : NodeID
  destination : Destination
  owner : Owner
  state : LockState
  deriving DecidableEq

def Lock.key (lock : Lock) : NodeID × Destination := (lock.nodeID, lock.destination)

inductive QuiescenceProof
  | terminalAck
  | neverDispatched
  deriving DecidableEq

structure Shared where
  items : List Item
  locks : List Lock
  dispatchMu : Option ItemID
  nextID : Token
  sent : List (ItemID × Token)
  writers : List (ItemID × Token)
  ended : List Token
  deriving DecidableEq

namespace Shared

variable (w : Shared) (id : ItemID)

def getItem : Option Item := Table.lookup Item.id w.items id

variable (nodeID : NodeID) (destination : Destination)

def getLock : Option Lock :=
  Table.lookup Lock.key w.locks (nodeID, destination)

variable (runID : RunID)

def listItems : List Item := w.items.filter (·.runID = runID)

def activeOnNode : List Item :=
  w.items.filter fun item => item.nodeID = nodeID && !item.state.terminal

def lockedOnNode : List ItemID :=
  w.locks.filterMap fun lock => if lock.nodeID = nodeID then
    match lock.owner with
    | .download id => some id
    | _ => none
  else none

variable (token : Token)

def itemByToken : Option Item :=
  (w.items.find? (·.commandID = some token)).or (w.items.find? (·.transferID = some token))

variable (row : Item)

def lock : Option Shared :=
  match w.getLock row.nodeID row.destination, w.getItem row.id with
  | none, some item =>
    if item.state.active ∧ item.nodeID = row.nodeID ∧ item.destination = row.destination then
      some { w with locks := ⟨row.nodeID, row.destination, .download row.id, .held⟩ :: w.locks }
    else none
  | _, _ => none

variable (owner : Owner)

def lockOther : Shared :=
  match w.getLock nodeID destination with
  | none => { w with locks := ⟨nodeID, destination, owner, .held⟩ :: w.locks }
  | some _ => w

def markCancelling : Shared :=
  { w with locks := w.locks.map fun lock =>
      if lock.key = (row.nodeID, row.destination) ∧ lock.owner = .download row.id then
        { lock with state := .cancelling }
      else lock }

def unlock : Shared :=
  match w.getLock nodeID destination with
  | none => w
  | some lock =>
    if lock.owner = owner then
      { w with locks := w.locks.filter fun lock => !(lock.key = (nodeID, destination) && lock.owner = owner) }
    else w

def quiesce : Shared := w.unlock row.nodeID row.destination (.download row.id)

def updateItem (f : Item → Item) : Shared :=
  { w with items := w.items.map fun item => if item.id = id then f item else item }

/-- A compare-and-set on state, command and transfer; the second component says whether it took effect. -/
def transition (new : ItemState) (code : Option String) : Shared × Bool :=
  match w.getItem row.id with
  | none => (w, false)
  | some item =>
    if item.nodeID = row.nodeID ∧ item.state = row.state ∧ item.state.terminal = false ∧
        item.commandID = row.commandID ∧ item.transferID = row.transferID ∧ (new = row.state ∨ row.state.allows new) then
      (w.updateItem row.id fun item => { item with state := new, errorCode := code.or row.errorCode }, true)
    else (w, false)

def bind (column : Item → Option Token) (set : Item → Token → Item) : Shared × Bool :=
  let drawn := { w with nextID := w.nextID + 1 }
  match w.getItem row.id with
  | none => (drawn, false)
  | some item =>
    if item.nodeID = row.nodeID ∧ item.state = row.state ∧ item.state.active ∧ column item = none ∧
        ∃ lock ∈ w.getLock item.nodeID item.destination, lock.owner = .download item.id ∧ lock.state = .held then
      (drawn.updateItem row.id (set · w.nextID), true)
    else (drawn, false)

def bindCommand : Shared × Bool :=
  w.bind row Item.commandID fun item token => { item with commandID := some token }

def bindTransfer : Shared × Bool :=
  w.bind row Item.transferID fun item token => { item with transferID := some token }

def interruptRun : Shared :=
  { w with items := w.items.map fun item =>
      if item.runID = runID ∧ item.state.terminal = false then { item with state := .interrupted } else item }

def send : Shared :=
  { w with sent := (id, token) :: w.sent, writers := (id, token) :: w.writers }

def finish : Shared :=
  { w with writers := w.writers.filter (·.2 ≠ token), ended := token :: w.ended }

theorem items_unlock (w : Shared) (nodeID : NodeID) (destination : Destination) (owner : Owner) :
    (w.unlock nodeID destination owner).items = w.items := by
  unfold unlock
  split
  · rfl
  · split <;> rfl

theorem getItem_updateItem {w : Shared} {target id : ItemID} {f : Item → Item} (hKey : ∀ item, (f item).id = item.id) :
    (w.updateItem target f).getItem id = (w.getItem id).map fun item => if item.id = target then f item else item := by
  refine Table.lookup_map fun item => ?_
  split
  · exact hKey item
  · rfl

/-- A transition takes no effect, or it moves exactly the stored row that it asks for. -/
theorem transition_cases (w : Shared) (row : Item) (new : ItemState) (code : Option String) :
    w.transition row new code = (w, false) ∨ ∃ item moved, w.getItem row.id = some item ∧ item.nodeID = row.nodeID ∧
      item.state.terminal = false ∧ w.transition row new code = (moved, true) ∧
      ∀ id, moved.getItem id =
        if id = row.id then some { item with state := new, errorCode := code.or row.errorCode } else w.getItem id := by
  unfold transition
  split
  · exact .inl rfl
  rename_i found hFound
  split
  next hCas =>
    refine .inr ⟨found, _, hFound, hCas.1, hCas.2.2.1, rfl, fun id => ?_⟩
    rw [getItem_updateItem (by exact fun _ => rfl)]
    split
    next hID => rw [hID, hFound, Option.map_some, if_pos (Table.key_of_lookup hFound)]
    next hID =>
      cases hPre : w.getItem id with
      | none => rfl
      | some other => exact congrArg some (if_neg fun h => hID ((Table.key_of_lookup hPre).symm.trans h))
  · exact .inl rfl

end Shared

end LocalModelWorks.Downloads
