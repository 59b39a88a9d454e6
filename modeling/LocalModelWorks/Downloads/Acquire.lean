import LocalModelWorks.Downloads.Store

/-!
# The acquisition of one item

`acquireItem` as a thread: between two of its points it executes one statement or
one send, with the row it read last as its local. The answers it gets from outside
(inspections, preparations, sends) are inputs of the step.
-/

namespace LocalModelWorks.Downloads

/-- What an inspection of the destination finds: an error, the verified resource and whether its
placement could be recorded, or that it is missing and whether there is room for it. -/
inductive Inspection
  | failed
  | available (recorded : Bool)
  | missing (room : Bool)
  deriving DecidableEq

structure Answer where
  inspection : Inspection
  prepared : Bool
  accepted : Bool
  deriving DecidableEq

/-- The points of `acquireItem`. A thread from `dispatch` to `waiting` has its waiter installed, and
`reply` is what the waiter's channel holds. -/
inductive Acquisition
  | idle
  | lock (row : Item)
  | busy (row : Item)
  | toChecking (row : Item)
  | rereadChecking
  | inspect (row : Item)
  | toFailed (row : Item) (code : String) (proof : QuiescenceProof)
  | toSucceeded (row : Item) (proof : QuiescenceProof)
  | release (row : Item) (proof : QuiescenceProof)
  | bindCommand (row : Item)
  | rereadBound (command : Option Token)
  | toTransferring (row : Item) (command : Option Token)
  | rereadTransferring (command : Option Token)
  | fetch (row : Item) (token : Token)
  | copyPeer (row : Item)
  | bindTransfer (row : Item)
  | dispatch (row : Item) (token : Token) (reply : Option Bool)
  | sending (row : Item) (token : Token) (reply : Option Bool)
  | waiting (row : Item) (token : Token) (reply : Option Bool)
  | answered (ok : Bool)
  | toCancelling (row : Item)
  | toVerifying (row : Item)
  | rereadVerifying
  | verify (row : Item)
  | done
  deriving DecidableEq

namespace Acquisition

variable (row : Item)

def afterInspect : Inspection → Acquisition
  | .failed => .toFailed row "download.inspect_failed" .neverDispatched
  | .available true => .toSucceeded row .neverDispatched
  | .available false => .toFailed row "download.observation_failed" .neverDispatched
  | .missing room =>
    if row.action = .reuse then .toFailed row "download.plan_changed" .neverDispatched
    else if room = false then .toFailed row "download.storage_changed" .neverDispatched
    else if row.action = .peerCopy then .rereadBound none
    else .bindCommand row

def afterVerify : Inspection → Acquisition
  | .available true => .toSucceeded row .terminalAck
  | .available false => .toFailed row "download.observation_failed" .terminalAck
  | _ => .toFailed row "download.verification_failed" .terminalAck

def afterAnswer (ok : Bool) : Acquisition :=
  if row.state = .cancelling ∨ row.state = .cancelled ∨ row.state = .interrupted then .done
  else if ok then .toVerifying row
  else .toCancelling row

def afterTransferring : Option Token → Acquisition
  | some token => .fetch row token
  | none => .copyPeer row

end Acquisition

def Shared.mayDispatch (w : Shared) (row : Item) (token : Token) : Bool :=
  match w.getItem row.id with
  | none => false
  | some item =>
    item.state = .transferring && (if row.action = .peerCopy then item.transferID else item.commandID) = some token

def Shared.reread (w : Shared) (id : ItemID) (next : Item → Acquisition) : Acquisition :=
  match w.getItem id with
  | none => .done
  | some row => next row

namespace Acquisition

def step (w : Shared) (id : ItemID) (answer : Answer) : Acquisition → Shared × Acquisition
  | .idle => (w, .idle)
  | .lock row =>
    match w.lock row with
    | some locked => (locked, .toChecking row)
    | none => (w, .busy row)
  | .busy row => ((w.transition row .failed (some "download.destination_busy")).1, .done)
  | .toChecking row =>
    match w.transition row .checking none with
    | (moved, true) => (moved, .rereadChecking)
    | (_, false) => (w, .release row .neverDispatched)
  | .rereadChecking => (w, w.reread id .inspect)
  | .inspect row => (w, afterInspect row answer.inspection)
  | .toFailed row code proof => ((w.transition row .failed (some code)).1, .release row proof)
  | .toSucceeded row proof =>
    match w.transition row .succeeded none with
    | (moved, true) => (moved, .release row proof)
    | (_, false) => (w, .done)
  | .release row _ => (w.quiesce row, .done)
  | .bindCommand row =>
    match w.bindCommand row with
    | (bound, true) => (bound, .rereadBound (some w.nextID))
    | (drawn, false) => (drawn, .release row .neverDispatched)
  | .rereadBound command => (w, w.reread id (.toTransferring · command))
  | .toTransferring row command =>
    match w.transition row .transferring none with
    | (moved, true) => (moved, .rereadTransferring command)
    | (_, false) => (w, .done)
  | .rereadTransferring command => (w, w.reread id (afterTransferring · command))
  | .fetch row token => (w, if answer.prepared then .dispatch row token none else .answered false)
  | .copyPeer row => (w, if answer.prepared then .bindTransfer row else .answered false)
  | .bindTransfer row =>
    match w.bindTransfer row with
    | (bound, true) => (bound, .dispatch row w.nextID none)
    | (drawn, false) => (drawn, .answered false)
  | .dispatch row token reply =>
    if w.mayDispatch row token then ({ w with dispatchMu := some id }, .sending row token reply)
    else (w, .answered false)
  | .sending row token reply =>
    if answer.accepted then ({ w.send id token with dispatchMu := none }, .waiting row token reply)
    else ({ w with dispatchMu := none }, .answered false)
  | .waiting row token none => (w, .waiting row token none)
  | .waiting row _ (some ok) => (w, .answered (ok && (row.action ≠ .peerCopy || answer.inspection ≠ .failed)))
  | .answered ok => (w, w.reread id (afterAnswer · ok))
  | .toCancelling row => ((w.transition row .cancelling (some "download.acquisition_failed")).1, .done)
  | .toVerifying row => ((w.transition row .verifying none).1, .rereadVerifying)
  | .rereadVerifying => (w, w.reread id .verify)
  | .verify row => (w, afterVerify row answer.inspection)
  | .done => (w, .done)

def ready (w : Shared) : Acquisition → Bool
  | .idle | .done | .waiting _ _ none => false
  | .dispatch .. => w.dispatchMu.isNone
  | _ => true

def waiter : Acquisition → Option Token
  | .dispatch _ token _ | .sending _ token _ | .waiting _ token _ => some token
  | _ => none

def deliver (ok : Bool) : Acquisition → Acquisition
  | .dispatch row token none => .dispatch row token (some ok)
  | .sending row token none => .sending row token (some ok)
  | .waiting row token none => .waiting row token (some ok)
  | acquisition => acquisition

/-- The context of a call ends: no later statement takes effect. A thread that holds `dispatchMu` sends
first. -/
def cancelContext : Acquisition → Acquisition
  | .idle => .idle
  | .sending row token reply => .sending row token reply
  | _ => .done

end Acquisition

end LocalModelWorks.Downloads
