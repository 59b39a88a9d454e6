import LocalModelWorks.Downloads.Ownership
import LocalModelWorks.Downloads.Service

/-!
# The lifecycle of an item

A handler takes the next state from a row that it read before. The trigger refuses an update
whose row is still the stored one and has no edge to the new state.
-/

namespace LocalModelWorks.Downloads

open Option

variable {s : State} {w w' : Shared} {id : ItemID} {row item : Item}

def Shared.refuses (w : Shared) (row : Item) (new : ItemState) : Bool :=
  (w.getItem row.id).any fun item => item.nodeID = row.nodeID && item.state = row.state && !item.state.terminal &&
    item.commandID = row.commandID && item.transferID = row.transferID && new ≠ row.state && !row.state.allows new

def Shared.interruptions (w : Shared) (runID : RunID) : List (Item × ItemState) :=
  (w.listItems runID).map (·, .interrupted)

def Acquisition.attempts : Acquisition → List (Item × ItemState)
  | .busy row | .toFailed row _ _ => [(row, .failed)]
  | .toChecking row => [(row, .checking)]
  | .toSucceeded row _ => [(row, .succeeded)]
  | .toTransferring row _ => [(row, .transferring)]
  | .toCancelling row => [(row, .cancelling)]
  | .toVerifying row => [(row, .verifying)]
  | _ => []

def Task.attempts (w : Shared) (reading : Reading) : Task → List (Item × ItemState)
  | .cancelRows (row :: _) => if row.state.active then [(row, .cancelling)] else []
  | .cancelFinish row _ | .settleWrite row | .lateFinish row => [(row, .cancelled)]
  | .disconnectRuns _ (runID :: _) _ => if reading.runCancelling then [] else w.interruptions runID
  | .reconcileRuns (runID :: _) _ seen => if runID ∈ seen then [] else w.interruptions runID
  | _ => []

def State.attempts (s : State) : Event → List (Item × ItemState)
  | .acquire id _ => (s.acquisitions id).attempts
  | .proceed taskID _ reading => (s.tasks taskID).toList.flatMap (·.attempts s.toShared reading)
  | .interrupt runID => s.interruptions runID
  | _ => []

def Holds (row : Item) (stages : List ItemState) : Prop := row.state ∈ stages ∨ row.state.terminal = true

theorem Holds.permits {stages : List ItemState} (h : Holds row stages) {new : ItemState}
    (hAllows : ∀ stage ∈ stages, stage.allows new = true) : w.refuses row new = false := by
  rw [Bool.eq_false_iff]
  intro hRefuses
  obtain ⟨item, _, hItem⟩ := (any_eq_true _ _).mp hRefuses
  simp only [Bool.and_eq_true, decide_eq_true_eq] at hItem
  obtain ⟨⟨⟨⟨⟨⟨_, hState⟩, hEnd⟩, _⟩, _⟩, _⟩, hEdge⟩ := hItem
  rw [hState] at hEnd
  rcases h with hStage | hFinal
  · rw [hAllows _ hStage] at hEdge
    cases hEdge
  · rw [hFinal] at hEnd
    cases hEnd

theorem permits_interruptions (runID : RunID) : ∀ a ∈ w.interruptions runID, w.refuses a.1 a.2 = false := by
  intro a ha
  obtain ⟨row, _, rfl⟩ := List.mem_map.mp ha
  have hHolds : Holds row [.pending, .checking, .transferring, .verifying, .cancelling] := by
    unfold Holds
    cases row.state <;> decide
  exact hHolds.permits (by dsimp only; decide)

namespace Acquisition

def Holding : Acquisition → Prop
  | .lock row | .toChecking row | .busy row => Holds row [.pending]
  | .inspect row | .bindCommand row | .toTransferring row _ => Holds row [.checking]
  | .toFailed row _ _ | .toSucceeded row _ => Holds row [.checking, .verifying]
  | .toVerifying row | .toCancelling row => Holds row [.transferring]
  | .verify row => Holds row [.verifying]
  | _ => True

def expects : Acquisition → List ItemState
  | .rereadChecking | .rereadBound _ => [.checking]
  | .answered _ => [.transferring, .cancelling]
  | .rereadVerifying => [.verifying]
  | _ => [.pending, .checking, .transferring, .verifying, .cancelling]

theorem Holding.permits {acquisition : Acquisition} (h : acquisition.Holding) :
    ∀ a ∈ acquisition.attempts, w.refuses a.1 a.2 = false := by
  intro a ha
  cases acquisition with
  | busy | toChecking | toFailed | toSucceeded | toTransferring | toVerifying | toCancelling =>
    cases List.mem_singleton.mp ha
    exact Holds.permits h (by dsimp only; decide)
  | _ => cases ha

theorem holding_reread {next : Item → Acquisition} (h : ∀ row, w.getItem id = some row → (next row).Holding) :
    (w.reread id next).Holding := by
  unfold Shared.reread
  split
  · exact trivial
  next row hRow => exact h row hRow

theorem Holds.widen {stages more : List ItemState} (h : Holds row stages) (hMore : stages ⊆ more) : Holds row more :=
  h.imp_left (@hMore _)

theorem Holding.step {acquisition : Acquisition} (h : acquisition.Holding) (answer : Answer)
    (hReads : ∀ row, w.getItem id = some row → Holds row acquisition.expects) :
    (acquisition.step w id answer).2.Holding := by
  cases acquisition with
  | lock | toChecking | toSucceeded | toTransferring | bindCommand | bindTransfer | dispatch | sending | fetch | copyPeer =>
    dsimp only [Acquisition.step]
    split <;> first | exact h | exact trivial
  | rereadChecking | rereadBound | rereadVerifying => exact holding_reread hReads
  | rereadTransferring command =>
    refine holding_reread fun row _ => ?_
    cases command <;> exact trivial
  | inspect row =>
    dsimp only [Acquisition.step]
    fun_cases afterInspect row answer.inspection
    all_goals first | exact trivial | exact h | exact Holds.widen h (by decide)
  | verify row =>
    dsimp only [Acquisition.step]
    fun_cases afterVerify row answer.inspection
    all_goals exact Holds.widen h (by decide)
  | answered ok =>
    refine holding_reread fun row hRow => ?_
    unfold afterAnswer
    split
    · exact trivial
    rename_i hOther
    have hTransferring : Holds row [.transferring] := by
      rcases hReads row hRow with hStage | hFinal
      · rcases List.mem_pair.mp hStage with hState | hState
        · exact .inl (List.mem_singleton.mpr hState)
        · exact absurd (.inl hState) hOther
      · exact .inr hFinal
    split
    · exact hTransferring
    · exact hTransferring
  | waiting row token reply => cases reply <;> exact trivial
  | _ => exact trivial

end Acquisition

namespace Task

def Holding : Task → Prop
  | .cancelMark row _ => row.state.active = false ∨ row.neverDispatched = false
  | .cancelRelease row _ | .cancelFinish row _ => row.state.active = false
  | .settleWrite row | .lateFinish row => row.state = .cancelling
  | _ => True

/-- `Cancel` reads the row again behind its transition. An active row must have been dispatched: then it goes
to the device and not straight to cancelled. -/
def finds (w : Shared) : Task → Bool
  | .cancelReread id _ => (w.getItem id).all fun row => !row.state.active || !row.neverDispatched
  | _ => true

theorem permits_cancelled (h : row.state.active = false) : w.refuses row .cancelled = false := by
  have hHolds : Holds row [.cancelling] := by
    unfold Holds
    cases hState : row.state <;> rw [hState] at h <;> first | decide | cases h
  exact hHolds.permits (by decide)

theorem Holding.permits {task : Task} (h : task.Holding) (reading : Reading) :
    ∀ a ∈ task.attempts w reading, w.refuses a.1 a.2 = false := by
  intro a ha
  cases task with
  | cancelFinish row rest | settleWrite row | lateFinish row =>
    cases List.mem_singleton.mp ha
    exact permits_cancelled (by first | exact h | rw [show row.state = .cancelling from h]; rfl)
  | cancelRows rows =>
    cases rows with
    | nil => cases ha
    | cons row rest =>
      dsimp only [attempts] at ha
      split at ha
      next hActive =>
        cases List.mem_singleton.mp ha
        have hHolds : Holds row [.pending, .checking, .transferring, .verifying] := by
          unfold Holds
          cases hState : row.state <;> rw [hState] at hActive <;> first | decide | cases hActive
        exact hHolds.permits (by dsimp only; decide)
      · cases ha
  | disconnectRuns nodeID todo parents =>
    cases todo with
    | nil => cases ha
    | cons runID todo =>
      dsimp only [attempts] at ha
      split at ha
      · cases ha
      · exact permits_interruptions runID a ha
  | reconcileRuns runs nodes seen =>
    cases runs with
    | nil => cases ha
    | cons runID runs =>
      dsimp only [attempts] at ha
      split at ha
      · cases ha
      · exact permits_interruptions runID a ha
  | _ => cases ha

theorem Holding.step {task : Task} (h : task.Holding) (hFinds : task.finds w = true) (reading : Reading) :
    (∀ next ∈ (task.step w reading).task, next.Holding) ∧ ∀ next ∈ (task.step w reading).spawned, next.Holding := by
  fun_cases Task.step w reading task
  all_goals refine ⟨fun next hNext => ?_, fun next hNext => by cases hNext <;> exact trivial⟩
  all_goals try (cases hNext <;> exact trivial)
  next row rest _ hState =>
    cases hNext
    exact .inl (hState ▸ rfl)
  next id rest row hRow =>
    cases hNext
    rw [finds, hRow] at hFinds
    simpa [Holding] using hFinds
  next row rest hDispatched =>
    cases hNext
    exact h.resolve_right (by simp [hDispatched])
  · cases hNext
    exact h
  · split at hNext <;> cases hNext
    exact trivial
  · split at hNext <;> cases hNext
    exact trivial
  · obtain ⟨latest, _, hLatest⟩ := bind_eq_some_iff.mp hNext
    split at hLatest
    next hState =>
      cases hLatest
      exact hState
    · cases hLatest
  · obtain ⟨row, _, hRow⟩ := bind_eq_some_iff.mp hNext
    unfold afterLate at hRow
    split at hRow <;> cases hRow
    exact trivial
  split at hNext
  next hState =>
    cases hNext
    exact hState
  · cases hNext

end Task

def ReadsAsLeft (s : State) : Event → Prop
  | .list id => ∀ row ∈ s.getItem id, Holds row [.pending]
  | .acquire id _ => ∀ row ∈ s.getItem id, Holds row (s.acquisitions id).expects
  | .proceed taskID _ _ => ∀ task ∈ s.tasks taskID, task.finds s.toShared = true
  | _ => True

instance (row : Item) (stages : List ItemState) : Decidable (Holds row stages) :=
  inferInstanceAs (Decidable (_ ∨ _))

instance (s : State) (e : Event) : Decidable (ReadsAsLeft s e) := by
  unfold ReadsAsLeft
  split <;> infer_instance

structure AllHolding (s : State) : Prop where
  acquisitions : ∀ id, (s.acquisitions id).Holding
  tasks : ∀ taskID, ∀ task ∈ s.tasks taskID, task.Holding

theorem AllHolding.setTask (hs : AllHolding s) {taskID : TaskID} {new : Option Task} (hNew : ∀ task ∈ new, task.Holding)
    (w : Shared) : AllHolding ({ s with toShared := w }.setTask taskID new) where
  acquisitions := hs.acquisitions
  tasks := (Function.forall_update_iff s.tasks fun _ entry => ∀ task ∈ entry, task.Holding).mpr
    ⟨hNew, fun other _ => hs.tasks other⟩

theorem AllHolding.setAcquisition (hs : AllHolding s) {new : Acquisition} (hNew : new.Holding) (w : Shared) :
    AllHolding ({ s with toShared := w }.setAcquisition id new) where
  acquisitions := (Function.forall_update_iff s.acquisitions fun _ point => point.Holding).mpr
    ⟨hNew, fun other _ => hs.acquisitions other⟩
  tasks := hs.tasks

theorem holding_deliver {acquisition : Acquisition} (h : acquisition.Holding) (ok : Bool) :
    (acquisition.deliver ok).Holding := by
  fun_cases Acquisition.deliver ok acquisition
  all_goals first | exact trivial | exact h

theorem AllHolding.dropWaiters (hs : AllHolding s) (nodeID : NodeID) (affected : List ItemID) :
    AllHolding (s.dropWaiters nodeID affected) where
  acquisitions id := by
    dsimp only [State.dropWaiters]
    split
    · exact holding_deliver (hs.acquisitions id) false
    · exact hs.acquisitions id
  tasks taskID task hTask := by
    obtain ⟨old, hOld, rfl⟩ := map_eq_some_iff.mp hTask
    have hHolding := hs.tasks taskID old hOld
    fun_cases Task.dropped nodeID affected old
    all_goals first | exact trivial | exact hHolding

theorem AllHolding.proceed (hs : AllHolding s) {taskID : TaskID} (fresh : TaskID) (reading : Reading)
    (hFinds : ∀ task ∈ s.tasks taskID, task.finds s.toShared = true) : AllHolding (s.proceed taskID fresh reading) := by
  unfold State.proceed
  split
  · exact hs
  rename_i task hTask
  obtain ⟨hNext, hSpawned⟩ := (hs.tasks taskID task hTask).step (hFinds task hTask) reading
  have hMoved {moved : State} (h : AllHolding moved) : AllHolding ({ moved with
      toShared := (task.step s.toShared reading).shared }.setTask taskID (task.step s.toShared reading).task) :=
    h.setTask hNext _
  dsimp only
  split
  · split
    · exact hMoved (hs.dropWaiters _ _)
    · exact hMoved hs
  next spawned hSome =>
    rw [hSome] at hSpawned
    split
    · exact (hMoved (hs.dropWaiters _ _)).setTask hSpawned _
    · exact (hMoved hs).setTask hSpawned _

theorem AllHolding.next (hs : AllHolding s) {e : Event} (hOn : system.enabled s e) (hGuard : ReadsAsLeft s e) :
    AllHolding (next s e) := by
  cases e with
  | create | interrupt | lockOther | unlockOther => exact ⟨hs.acquisitions, hs.tasks⟩
  | list id =>
    change AllHolding (s.list id)
    unfold State.list
    split
    · exact hs
    next row hRow =>
      have hHolding : (Acquisition.lock row).Holding := hGuard row hRow
      exact hs.setAcquisition hHolding _
  | acquire id answer => exact hs.setAcquisition ((hs.acquisitions id).step answer hGuard) _
  | cancelContext id =>
    refine hs.setAcquisition ?_ _
    fun_cases Acquisition.cancelContext (s.acquisitions id)
    all_goals exact trivial
  | call taskID task =>
    refine hs.setTask (fun new hNew => ?_) _
    cases hNew
    cases task with
    | cancel | reconnect | disconnect | reconcile => exact trivial
    | _ => cases hOn.2
  | proceed taskID fresh reading => exact hs.proceed fresh reading hGuard
  | abandon taskID => exact hs.setTask (fun _ hNew => by cases hNew) _
  | result id token ok matching fresh =>
    change AllHolding (s.onResult id token ok matching fresh)
    unfold State.onResult
    split
    · exact hs.setAcquisition (holding_deliver (hs.acquisitions id) ok) _
    · exact hs.setTask (fun new hNew => by cases hNew; exact trivial) _
  | cancelResult taskID ok =>
    change AllHolding (s.onCancelResult taskID ok)
    unfold State.onCancelResult
    split
    · exact hs.setTask (fun new hNew => by cases hNew; exact trivial) _
    · exact hs
  | restart =>
    refine ⟨fun id => ?_, fun _ _ hTask => by cases hTask⟩
    dsimp only [Downloads.next, State.restart]
    split
    · exact trivial
    · exact trivial

def Task.isLate : Task → Bool
  | .late .. | .lateRelease _ | .lateFinish _ => true
  | _ => false

/-- No update is refused by the trigger. The thread of a late result leaves the ended items as they are, and
releases nothing but the lock of the item that is bound to the id of the result. -/
structure Lawful (s : State) : Prop where
  permitted : ∀ e, ∀ a ∈ s.attempts e, s.refuses a.1 a.2 = false
  ended : ∀ task : Task, task.isLate = true → ∀ reading id item, s.getItem id = some item → item.state.terminal = true →
    (task.step s.toShared reading).shared.getItem id = some item
  late : ∀ reading token matching, ((Task.late token matching).step s.toShared reading).shared = s.toShared ∧
    ∀ row, ((Task.late token matching).step s.toShared reading).task = some (.lateRelease row) → row.binds token
  released : ∀ reading row, ∀ lock ∈ s.locks, lock ∉ ((Task.lateRelease row).step s.toShared reading).shared.locks →
    lock.owner = .download row.id
  finished : ∀ reading row, ((Task.lateFinish row).step s.toShared reading).shared.locks = s.locks

theorem AllHolding.lawful (hs : AllHolding s) : Lawful s where
  permitted e a ha := by
    cases e with
    | acquire id answer => exact (hs.acquisitions id).permits a ha
    | proceed taskID fresh reading =>
      obtain ⟨task, hTask, hTry⟩ := List.mem_flatMap.mp ha
      exact (hs.tasks taskID task (mem_toList.mp hTask)).permits reading a hTry
    | interrupt runID => exact permits_interruptions runID a ha
    | _ => cases ha
  ended task hLate reading id item hItem hEnd := by
    cases task with
    | late token matching => exact hItem
    | lateRelease row =>
      change Table.lookup Item.id (s.unlock row.nodeID row.destination (.download row.id)).items id = some item
      rw [s.items_unlock]
      exact hItem
    | lateFinish row =>
      change (s.transition row .cancelled none).1.getItem id = some item
      rcases s.transition_cases row .cancelled none with hSame | ⟨found, moved, hFound, _, hActive, hMoved, hGet⟩
      · rw [hSame]
        exact hItem
      rw [hMoved, hGet id, if_neg]
      · exact hItem
      rintro rfl
      cases hFound.symm.trans hItem
      rw [hEnd] at hActive
      cases hActive
    | _ => cases hLate
  late reading token matching := by
    refine ⟨rfl, fun row hRow => ?_⟩
    obtain ⟨found, hFound, hLate⟩ := bind_eq_some_iff.mp hRow
    unfold Task.afterLate at hLate
    split at hLate
    · cases hLate
      rcases or_eq_some_iff.mp hFound with hCmd | ⟨_, hTransfer⟩
      · exact .inl (by simpa using List.find?_some hCmd)
      · exact .inr (by simpa using List.find?_some hTransfer)
    · cases hLate
  released reading row lock hLock hGone := by
    dsimp only [Task.step, Shared.quiesce, Shared.unlock] at hGone
    split at hGone
    · exact absurd hLock hGone
    split at hGone
    · by_contra hOwner
      exact hGone (List.mem_filter.mpr ⟨hLock, by simp [hOwner]⟩)
    · exact absurd hLock hGone
  finished reading row := by
    dsimp only [Task.step, Shared.transition]
    split
    · rfl
    · split <;> rfl

theorem item_lifecycle_lawful (hReach : system.Reachable ReadsAsLeft s) : Lawful s := by
  have hHolding : AllHolding s := by
    refine hReach.invariant ?_ fun t e hs hOn hGuard => hs.next hOn hGuard
    rintro t rfl
    exact ⟨fun _ => trivial, fun _ _ hTask => by cases hTask⟩
  exact hHolding.lawful

def lifecycleItem : Item := ⟨0, 0, "a", "/m", .downloadOrigin, .pending, none, none, none⟩

def failing : Answer := ⟨.failed, true, true⟩

def takenUp : List Event := [.create [lifecycleItem], .list 0, .acquire 0 failing, .acquire 0 failing]

/-- A fetch runs until it waits for its result, which comes when the item is interrupted and nobody waits. -/
def answeredLate : List Event :=
  [.create [lifecycleItem], .list 0] ++ List.replicate 11 (.acquire 0 ⟨.missing true, true, true⟩) ++
    [.interrupt 0, .restart, .result 0 0 true true 1]

def interruptedItem : Item := { lifecycleItem with state := .interrupted, commandID := some 0 }

theorem item_lifecycle_lawful_late :
    (system.exec State.empty answeredLate).items = [interruptedItem] ∧
      (system.exec State.empty answeredLate).locks = [⟨"a", "/m", .download 0, .held⟩] ∧
      (system.exec State.empty answeredLate).tasks 1 = some (.late 0 true) ∧
      (system.exec State.empty answeredLate).attempts (.interrupt 0) = [(interruptedItem, .interrupted)] ∧
      Lawful (system.exec State.empty answeredLate) := by
  have hMay : system.Allowed ReadsAsLeft State.empty answeredLate := by decide +kernel
  exact ⟨by decide +kernel, by decide +kernel, by decide +kernel, by decide +kernel,
    item_lifecycle_lawful (.of_allowed rfl hMay)⟩

def cancelledMeanwhile : List Event :=
  takenUp ++ [.call 0 (.cancel 0), .proceed 0 1 ⟨true, fun _ => true, true⟩, .proceed 0 1 ⟨true, fun _ => true, true⟩,
    .acquire 0 failing, .acquire 0 failing]

theorem cancelling_item_attempted_failed : ¬ ∀ s, system.Reachable (fun _ _ => True) s → Lawful s := by
  intro h
  have hMay : system.Allowed (fun _ _ => True) State.empty cancelledMeanwhile := by decide +kernel
  have hLawful := (h _ (.of_allowed rfl hMay)).permitted (.acquire 0 failing)
    ({ lifecycleItem with state := .cancelling }, .failed) (by decide +kernel)
  exact absurd hLawful (by decide +kernel)

end LocalModelWorks.Downloads
