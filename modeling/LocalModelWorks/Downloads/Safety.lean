import LocalModelWorks.Downloads.Calls

/-!
# Writers own their destination

Whatever the acquisitions and the calls interleave to, a FETCH or transfer START
that nothing has ended runs under the destination lock of its item, as long as no
call releases an item as never dispatched after the item was bound.
-/

namespace LocalModelWorks.Downloads

variable {s : State} {w' : Shared} {id : ItemID} {token : Token}

structure Invariant (s : State) : Prop where
  sound : Sound s.toShared
  acquisitions : ∀ id, (s.acquisitions id).Ok s.toShared id
  tasks : ∀ taskID task, s.tasks taskID = some task → task.Ok s.toShared

theorem Invariant.effect (hs : Invariant s) (h : Effect none s.toShared w') : Invariant { s with toShared := w' } where
  sound := h.sound hs.sound
  acquisitions id := (hs.acquisitions id).effect hs.sound h nofun
  tasks taskID task hTask := (hs.tasks taskID task hTask).effect h

theorem Invariant.setTask (hs : Invariant s) {taskID : TaskID} {new : Option Task}
    (hNew : ∀ task, new = some task → task.Ok s.toShared) : Invariant (s.setTask taskID new) where
  sound := hs.sound
  acquisitions := hs.acquisitions
  tasks := (Function.forall_update_iff s.tasks fun _ entry => ∀ task, entry = some task → task.Ok s.toShared).mpr
    ⟨hNew, fun other _ => hs.tasks other⟩

theorem Invariant.setAcquisition (hs : Invariant s) {new : Acquisition} (hNew : new.Ok s.toShared id) :
    Invariant (s.setAcquisition id new) where
  sound := hs.sound
  acquisitions := (Function.forall_update_iff s.acquisitions fun other point => point.Ok s.toShared other).mpr
    ⟨hNew, fun other _ => hs.acquisitions other⟩
  tasks := hs.tasks

theorem Invariant.acquire (hs : Invariant s) (id : ItemID) (answer : Answer) : Invariant (s.acquire id answer) := by
  obtain ⟨hEffect, hOk⟩ := (hs.acquisitions id).step hs.sound answer
  refine ⟨hEffect.sound hs.sound, ?_, fun taskID task hTask => (hs.tasks taskID task hTask).effect hEffect⟩
  refine (Function.forall_update_iff s.acquisitions fun other point => point.Ok _ other).mpr ⟨hOk, fun other hOther => ?_⟩
  exact (hs.acquisitions other).effect hs.sound hEffect fun hActor => hOther (Option.some.inj hActor).symm

theorem ok_deliver {w : Shared} {acquisition : Acquisition} {ok : Bool} (hOk : acquisition.Ok w id)
    (hHeard : ∀ token, acquisition.waiter = some token → ok = true → token ∈ w.ended) :
    (acquisition.deliver ok).Ok w id := by
  have hReplied token hWaiter : Replied w token (some ok) :=
    fun hReply => hHeard token hWaiter (Option.some.inj hReply)
  cases acquisition with
  | dispatch row token reply =>
    cases reply with
    | none => exact ⟨hOk.1, hReplied token rfl⟩
    | some _ => exact hOk
  | sending row token reply =>
    cases reply with
    | none => exact ⟨hOk.1, hReplied token rfl⟩
    | some _ => exact hOk
  | waiting row token reply =>
    cases reply with
    | none => exact ⟨hOk.1, hReplied token rfl⟩
    | some _ => exact hOk
  | _ => exact hOk

theorem ok_dropped {w : Shared} {task : Task} (hOk : task.Ok w) (nodeID : NodeID) (affected : List ItemID) :
    (task.dropped nodeID affected).Ok w := by
  cases task with
  | awaitCancel row target reply =>
    cases reply with
    | none =>
      dsimp only [Task.dropped]
      split
      · exact ⟨hOk.1, nofun⟩
      · exact hOk
    | some _ => exact hOk
  | _ => exact hOk

section

variable (hs : Invariant s)
include hs

namespace Invariant

theorem dropWaiters (nodeID : NodeID) (affected : List ItemID) :
    Invariant (s.dropWaiters nodeID affected) where
  sound := hs.sound
  acquisitions id := by
    dsimp only [State.dropWaiters]
    split
    · exact ok_deliver (hs.acquisitions id) fun _ _ hReply => by cases hReply
    · exact hs.acquisitions id
  tasks taskID task hTask := by
    obtain ⟨old, hOld, rfl⟩ := Option.map_eq_some_iff.mp hTask
    exact ok_dropped (hs.tasks taskID old hOld) nodeID affected

theorem outcome (taskID : TaskID) {outcome : Outcome} (h : Task.Leaves s.toShared outcome) :
    Invariant ({ s with toShared := outcome.shared }.setTask taskID outcome.task) :=
  (hs.effect h.effect).setTask h.task

theorem spawn (taskID fresh : TaskID) {outcome : Outcome} {spawned : Task}
    (h : Task.Leaves s.toShared outcome) (hSpawned : outcome.spawned = some spawned) :
    Invariant (({ s with toShared := outcome.shared }.setTask taskID outcome.task).setTask fresh (some spawned)) := by
  refine (hs.outcome taskID h).setTask fun new hNew => ?_
  cases hNew
  exact h.spawned spawned hSpawned

theorem proceed {taskID : TaskID} (fresh : TaskID) (reading : Reading)
    (hUnbound : ∀ task ∈ s.tasks taskID, task.releasesUnbound s.toShared = true) :
    Invariant (s.proceed taskID fresh reading) := by
  unfold State.proceed
  split
  · exact hs
  rename_i task hTask
  have hLeaves := (hs.tasks taskID task hTask).step hs.sound (hUnbound task hTask) reading
  dsimp only
  -- Only a disconnect touches the waiters, and then it leaves the tables alone.
  split
  · split
    · exact (hs.dropWaiters _ _).outcome taskID hLeaves
    · exact hs.outcome taskID hLeaves
  next spawned hSpawned =>
    split
    · exact (hs.dropWaiters _ _).spawn taskID fresh hLeaves hSpawned
    · exact hs.spawn taskID fresh hLeaves hSpawned

theorem onResult (hSent : (id, token) ∈ s.sent) (ok matching : Bool) (fresh : TaskID) :
    Invariant (s.onResult id token ok matching fresh) := by
  have hHeard : Invariant { s with toShared := s.finish token } := hs.effect (.finish token ⟨id, hSent⟩)
  unfold State.onResult
  split
  next hWaiter =>
    refine hHeard.setAcquisition (ok_deliver (hHeard.acquisitions id) fun other hOther _ => ?_)
    have hSame : other = token := Option.some.inj (hOther.symm.trans hWaiter)
    rw [hSame]
    exact List.mem_cons_self
  · refine hHeard.setTask fun task hTask => ?_
    cases hTask
    exact List.mem_cons_self

theorem onCancelResult {taskID : TaskID} {ok : Bool}
    (hAwaits : ∃ task ∈ s.tasks taskID, task.awaits s.toShared ok = true) :
    Invariant (s.onCancelResult taskID ok) := by
  obtain ⟨task, hTask, hAwaits⟩ := hAwaits
  unfold State.onCancelResult
  split
  next row target reply hWait =>
    obtain rfl : task = .awaitCancel row target reply := Option.some.inj (hTask.symm.trans hWait)
    obtain ⟨hBinds, _⟩ := hs.tasks taskID _ hTask
    cases ok with
    | false =>
      refine hs.setTask fun new hNew => ?_
      cases hNew
      exact ⟨hBinds, nofun⟩
    | true =>
      have hSent : ∃ id, (id, target) ∈ s.sent := by
        cases reply with
        | some _ => cases hAwaits
        | none =>
          obtain ⟨⟨sender, sentToken⟩, hMem, hToken⟩ := List.any_eq_true.mp hAwaits
          cases of_decide_eq_true hToken
          exact ⟨sender, hMem⟩
      have hHeard : Invariant { s with toShared := s.finish target } := hs.effect (.finish target hSent)
      refine hHeard.setTask fun new hNew => ?_
      cases hNew
      exact ⟨hBinds, fun _ => List.mem_cons_self⟩
  · exact hs

end Invariant

end

def ReleasesUnbound (s : State) : Event → Prop
  | .proceed taskID _ _ => ∀ task ∈ s.tasks taskID, task.releasesUnbound s.toShared = true
  | _ => True

instance (s : State) (e : Event) : Decidable (ReleasesUnbound s e) :=
  match e with
  | .proceed taskID _ _ => inferInstanceAs (Decidable (∀ task ∈ s.tasks taskID, task.releasesUnbound s.toShared = true))
  | .create .. | .list .. | .acquire .. | .cancelContext .. | .call .. | .abandon .. | .result .. | .cancelResult ..
  | .interrupt .. | .lockOther .. | .unlockOther .. | .restart => inferInstanceAs (Decidable True)

theorem Invariant.next (hs : Invariant s) {e : Event} (hOn : system.enabled s e) (hGuard : ReleasesUnbound s e) :
    Invariant (next s e) := by
  cases e with
  | create items =>
    refine hs.effect (.create items (fun item hItem => ?_) hOn.2)
    obtain ⟨hNew, hFresh⟩ := hOn.1 item hItem
    simp only [Item.isFresh, Bool.and_eq_true, decide_eq_true_eq] at hFresh
    exact ⟨hNew, hFresh.1.2, hFresh.2⟩
  | list id =>
    change Invariant (s.list id)
    unfold State.list
    split
    · exact hs
    rename_i row hRow
    have hIdle := hs.acquisitions id
    rw [show s.acquisitions id = .idle from hOn] at hIdle
    exact hs.setAcquisition ⟨mine_of_getItem hRow, hIdle⟩
  | acquire id answer => exact hs.acquire id answer
  | cancelContext id =>
    refine hs.setAcquisition ?_
    have hOk := hs.acquisitions id
    cases hPoint : s.acquisitions id with
    | idle | sending =>
      rw [hPoint] at hOk
      exact hOk
    | _ => exact trivial
  | call taskID task =>
    refine hs.setTask fun new hNew => ?_
    cases hNew
    obtain ⟨_, hEntry⟩ := hOn
    cases task with
    | cancel | reconnect | disconnect | reconcile => exact trivial
    | _ => cases hEntry
  | proceed taskID fresh reading => exact hs.proceed fresh reading hGuard
  | abandon taskID => exact hs.setTask fun _ hNew => by cases hNew
  | result id token ok matching fresh => exact hs.onResult hOn.1 ok matching fresh
  | cancelResult taskID ok => exact hs.onCancelResult hOn
  | interrupt runID => exact hs.effect (interruptRun_effect _ runID)
  | lockOther nodeID destination owner => exact hs.effect (lockOther_effect _ nodeID destination owner)
  | unlockOther nodeID destination owner =>
    refine hs.effect (unlock_effect nodeID destination fun id token hOwner _ => ?_)
    have hOther : owner.isDownload = false := hOn
    rw [hOwner] at hOther
    cases hOther
  | restart =>
    have hQuiet : Effect none s.toShared { s.toShared with dispatchMu := none } := .quiet none _ (Nat.le_refl _)
    have hRest := hs.effect hQuiet
    refine ⟨hRest.sound, fun id => ?_, fun taskID task hTask => by cases hTask⟩
    dsimp only [Downloads.next, State.restart]
    split
    next hIdle =>
      have hOk := hRest.acquisitions id
      rw [show s.acquisitions id = .idle from hIdle] at hOk
      exact hOk
    · exact trivial

theorem invariant_empty : Invariant State.empty where
  sound :=
    { keys := List.nodup_nil
      kinds := fun _ _ h => by cases h
      drawn := fun _ _ ⟨_, h, _⟩ => by cases h
      owner := fun _ _ _ ⟨_, h, _⟩ => by cases h
      locked := fun _ _ _ h => by cases h
      bound := fun _ _ h => by cases h
      writing := fun _ _ h => by cases h
      heard := fun _ h => by cases h }
  acquisitions id token := fun ⟨_, h, _⟩ => by cases h
  tasks _ _ h := by cases h

structure OwnsDestinations (s : State) : Prop where
  locked : ∀ id token, (id, token) ∈ s.writers →
    ∃ item, s.getItem id = some item ∧
      ∃ lock, s.getLock item.nodeID item.destination = some lock ∧ lock.owner = .download id
  single : ∀ id token item other otherToken otherItem, (id, token) ∈ s.writers → (other, otherToken) ∈ s.writers →
    s.getItem id = some item → s.getItem other = some otherItem → item.nodeID = otherItem.nodeID →
    item.destination = otherItem.destination → other = id ∧ otherToken = token

theorem Sound.locked_of_writer (hs : Sound s.toShared) (hWriter : (id, token) ∈ s.writers) :
    ∃ item, s.getItem id = some item ∧
      ∃ lock, s.getLock item.nodeID item.destination = some lock ∧ lock.owner = .download id := by
  obtain ⟨⟨item, hItem, hBinds⟩, hLive⟩ := hs.writing id token hWriter
  obtain ⟨lock, hLock, hOwner⟩ := hs.locked id item token hItem hBinds hLive
  exact ⟨item, hItem, lock, hLock, id_of_getItem hItem ▸ hOwner⟩

theorem Sound.ownsDestinations (hs : Sound s.toShared) : OwnsDestinations s where
  locked _ _ hWriter := hs.locked_of_writer hWriter
  single id token item other otherToken otherItem hWriter hOther hItem hOtherItem hNode hDest := by
    obtain ⟨item', hItem', lock, hLock, hOwner⟩ := hs.locked_of_writer hWriter
    obtain ⟨otherItem', hOtherItem', otherLock, hOtherLock, hOtherOwner⟩ := hs.locked_of_writer hOther
    obtain rfl : item' = item := Option.some.inj (hItem'.symm.trans hItem)
    obtain rfl : otherItem' = otherItem := Option.some.inj (hOtherItem'.symm.trans hOtherItem)
    rw [← hNode, ← hDest, hLock] at hOtherLock
    cases hOtherLock
    obtain rfl : id = other := Owner.download.inj (hOwner.symm.trans hOtherOwner)
    exact ⟨rfl, hs.binds_unique (hs.writing id token hWriter).1 (hs.writing id otherToken hOther).1⟩

theorem writers_own_destinations (hReach : system.Reachable ReleasesUnbound s) : OwnsDestinations s := by
  have hInv : Invariant s := by
    refine hReach.invariant ?_ fun t e hs hOn hGuard => hs.next hOn hGuard
    rintro t rfl
    exact invariant_empty
  exact hInv.sound.ownsDestinations

def granted : Answer := ⟨.missing true, true, true⟩

def originItem (id : ItemID) : Item := ⟨id, id, "a", "/m", .downloadOrigin, .pending, none, none, none⟩

def acquires (id : ItemID) (count : Nat) : List Event := List.replicate count (.acquire id granted)

def lateReconnect : List Event :=
  [.create [originItem 0], .list 0] ++ acquires 0 11 ++
    [.call 0 (.reconnect "a"), .proceed 0 1 ⟨false, fun _ => true, true⟩, .proceed 0 1 ⟨false, fun _ => true, true⟩]

theorem writers_own_destinations_late_reconnect :
    (system.exec State.empty lateReconnect).writers = [(0, 0)] ∧ OwnsDestinations (system.exec State.empty lateReconnect) := by
  have hMay : system.Allowed ReleasesUnbound State.empty lateReconnect := by decide +kernel
  exact ⟨by decide +kernel, writers_own_destinations (.of_allowed rfl hMay)⟩

def staleReconnect : List Event :=
  [.create [originItem 0, originItem 1], .list 0] ++ acquires 0 3 ++
    [.call 0 (.reconnect "a"), .proceed 0 1 ⟨false, fun _ => true, true⟩, .proceed 0 1 ⟨false, fun _ => true, true⟩] ++
    acquires 0 2 ++ [.proceed 0 1 ⟨false, fun _ => true, true⟩] ++ acquires 0 6 ++ [.list 1] ++ acquires 1 11

theorem stale_reconnect_admits_second_writer : ¬ ∀ s, system.Reachable (fun _ _ => True) s → OwnsDestinations s := by
  intro h
  have hMay : system.Allowed (fun _ _ => True) State.empty staleReconnect := by decide +kernel
  have hOwns := h _ (.of_allowed rfl hMay)
  have hWriters : (system.exec State.empty staleReconnect).writers = [(1, 1), (0, 0)] := by decide +kernel
  -- Both FETCH commands are outstanding at the same node and destination.
  have hSame := hOwns.single 0 0 { originItem 0 with state := .transferring, commandID := some 0 }
    1 1 { originItem 1 with state := .transferring, commandID := some 1 }
    (by rw [hWriters]; decide) (by rw [hWriters]; decide) (by decide +kernel) (by decide +kernel) rfl rfl
  exact absurd hSame.1 (by decide)

end LocalModelWorks.Downloads
