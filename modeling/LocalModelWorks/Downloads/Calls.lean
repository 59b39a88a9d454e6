import LocalModelWorks.Downloads.Service
import LocalModelWorks.Downloads.Threads

/-!
# What the calls know at each of their points

The calls carry rows they read earlier. A release behind an acknowledgement is always safe,
and so is that of an interrupted item.
-/

namespace LocalModelWorks.Downloads

open Option

variable {w w' : Shared} {actor : Option ItemID} {id : ItemID} {token : Token} {row item : Item}

def AllKnown (w : Shared) (rows : List Item) : Prop := ∀ row ∈ rows, Known w row

def AllInterrupted (w : Shared) (rows : List Item) : Prop := ∀ row ∈ rows, Known w row ∧ row.state = .interrupted

namespace Task

def Ok (w : Shared) : Task → Prop
  | .cancelRows rest | .cancelReread _ rest => AllKnown w rest
  | .cancelMark row rest | .cancelRelease row rest | .cancelFinish row rest => Known w row ∧ AllKnown w rest
  | .cancelItem row => Known w row ∧ (row.commandID ≠ none ∨ row.transferID ≠ none)
  | .awaitCancel row target reply => Binds w row.id target ∧ Replied w target reply
  | .release row .terminalAck | .lateRelease row => Ended w row.id
  | .release _ .neverDispatched => False
  | .disconnectGather _ _ _ rows | .disconnectWaiters _ _ rows | .disconnectRows rows => AllInterrupted w rows
  | .disconnectRelease row rest => Known w row ∧ row.state = .interrupted ∧ row.commandID = none ∧
      row.transferID = none ∧ AllInterrupted w rest
  | .late token _ => token ∈ w.ended
  | _ => True

end Task

variable {rows : List Item}

theorem Effect.allKnown (h : Effect actor w w') (hKnown : AllKnown w rows) : AllKnown w' rows :=
  fun row hRow => h.known (hKnown row hRow)

theorem Effect.allInterrupted (h : Effect actor w w') (hRows : AllInterrupted w rows) :
    AllInterrupted w' rows := fun row hRow => ⟨h.known (hRows row hRow).1, (hRows row hRow).2⟩

theorem Task.Ok.effect {task : Task} (hOk : task.Ok w) (h : Effect actor w w') : task.Ok w' := by
  cases task with
  | cancelRows | cancelReread => exact h.allKnown hOk
  | cancelMark row rest | cancelRelease row rest | cancelFinish row rest => exact ⟨h.known hOk.1, h.allKnown hOk.2⟩
  | cancelItem row => exact ⟨h.known hOk.1, hOk.2⟩
  | awaitCancel row target reply => exact ⟨h.binds hOk.1, h.replied hOk.2⟩
  | release row proof =>
    cases proof with
    | terminalAck => exact h.ended hOk
    | neverDispatched => exact hOk.elim
  | lateRelease row => exact h.ended hOk
  | disconnectGather | disconnectWaiters | disconnectRows => exact h.allInterrupted hOk
  | disconnectRelease row rest =>
    obtain ⟨hKnown, hState, hCmd, hTransfer, hRest⟩ := hOk
    exact ⟨h.known hKnown, hState, hCmd, hTransfer, h.allInterrupted hRest⟩
  | late token matching => exact h.ended_subset hOk
  | cancel | settle | settleWrite | reconnect | reconnectItems | reconnectRelease | disconnect | disconnectRuns
  | lateFinish | reconcile | reconcileRuns => exact trivial

def Task.releasesUnbound (w : Shared) : Task → Bool
  | .cancelRelease row _ | .reconnectRelease row _ =>
    (w.getItem row.id).all fun item => item.commandID.isNone && item.transferID.isNone
  | _ => true

theorem unbound_of_columns (h : (w.getItem id).all (fun item => item.commandID.isNone && item.transferID.isNone) = true) :
    Unbound w id := by
  rintro token ⟨item, hItem, hBinds⟩
  simp only [hItem, all_some, Bool.and_eq_true, isNone_iff_eq_none] at h
  rcases hBinds with hCmd | hTransfer
  · rw [h.1] at hCmd
    cases hCmd
  · rw [h.2] at hTransfer
    cases hTransfer

theorem quiesce_unbound (hUnbound : Unbound w row.id) : Effect actor w (w.quiesce row) :=
  quiesce_effect fun token hBinds => absurd hBinds (hUnbound token)

theorem Known.unbound (h : Known w row) (hFinal : row.state.terminal = true) (hCmd : row.commandID = none)
    (hTransfer : row.transferID = none) : Unbound w row.id := by
  obtain ⟨item, hItem, hLe⟩ := h
  obtain rfl : item = row := hLe.final hFinal
  refine unbound_of_columns ?_
  simp [hItem, hCmd, hTransfer]

theorem Known.peer_command (hs : Sound w) (h : Known w row) (hPeer : row.action = .peerCopy) : row.commandID = none := by
  obtain ⟨item, hItem, hLe⟩ := h
  have hNone : item.commandID = none := (hs.kinds row.id item hItem).1 (hLe.action.trans hPeer)
  cases hCmd : row.commandID with
  | none => rfl
  | some token =>
    have hSome := hLe.command token hCmd
    rw [hNone] at hSome
    cases hSome

theorem itemByToken_spec (hs : Sound w) (h : w.itemByToken token = some row) : Binds w row.id token := by
  rcases or_eq_some_iff.mp h with hCmd | ⟨_, hTransfer⟩
  · exact (hs.known_of_mem (List.mem_of_find?_eq_some hCmd)).binds (.inl (by simpa using List.find?_some hCmd))
  · exact (hs.known_of_mem (List.mem_of_find?_eq_some hTransfer)).binds (.inr (by simpa using List.find?_some hTransfer))

theorem allKnown_listItems (hs : Sound w) (runID : RunID) : AllKnown w (w.listItems runID) :=
  fun _ hRow => hs.known_of_mem (List.mem_filter.mp hRow).1

namespace Task

structure Leaves (w : Shared) (outcome : Outcome) : Prop where
  effect : Effect none w outcome.shared
  task : ∀ task, outcome.task = some task → task.Ok outcome.shared
  spawned : ∀ task, outcome.spawned = some task → task.Ok outcome.shared

theorem leaves_task {next : Option Task} (h : Effect none w w') (hOk : ∀ task, next = some task → task.Ok w) :
    Leaves w ⟨w', next, none⟩ :=
  ⟨h, fun task hTask => (hOk task hTask).effect h, fun _ hSpawned => by cases hSpawned⟩

theorem leaves_next {next : Task} (h : Effect none w w') (hOk : next.Ok w) : Leaves w ⟨w', some next, none⟩ :=
  leaves_task h fun task hTask => by
    cases hTask
    exact hOk

theorem leaves_spawn {next spawned : Task} (h : Effect none w w') (hOk : next.Ok w) (hSpawned : spawned.Ok w) :
    Leaves w ⟨w', some next, some spawned⟩ where
  effect := h
  task task hTask := by
    cases hTask
    exact hOk.effect h
  spawned task hTask := by
    cases hTask
    exact hSpawned.effect h

theorem leaves_end (h : Effect none w w') : Leaves w ⟨w', none, none⟩ := leaves_task h fun _ hTask => by cases hTask

theorem leaves_cancelRows (hs : Sound w) (reading : Reading) (hOk : (cancelRows rows).Ok w) :
    Leaves w ((cancelRows rows).step w reading) := by
  cases rows with
  | nil => exact leaves_end (.refl w)
  | cons row rest =>
    have hRest : AllKnown w rest := fun other hOther => hOk other (List.mem_cons_of_mem row hOther)
    dsimp only [step]
    split
    · exact leaves_next (transition_effect hs row .cancelling none) hRest
    split
    · exact leaves_next (.refl w) ⟨hOk row List.mem_cons_self, hRest⟩
    · exact leaves_next (.refl w) hRest

variable (reading : Reading)

theorem leaves_cancelMark {rest : List Item} (hOk : (cancelMark row rest).Ok w) :
    Leaves w ((cancelMark row rest).step w reading) := by
  have hMark : Effect none w (w.markCancelling row) := by
    refine .locks _ (keepsLocks_map (fun lock => ?_) fun lock => ?_)
    · split
      · rfl
      · rfl
    split
    · rfl
    · rfl
  dsimp only [step]
  split
  · exact leaves_next hMark hOk
  rename_i hDispatched
  split
  · refine leaves_spawn hMark hOk.2 ⟨hOk.1, not_and_or.mp fun hNone => hDispatched ?_⟩
    simp [Item.neverDispatched, hNone.1, hNone.2]
  · exact leaves_next hMark hOk.2

theorem leaves_cancelItem (hs : Sound w) (reading : Reading) (hOk : (cancelItem row).Ok w) :
    Leaves w ((cancelItem row).step w reading) := by
  obtain ⟨hKnown, hBound⟩ := hOk
  dsimp only [step]
  split
  next hPeer => exact absurd hPeer.2 (hBound.resolve_left fun h => h (hKnown.peer_command hs hPeer.1))
  split
  · exact leaves_end (.refl w)
  rename_i target hTarget
  have hBinds : Binds w row.id target := by
    refine hKnown.binds ?_
    rcases or_eq_some_iff.mp hTarget with hTransfer | ⟨_, hCmd⟩
    · exact .inr hTransfer
    · exact .inl hCmd
  refine leaves_task (.refl w) fun task hTask => ?_
  split at hTask
  · cases hTask
    exact ⟨hBinds, nofun⟩
  · cases hTask

theorem leaves_reconnectItems (ids : List ItemID) : Leaves w ((reconnectItems ids).step w reading) := by
  cases ids with
  | nil => exact leaves_end (.refl w)
  | cons id rest =>
    dsimp only [step]
    split
    · exact leaves_next (.refl w) trivial
    rename_i row hRow
    split
    · exact leaves_next (.refl w) trivial
    next hBound => exact leaves_spawn (.refl w) trivial ⟨known_of_getItem hRow, not_and_or.mp hBound⟩

theorem leaves_disconnectGather (hs : Sound w) (reading : Reading) {nodeID : NodeID} {todo : List RunID}
    {affected : List ItemID} (hOk : (disconnectGather nodeID todo affected rows).Ok w) :
    Leaves w ((disconnectGather nodeID todo affected rows).step w reading) := by
  cases todo with
  | nil => exact leaves_next (.refl w) hOk
  | cons runID todo =>
    refine leaves_next (.refl w) fun row hRow => ?_
    rcases List.mem_append.mp hRow with hOld | hNew
    · exact hOk row hOld
    obtain ⟨hListed, hState⟩ := List.mem_filter.mp hNew
    simp only [Bool.and_eq_true, decide_eq_true_eq] at hState
    exact ⟨allKnown_listItems hs runID row hListed, hState.1.1⟩

theorem leaves_disconnectRows (hOk : (disconnectRows rows).Ok w) : Leaves w ((disconnectRows rows).step w reading) := by
  cases rows with
  | nil => exact leaves_end (.refl w)
  | cons row rest =>
    obtain ⟨hKnown, hState⟩ := hOk row List.mem_cons_self
    have hRest : AllInterrupted w rest := fun other hOther => hOk other (List.mem_cons_of_mem row hOther)
    dsimp only [step]
    split
    next hNone => exact leaves_next (.refl w) ⟨hKnown, hState, hNone.1, hNone.2, hRest⟩
    next hBound => exact leaves_spawn (.refl w) hRest ⟨hKnown, not_and_or.mp hBound⟩

theorem leaves_late (hs : Sound w) (reading : Reading) {matching : Bool} (hOk : (late token matching).Ok w) :
    Leaves w ((late token matching).step w reading) := by
  refine leaves_task (.refl w) fun task hTask => ?_
  obtain ⟨row, hRow, hAfter⟩ := bind_eq_some_iff.mp hTask
  unfold afterLate at hAfter
  split at hAfter
  · cases hAfter
    exact ⟨token, itemByToken_spec hs hRow, hOk⟩
  · cases hAfter

theorem Ok.step {task : Task} (hs : Sound w) (hOk : task.Ok w) (hUnbound : task.releasesUnbound w = true)
    (reading : Reading) : Leaves w (task.step w reading) := by
  have hTransition row new : Effect none w (w.transition row new none).1 :=
    transition_effect hs row new none
  have hRelease row hEnded : Effect none w (w.quiesce row) :=
    quiesce_effect fun _ hBinds => hs.ended_of_binds hEnded hBinds
  cases task with
  | cancel runID => exact leaves_next (.refl w) (allKnown_listItems hs runID)
  | cancelRows rows => exact leaves_cancelRows hs reading hOk
  | cancelReread id rest =>
    dsimp only [Task.step]
    split
    · exact leaves_end (.refl w)
    next row hRow => exact leaves_next (.refl w) ⟨known_of_getItem hRow, hOk⟩
  | cancelMark row rest => exact leaves_cancelMark reading hOk
  | cancelRelease row rest => exact leaves_next (quiesce_unbound (unbound_of_columns hUnbound)) hOk
  | cancelFinish row rest => exact leaves_next (hTransition row .cancelled) hOk.2
  | cancelItem row => exact leaves_cancelItem hs reading hOk
  | awaitCancel row target reply =>
    cases reply with
    | none => exact leaves_next (.refl w) hOk
    | some ok =>
      refine leaves_task (.refl w) fun task hTask => ?_
      cases ok with
      | false => cases hTask
      | true =>
        cases hTask
        exact ⟨target, hOk.1, hOk.2 rfl⟩
  | release row proof =>
    cases proof with
    | neverDispatched => exact hOk.elim
    | terminalAck => exact leaves_next (hRelease row hOk) trivial
  | settle row =>
    refine leaves_task (.refl w) fun task hTask => ?_
    obtain ⟨latest, _, hAfter⟩ := bind_eq_some_iff.mp hTask
    split at hAfter
    · cases hAfter
      exact trivial
    · cases hAfter
  | settleWrite row => exact leaves_end (hTransition row .cancelled)
  | reconnect | disconnect => exact leaves_next (.refl w) trivial
  | reconnectItems ids => exact leaves_reconnectItems reading ids
  | reconnectRelease row rest => exact leaves_next (quiesce_unbound (unbound_of_columns hUnbound)) trivial
  | disconnectRuns nodeID todo parents =>
    cases todo with
    | nil => exact leaves_next (.refl w) fun _ hRow => by cases hRow
    | cons runID todo =>
      refine leaves_next ?_ trivial
      split
      · exact .refl w
      · exact interruptRun_effect w runID
  | disconnectGather nodeID todo affected rows => exact leaves_disconnectGather hs reading hOk
  | disconnectWaiters nodeID affected rows => exact leaves_next (.refl w) hOk
  | disconnectRows rows => exact leaves_disconnectRows reading hOk
  | disconnectRelease row rest =>
    obtain ⟨hKnown, hState, hCmd, hTransfer, hRest⟩ := hOk
    exact leaves_next (quiesce_unbound (hKnown.unbound (by rw [hState]; rfl) hCmd hTransfer)) hRest
  | late token matching => exact leaves_late hs reading hOk
  | lateRelease row =>
    refine leaves_task (hRelease row hOk) fun task hTask => ?_
    split at hTask
    · cases hTask
      exact trivial
    · cases hTask
  | lateFinish row => exact leaves_end (hTransition row .cancelled)
  | reconcile nodes seen =>
    cases nodes with
    | nil => exact leaves_end (.refl w)
    | cons nodeID nodes => exact leaves_next (.refl w) trivial
  | reconcileRuns runs nodes seen =>
    cases runs with
    | nil => exact leaves_next (.refl w) trivial
    | cons runID runs =>
      dsimp only [Task.step]
      split
      · exact leaves_next (.refl w) trivial
      · exact leaves_next (interruptRun_effect w runID) trivial

end Task

end LocalModelWorks.Downloads
