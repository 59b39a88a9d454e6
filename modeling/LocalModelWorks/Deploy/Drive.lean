import LocalModelWorks.Deploy.Refusal

/-!
# What one drive of a rank sends

`redrives` says in which states a drive gets past the guards in front of the
rank's next command: then the command goes out, otherwise nothing about the rank
changes.
-/

namespace LocalModelWorks.Deploy

open Deployment

variable {env : Env} {s t u : Deployment} {rank : Rank} {pl : Option Placement} {op : Op}

/-- Nothing keeps a drive of the rank from sending `op`: what it needs can be rendered, the start order
allows it, and the commands that are sent once at a time are not in flight. -/
def redrives (env : Env) (s : Deployment) (rank : Rank) : Op → Bool
  | .prepare => env.manifestErr.isNone && env.extensionErr.isNone && !s.inflightHas rank .prepare
  | .verify => env.manifestErr.isNone && env.extensionErr.isNone && !s.inflightHas rank .verify
  | .create => env.specErr.isNone
  | .hostPrepare => env.specErr.isNone && !s.inflightHas rank .hostPrepare
  | .start => env.workloadErr.isNone && env.specErr.isNone && s.startReady rank
  | .inspect => true
  | .stopPrepare => !s.inflightHas rank .stopPrepare
  | .stopVerify => !s.inflightHas rank .stopVerify
  | .stop => !(s.dispatch rank = .hostPreparing && s.inflightHas rank .hostPrepare)

theorem redrives_congr (hRecipe : t.recipe = s.recipe) (hPlace : t.placement = s.placement)
    (hSend : t.dispatch = s.dispatch) (hRankStates : t.rankStates = s.rankStates)
    (hFlight : t.inflight = s.inflight) : redrives env t rank op = redrives env s rank op := by
  cases op <;> simp only [redrives, inflightHas, startReady, hRecipe, hPlace, hSend, hRankStates, hFlight]

structure Drives (env : Env) (s t : Deployment) (rank : Rank) (pl : Option Placement) (op : Op) : Prop where
  stands : Stands s t rank
  gates : t.gates = s.gates
  history : t.history =
    if env.accepts pl s.nextID then .sent ⟨s.nextID, s.runID, rank, op⟩ :: s.history else s.history

theorem Drives.inert (h : Drives env s t rank pl op) (hInert : Inert t u) : Drives env s u rank pl op where
  stands := h.stands.trans hInert.stands
  gates := hInert.gates.trans h.gates
  history := hInert.history.trans h.history

theorem drives_sendWorkload (hStands : Stands s t rank) (hGates : t.gates = s.gates) (hID : t.nextID = s.nextID)
    (hHist : t.history = s.history) : Drives env s (t.sendWorkload env rank pl op) rank pl op where
  stands := hStands.trans stands_sendWorkload
  gates := by
    unfold sendWorkload
    split
    · exact hGates
    · exact hGates
  history := by
    unfold sendWorkload
    rw [hID]
    split
    · simp only [record, inflightMark, hStands.runID, hHist]
    · exact hHist

theorem drives_enterExtension (hPhase : s.dispatch rank = if op = .prepare then .preparing else .verifying) :
    Drives env s ((s.enterExtension rank op).sendWorkload env rank pl op) rank pl op := by
  have hSelf target (h : s.dispatch rank = target) : Stands s (s.setPhase rank target) rank :=
    ⟨rfl, rfl, rfl, (Function.update_self ..).trans h.symm⟩
  unfold enterExtension
  split <;> rename_i hOp
  · exact drives_sendWorkload (hSelf _ (hPhase.trans (if_pos hOp))) rfl rfl rfl
  · have hRun := inert_setRun (s.setPhase rank .verifying) .verifying
    exact drives_sendWorkload ((hSelf _ (hPhase.trans (if_neg hOp))).trans hRun.stands) hRun.gates hRun.nextID hRun.history

theorem resumeExtension_spec {declared : Bool} (code unavailable : String) (hDecl : declared = true)
    (hPhase : s.dispatch rank = if op = .prepare then .preparing else .verifying) :
    if env.manifestErr.isNone && env.extensionErr.isNone && !s.inflightHas rank op then
      Drives env s (s.resumeExtension env rank pl op declared code unavailable) rank pl op
    else Inert s (s.resumeExtension env rank pl op declared code unavailable) := by
  unfold resumeExtension sendExtension
  cases env.manifestErr with
  | some e => exact inert_failDispatch _ _ _ _
  | none =>
    cases hBusy : s.inflightHas rank op with
    | true => simpa [hDecl] using Inert.refl s
    | false =>
      cases env.extensionErr with
      | some e => simpa [hDecl] using inert_noteDispatch _ _
      | none =>
        have hDrives : Drives env s ((s.enterExtension rank op).sendWorkload env rank pl op) rank pl op :=
          drives_enterExtension hPhase
        by_cases hAccepts : env.accepts pl s.nextID = true
        · simpa [hDecl, hAccepts] using hDrives
        · simpa [hDecl, hAccepts] using hDrives.inert (inert_noteDispatch _ _)

theorem dispatchCreated_spec (hHost : s.recipe.hostPreparation = true) (hPhase : s.dispatch rank = .hostPreparing) :
    if env.specErr.isNone && !s.inflightHas rank .hostPrepare then
      Drives env s (s.dispatchCreated env rank pl) rank pl .hostPrepare
    else Inert s (s.dispatchCreated env rank pl) := by
  unfold dispatchCreated
  cases hBusy : s.inflightHas rank .hostPrepare with
  | true => simpa using Inert.refl s
  | false =>
    cases env.specErr with
    | some e => simpa using inert_failDispatch _ _ _ _
    | none =>
      have hDrives : Drives env s ((s.setPhase rank .hostPreparing).sendWorkload env rank pl .hostPrepare) rank pl
          .hostPrepare :=
        drives_sendWorkload ⟨rfl, rfl, rfl, (Function.update_self ..).trans hPhase.symm⟩ rfl rfl rfl
      by_cases hAccepts : env.accepts pl s.nextID = true
      · simpa [hHost, hAccepts] using hDrives
      · simpa [hHost, hAccepts] using hDrives.inert (inert_noteDispatch _ _)

theorem dispatchHostPrepared_spec : if env.workloadErr.isNone && env.specErr.isNone && s.startReady rank then
      Drives env s (s.dispatchHostPrepared env rank pl) rank pl .start
    else Inert s (s.dispatchHostPrepared env rank pl) := by
  unfold dispatchHostPrepared workerStartReady
  cases env.workloadErr with
  | some e => exact inert_failDispatch _ _ _ _
  | none =>
    cases hReady : s.startReady rank with
    | false => simpa using Inert.refl s
    | true =>
      cases env.specErr with
      | some e => exact inert_failDispatch _ _ _ _
      | none => exact drives_sendWorkload (.refl s rank) rfl rfl rfl

section

variable (hAwaits : Awaits s rank op) (hDesired : s.desired = .running)
include hAwaits hDesired

theorem dispatchRunning_spec : if redrives env s rank op then Drives env s (s.dispatchRunning env rank pl) rank pl op
    else Inert s (s.dispatchRunning env rank pl) := by
  unfold dispatchRunning
  cases op with
  | prepare | verify =>
    obtain ⟨_, hPhase, hDecl⟩ := hAwaits
    rw [hPhase]
    exact resumeExtension_spec _ _ hDecl hPhase
  | create =>
    rw [hAwaits.2]
    unfold dispatchPulled
    cases hSpec : env.specErr with
    | some e => simpa [redrives, hSpec] using inert_noteDispatch _ _
    | none => simpa [redrives, hSpec] using drives_sendWorkload (.refl s rank) rfl rfl rfl
  | hostPrepare =>
    obtain ⟨_, hPhase, hHost⟩ := hAwaits
    rw [hPhase]
    exact dispatchCreated_spec hHost hPhase
  | start =>
    rw [hAwaits.2]
    exact dispatchHostPrepared_spec
  | inspect =>
    rw [hAwaits.2]
    exact drives_sendWorkload (.refl s rank) rfl rfl rfl
  | stopPrepare | stopVerify | stop =>
    have hStop := hAwaits.1
    rw [hDesired] at hStop
    cases hStop

theorem dispatchRunning_drives (hRedrives : redrives env s rank op = true) :
    Drives env s (s.dispatchRunning env rank pl) rank pl op := by
  have hSpec := @dispatchRunning_spec env s rank pl op hAwaits hDesired
  rwa [if_pos hRedrives] at hSpec

end

theorem stopExtension_spec : if !s.inflightHas rank op then Drives env s (s.stopExtension env rank pl op) rank pl op
    else s.stopExtension env rank pl op = s := by
  unfold stopExtension
  cases hBusy : s.inflightHas rank op with
  | true => simp
  | false =>
    have hDrives : Drives env s ((s.inflightDrop rank [.prepare, .verify]).sendWorkload env rank pl op) rank pl op :=
      drives_sendWorkload ⟨rfl, rfl, rfl, rfl⟩ rfl rfl rfl
    by_cases hAccepts : env.accepts pl s.nextID = true
    · simpa [hAccepts] using hDrives
    · simpa [hAccepts] using hDrives.inert (inert_noteDispatch _ _)

section

variable (hAwaits : Awaits s rank op) (hDesired : s.desired = .stopped)
include hAwaits hDesired

theorem dispatchStopped_spec : if redrives env s rank op then Drives env s (s.dispatchStopped env rank pl) rank pl op
    else s.dispatchStopped env rank pl = s := by
  unfold dispatchStopped
  cases op with
  | stopPrepare | stopVerify =>
    rw [hAwaits.2]
    exact stopExtension_spec
  | stop =>
    have hSend : Drives env s (s.sendWorkload env rank pl .stop) rank pl .stop :=
      drives_sendWorkload (.refl s rank) rfl rfl rfl
    obtain ⟨_, hPhase⟩ := hAwaits
    simp only [List.mem_cons, List.not_mem_nil, or_false] at hPhase
    rcases hPhase with hPhase | hPhase | hPhase | hPhase | hPhase
    · simpa [redrives, hPhase] using hSend
    · simpa [redrives, hPhase] using hSend
    · cases hBusy : s.inflightHas rank .hostPrepare with
      | true => simp [redrives, hPhase, hBusy]
      | false => simpa [redrives, hPhase, hBusy] using hSend
    · simpa [redrives, hPhase] using hSend
    · simpa [redrives, hPhase] using hSend
  | prepare | verify | create | hostPrepare | start | inspect =>
    have hRun := hAwaits.1
    rw [hDesired] at hRun
    cases hRun

end

end LocalModelWorks.Deploy
