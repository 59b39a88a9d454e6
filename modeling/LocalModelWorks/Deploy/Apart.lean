import LocalModelWorks.Deploy.Redrive

/-!
# What a message about one rank does to the others

A command result or a report concerns one rank.
-/

namespace LocalModelWorks.Deploy

open Deployment

variable {env : Env} {s t u : Deployment} {rank r : Rank} {pl : Option Placement} {op : Op}

structure Apart (s t : Deployment) (rank : Rank) : Prop where
  placement : t.placement = s.placement
  phase : t.dispatch rank = s.dispatch rank
  state : t.rankStates rank = s.rankStates rank

theorem Apart.refl (s : Deployment) (rank : Rank) : Apart s s rank := ⟨rfl, rfl, rfl⟩

theorem Apart.trans (hFirst : Apart s t rank) (hSecond : Apart t u rank) : Apart s u rank :=
  ⟨hSecond.placement.trans hFirst.placement, hSecond.phase.trans hFirst.phase, hSecond.state.trans hFirst.state⟩

theorem Inert.apart (h : Inert s t) : Apart s t rank :=
  ⟨h.placement, congrFun h.dispatch rank, congrFun h.rankStates rank⟩

theorem apart_setPhase (hNe : rank ≠ r) (target : Phase) : Apart s (s.setPhase r target) rank :=
  ⟨rfl, Function.update_of_ne hNe .., rfl⟩

theorem apart_setRankState (hNe : rank ≠ r) (state : RankState) : Apart s (s.setRankState r state) rank :=
  ⟨rfl, rfl, Function.update_of_ne hNe ..⟩

theorem apart_sendWorkload (s : Deployment) (r rank : Rank) : Apart s (s.sendWorkload env r pl op) rank := by
  unfold sendWorkload
  split <;> exact ⟨rfl, rfl, rfl⟩

theorem apart_stopExtension (s : Deployment) (r rank : Rank) : Apart s (s.stopExtension env r pl op) rank :=
  have hDropped : Apart s (s.inflightDrop r [.prepare, .verify]) rank := ⟨rfl, rfl, rfl⟩
  stopExtension_rule (.refl s rank) (hDropped.trans (apart_sendWorkload _ r rank))
    fun hSent hInert => hSent.trans hInert.apart

theorem apart_checkStopComplete (s : Deployment) (rank : Rank) : Apart s s.checkStopComplete rank :=
  checkStopComplete_rule (.refl s rank) fun hEnded =>
    ⟨hEnded.placement, congrFun hEnded.dispatch rank, congrFun hEnded.rankStates rank⟩

theorem apart_wake (s : Deployment) (r rank : Rank) (pl : Option Placement) : Apart s (s.wake r pl) rank := by
  unfold wake
  split <;> exact ⟨rfl, rfl, rfl⟩

theorem apart_settleStopped (hNe : rank ≠ r) : Apart s (s.settleStopped r) rank :=
  (apart_setPhase hNe .stopped).trans (apart_checkStopComplete _ rank)

theorem apart_dispatchStopped (hNe : rank ≠ r) : Apart s (s.dispatchStopped env r pl) rank := by
  refine dispatchStopped_rule (.refl s rank) (fun _ => ?_) (fun _ => ?_) (fun _ => ?_) (fun _ => ?_) fun _ => ?_
  · exact apart_stopExtension s r rank
  · exact apart_stopExtension s r rank
  · exact apart_settleStopped hNe
  · exact apart_sendWorkload s r rank
  · exact (apart_setPhase hNe .stopping).trans (apart_sendWorkload _ r rank)

theorem apart_dispatchNext (hNe : rank ≠ r) : Apart s (s.dispatchNext env r pl) rank := by
  unfold dispatchNext
  split
  · exact apart_wake s r rank pl
  · exact apart_dispatchStopped hNe

theorem apart_wakeWorkerFirstHead (s : Deployment) (rank : Rank) : Apart s (s.wakeWorkerFirstHead env) rank := by
  unfold wakeWorkerFirstHead
  split
  next hHead =>
    unfold dispatchRank
    split
    · unfold dispatchNext
      split
      · exact apart_wake s 0 rank _
      · simpa only [dispatchStopped, hHead] using apart_sendWorkload s 0 rank
    · exact .refl s rank
  · exact .refl s rank

theorem apart_advance (hNe : rank ≠ r) (target : Phase) : Apart s (s.advance env r target) rank :=
  (apart_setPhase hNe target).trans (apart_dispatchNext hNe)

theorem apart_failDispatch (s : Deployment) (r rank : Rank) (code message : String) :
    Apart s (s.failDispatch r code message) rank := (inert_failDispatch s r code message).apart

inductive Phase.Drains : Phase → Phase → Prop
  | same (phase : Phase) : Drains phase phase
  | unstarted : Drains .none .stopped
  | prepared : Drains .prepared .stopped
  | started : Drains .started .stopping

theorem Phase.Drains.trans {a b c : Phase} (hFirst : Phase.Drains a b) (hSecond : Phase.Drains b c) :
    Phase.Drains a c := by
  cases hFirst with
  | same => exact hSecond
  | unstarted => cases hSecond; exact .unstarted
  | prepared => cases hSecond; exact .prepared
  | started => cases hSecond; exact .started

structure Drained (s t : Deployment) (rank : Rank) : Prop where
  placement : t.placement = s.placement
  phase : Phase.Drains (s.dispatch rank) (t.dispatch rank)
  state : t.rankStates rank = s.rankStates rank

theorem Apart.drained (h : Apart s t rank) : Drained s t rank := ⟨h.placement, h.phase ▸ .same _, h.state⟩

theorem Drained.trans (hFirst : Drained s t rank) (hSecond : Drained t u rank) : Drained s u rank :=
  ⟨hSecond.placement.trans hFirst.placement, hFirst.phase.trans hSecond.phase, hSecond.state.trans hFirst.state⟩

theorem drained_setPhase {target : Phase} (h : Phase.Drains (s.dispatch rank) target) :
    Drained s (s.setPhase rank target) rank := by
  refine ⟨rfl, ?_, rfl⟩
  change Phase.Drains (s.dispatch rank) (Function.update s.dispatch rank target rank)
  rw [Function.update_self]
  exact h

theorem drained_dispatchStopped (s : Deployment) (rank : Rank) (pl : Option Placement) :
    Drained s (s.dispatchStopped env rank pl) rank := by
  have hSame : Drained s s rank := (Apart.refl s rank).drained
  refine dispatchStopped_rule hSame (fun _ => ?_) (fun _ => ?_) (fun hPhase => ?_) (fun _ => ?_) fun hPhase => ?_
  · exact (apart_stopExtension s rank rank).drained
  · exact (apart_stopExtension s rank rank).drained
  · have hDrains : Phase.Drains (s.dispatch rank) .stopped :=
      hPhase.elim (fun hPhase => hPhase ▸ .prepared) fun hPhase => hPhase ▸ .unstarted
    exact (drained_setPhase hDrains).trans (apart_checkStopComplete _ rank).drained
  · exact (apart_sendWorkload s rank rank).drained
  · have hStarted : Phase.Drains (s.dispatch rank) .stopping := hPhase ▸ .started
    exact (drained_setPhase hStarted).trans (apart_sendWorkload _ rank rank).drained

theorem drained_dispatchRank (hWant : s.desired = .stopped) (r rank : Rank) :
    Drained s (s.dispatchRank env r) rank := by
  rw [dispatchRank_stopped hWant]
  split
  · by_cases hRank : rank = r
    · subst hRank
      exact drained_dispatchStopped s rank _
    · exact (apart_dispatchStopped hRank).drained
  · exact (Apart.refl s rank).drained

theorem desired_dispatchRank (hWant : s.desired = .stopped) (r : Rank) : (s.dispatchRank env r).desired = .stopped := by
  -- Every rank other than `r` sees the step as one that happened elsewhere.
  have hElse : Elsewhere s (s.dispatchRank env r) (r + 1) := elsewhere_dispatchRank (Nat.succ_ne_self r) hWant
  exact hElse.stands.desired.trans hWant

theorem drained_dispatchRanks (ranks : List Rank) (rank : Rank) (hWant : s.desired = .stopped) :
    Drained s (s.dispatchRanks env ranks) rank := by
  induction ranks generalizing s with
  | nil => exact (Apart.refl s rank).drained
  | cons r ranks ih => exact (drained_dispatchRank hWant r rank).trans (ih (desired_dispatchRank hWant r))

def endsRun (s : Deployment) (su : StateUpdate) : Bool :=
  s.runID = su.runID && s.desired = .running && terminalWorkloadState su.state

variable {su : StateUpdate} {cr : CommandResult}

theorem drained_failWorkload (hNe : rank ≠ su.rank) : Drained s (s.failWorkload env su) rank := by
  set stopping := s.setStopping _ with hStopping
  set down := (stopping.setRankState su.rank su.state).setPhase su.rank .stopped with hDown
  have hSet : Apart s down rank :=
    Apart.trans (t := stopping) ⟨rfl, rfl, rfl⟩ ((apart_setRankState hNe su.state).trans (apart_setPhase hNe .stopped))
  set ended := if (down.runs down.runID).terminal then down else down.setRun .failed with hEnded
  have hInert : Inert down ended := by
    rw [hEnded]
    split
    · exact .refl down
    · exact inert_setRun down .failed
  have hWant : ended.desired = .stopped := hInert.desired
  exact (((hSet.trans hInert.apart).drained).trans (drained_dispatchRanks _ rank hWant)).trans
    (apart_checkStopComplete _ rank).drained

theorem apart_observe (hNe : rank ≠ su.rank) : Apart s (s.observe env su) rank := by
  unfold observe
  dsimp only
  have hRankState := apart_setRankState (s := s) hNe (observation env su).1
  set noted : Deployment := { s.setRankState su.rank (observation env su).1 with
    observed := _, diagnostics := _ }
  have hSeen : Apart s noted rank := ⟨rfl, rfl, hRankState.state⟩
  have hWoken : Apart s (if su.state = .observing ∨ su.state = .running then noted.wakeWorkerFirstHead env else noted)
      rank := by
    split
    · exact hSeen.trans (apart_wakeWorkerFirstHead noted rank)
    · exact hSeen
  split
  · exact hWoken.trans (inert_setRun _ .running).apart
  · exact hWoken

theorem apart_onStateUpdate (hNe : rank ≠ su.rank) (hRuns : endsRun s su = false) :
    Apart s (s.onStateUpdate env su) rank := by
  unfold onStateUpdate
  split
  · exact .refl s rank
  rename_i hRun
  split <;> rename_i hWant
  · split
    · exact (apart_setRankState hNe su.state).trans (apart_settleStopped hNe)
    split
    · exact .refl s rank
    have hSet := (apart_setRankState (s := s) hNe .stopping).trans (apart_setPhase hNe .stopping)
    have hStopping := hSet.trans (u := ((s.setRankState su.rank .stopping).setPhase su.rank .stopping).setStopping
      s.diagnostics) ⟨rfl, rfl, rfl⟩
    exact hStopping.trans (apart_dispatchNext hNe)
  split
  next hEnd => simp [endsRun, not_not.mp hRun, hWant, hEnd] at hRuns
  · exact apart_observe hNe

theorem drained_onStateUpdate (hNe : rank ≠ su.rank) : Drained s (s.onStateUpdate env su) rank := by
  cases hRuns : endsRun s su with
  | false => exact (apart_onStateUpdate hNe hRuns).drained
  | true =>
    simp only [endsRun, Bool.and_eq_true, decide_eq_true_eq] at hRuns
    obtain ⟨⟨hRun, hWant⟩, hEnd⟩ := hRuns
    unfold onStateUpdate
    rw [if_neg (not_not.mpr hRun), hWant]
    dsimp only
    rw [if_pos hEnd]
    exact drained_failWorkload hNe

def inspected (s : Deployment) (rank : Rank) (cr : CommandResult) : Option StateUpdate :=
  if cr.ok then some ⟨s.runID, rank, cr.containerState, cr.containerID, cr.error, cr.exitCode, cr.oomKilled⟩
  else if isContainerMissing cr.error then some ⟨s.runID, rank, .missing, "", cr.error, 0, false⟩
  else none

theorem onInspectResult_eq (s : Deployment) (rank : Rank) (cr : CommandResult) :
    s.onInspectResult env rank cr = ((inspected s rank cr).map (s.onStateUpdate env)).getD s := by
  unfold onInspectResult inspected
  split
  · rfl
  · split <;> rfl

theorem rank_of_inspected (h : inspected s rank cr = some su) : su.rank = rank := by
  unfold inspected at h
  split_ifs at h <;> cases h <;> rfl

def resultEndsRun (s : Deployment) (command : InflightCmd) (cr : CommandResult) : Bool :=
  command.op = .inspect && (inspected s command.rank cr).any (endsRun s)

section

variable (hNe : rank ≠ r)
include hNe

theorem apart_onStartResult : Apart s (s.onStartResult env r cr) rank := by
  unfold onStartResult
  split
  · exact apart_advance hNe .stopping
  split
  · split
    · exact apart_failDispatch s r rank _ _
    split
    · exact apart_advance hNe .verifying
    have hStarted : Apart s (s.setPhase r .started) rank := apart_setPhase hNe .started
    refine Apart.trans ?_ (apart_wakeWorkerFirstHead _ rank)
    split
    · exact hStarted.trans (apart_dispatchNext hNe)
    · exact (hStarted.trans (inert_setRun _ .running).apart).trans (apart_dispatchNext hNe)
  · exact apart_failDispatch s r rank _ _

theorem apart_onVerifyResult : Apart s (s.onVerifyResult env r cr) rank := by
  unfold onVerifyResult
  split
  · have hStarted : Apart s ((s.setPhase r .started).setRun .running) rank :=
      (apart_setPhase hNe .started).trans (inert_setRun _ .running).apart
    exact (hStarted.trans (apart_dispatchNext hNe)).trans (apart_wakeWorkerFirstHead _ rank)
  · exact apart_failDispatch s r rank _ _

theorem apart_onCreateResult : Apart s (s.onCreateResult env r cr) rank := by
  unfold onCreateResult
  split
  · split
    · exact apart_settleStopped hNe
    · exact apart_failDispatch s r rank _ _
  split
  · exact apart_advance hNe .stopping
  · exact apart_advance hNe .created

theorem apart_onHostPrepareResult : Apart s (s.onHostPrepareResult env r cr) rank := by
  unfold onHostPrepareResult
  split
  · exact apart_advance hNe .stopping
  split
  · exact apart_advance hNe .hostPrepared
  · exact apart_failDispatch s r rank _ _

theorem apart_onStopResult : Apart s (s.onStopResult r cr) rank := by
  unfold onStopResult
  split
  · exact apart_settleStopped hNe
  · exact (inert_noteDispatch _ _).apart

theorem apart_settle (hOp : op ≠ .inspect) : Apart s (s.settle env r op cr) rank := by
  cases op with
  | prepare =>
    simp only [settle]
    split
    · exact apart_advance hNe .prepared
    · exact apart_failDispatch s r rank _ _
  | stopPrepare =>
    simp only [settle]
    split
    · exact apart_settleStopped hNe
    · exact apart_failDispatch s r rank _ _
  | stopVerify =>
    simp only [settle]
    split
    · exact apart_advance hNe .started
    · exact apart_failDispatch s r rank _ _
  | verify => exact apart_onVerifyResult hNe
  | create => exact apart_onCreateResult hNe
  | hostPrepare => exact apart_onHostPrepareResult hNe
  | start => exact apart_onStartResult hNe
  | inspect => exact absurd rfl hOp
  | stop => exact apart_onStopResult hNe

theorem apart_onInspectResult (hRuns : (inspected s r cr).any (endsRun s) = false) :
    Apart s (s.onInspectResult env r cr) rank := by
  rw [onInspectResult_eq]
  cases hReport : inspected s r cr with
  | none => exact .refl s rank
  | some su =>
    rw [hReport] at hRuns
    exact apart_onStateUpdate (fun h => hNe (h.trans (rank_of_inspected hReport))) hRuns

theorem drained_onInspectResult : Drained s (s.onInspectResult env r cr) rank := by
  rw [onInspectResult_eq]
  cases hReport : inspected s r cr with
  | none => exact (Apart.refl s rank).drained
  | some su => exact drained_onStateUpdate fun h => hNe (h.trans (rank_of_inspected hReport))

end

theorem apart_onCommandResult {id : CommandID}
    (hNe : ∀ command, s.inflight.find? (·.id = id) = some command → rank ≠ command.rank)
    (hRuns : ∀ command, s.inflight.find? (·.id = id) = some command → resultEndsRun s command cr = false) :
    Apart s (s.onCommandResult env id cr) rank := by
  unfold onCommandResult
  split
  · exact .refl s rank
  rename_i command hFind
  have hTaken : Apart s (s.inflightTake id) rank := ⟨rfl, rfl, rfl⟩
  split
  · exact hTaken
  refine hTaken.trans ?_
  by_cases hOp : command.op = .inspect
  · rw [hOp]
    have hReport := hRuns command hFind
    rw [resultEndsRun, decide_eq_true hOp] at hReport
    exact apart_onInspectResult (hNe command hFind) hReport
  · exact apart_settle (hNe command hFind) hOp

theorem drained_onCommandResult {id : CommandID}
    (hNe : ∀ command, s.inflight.find? (·.id = id) = some command → rank ≠ command.rank) :
    Drained s (s.onCommandResult env id cr) rank := by
  unfold onCommandResult
  split
  · exact (Apart.refl s rank).drained
  rename_i command hFind
  have hTaken : Apart s (s.inflightTake id) rank := ⟨rfl, rfl, rfl⟩
  split
  · exact hTaken.drained
  refine hTaken.drained.trans ?_
  by_cases hOp : command.op = .inspect
  · rw [hOp]
    exact drained_onInspectResult (hNe command hFind)
  · exact (apart_settle (hNe command hFind) hOp).drained

end LocalModelWorks.Deploy
