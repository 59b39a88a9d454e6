import LocalModelWorks.Deploy.Refinement

/-!
# Results, reports and calls as chains of effects

Command results and state reports are recorded before they are handled, so the
effects they cause can refer to them. The last part turns invariants of the
effects into invariants of every reachable state of the service.
-/

namespace LocalModelWorks.Deploy

open Deployment

variable {P : Permits} {s : Deployment} (env : Env)

theorem armed_of_terminal {state : RankState} (h : terminalWorkloadState state = true) : state.armed = false := by
  cases state <;> first | rfl | cases h

theorem setRankState_effects (rank : Rank) {state : RankState} (h : state.armed = false) :
    Effects P s (s.setRankState rank state) :=
  (Effect.rankState rank state fun hArmed => by rw [h] at hArmed; cases hArmed).chain

theorem observation_armed (su : StateUpdate) (h : (observation env su).1.armed = true) : su.state.armed = true := by
  unfold observation at h
  split at h
  · cases h
  split at h
  next hRun =>
    rw [hRun.1]
    rfl
  · exact h

variable {su : StateUpdate}

theorem observe_effects
    (hArmed : su.state.armed = true → ∃ fact ∈ s.history, fact.reportsArmed s.runID su.rank = true) :
    Effects P s (s.observe env su) := by
  have hSeen : Effects P s (s.setRankState su.rank (observation env su).1) :=
    (Effect.rankState _ _ fun h => hArmed (observation_armed env su h)).chain
  have hNoted observed diagnostics :
      Effects P s { s.setRankState su.rank (observation env su).1 with
        observed := observed, diagnostics := diagnostics } :=
    hSeen.tail (.quiet (by constructor <;> rfl))
  have hRun t (observed : Observed) (h : Effects P s t) :
      Effects P s (if observed = .healthy ∧ s.placement.upstream then t.setRun .running else t) := by
    split
    · exact h.tail (.quiet (quiet_setRun _ _))
    · exact h
  refine hRun _ _ ?_
  split
  · exact (hNoted _ _).trans (wakeWorkerFirstHead_effects env)
  · exact hNoted _ _

theorem failWorkload_effects (hEnd : terminalWorkloadState su.state = true)
    (hDown : live s.runID su.rank s.history = false) : Effects P s (s.failWorkload env su) := by
  have hStop diagnostics :
      Effects P s (((s.setStopping diagnostics).setRankState su.rank su.state).setPhase su.rank .stopped) :=
    ((setStopping_effects diagnostics).trans (setRankState_effects su.rank (armed_of_terminal hEnd))).tail
      (.halt su.rank rfl (.down hDown))
  have hEnded t (h : Effects P s t) :
      Effects P s (if (t.runs t.runID).terminal = true then t else t.setRun .failed) := by
    split
    · exact h
    · exact h.tail (.quiet (quiet_setRun _ _))
  exact ((hEnded _ (hStop _)).trans (dispatchRanks_effects env _)).trans checkStopComplete_effects

theorem onStateUpdate_effects (hArmed : su.runID = s.runID → su.state.armed = true →
      ∃ fact ∈ s.history, fact.reportsArmed s.runID su.rank = true)
    (hDown : su.runID = s.runID → terminalWorkloadState su.state = true → live s.runID su.rank s.history = false) :
    Effects P s (s.onStateUpdate env su) := by
  unfold onStateUpdate
  split
  · exact .refl
  rename_i hRun
  have hRun : su.runID = s.runID := (not_ne_iff.mp hRun).symm
  cases hWant : s.desired with
  | stopped =>
    dsimp only
    split
    next hEnd =>
      refine .trans (setRankState_effects su.rank (armed_of_terminal hEnd)) ?_
      exact settleStopped_effects su.rank hWant (.down (hDown hRun hEnd))
    · split
      · exact .refl
      refine .trans ?_ (dispatchNext_effects env su.rank _)
      have hMarked : Effects P s (s.setRankState su.rank .stopping) := setRankState_effects su.rank rfl
      refine .tail (hMarked.tail (.halt su.rank hWant .stopping)) (.quiet ?_)
      exact ⟨rfl, rfl, hWant.symm, rfl, rfl, rfl, rfl, rfl, rfl, rfl⟩
  | running =>
    dsimp only
    split
    next hEnd => exact failWorkload_effects env hEnd (hDown hRun hEnd)
    · exact observe_effects env (hArmed hRun)

section Results

variable {c : Command} {cr : CommandResult} {op : Op} (id : CommandID)

@[simp] theorem inflightTake_desired : (s.inflightTake id).desired = s.desired := rfl

@[simp] theorem inflightTake_runID : (s.inflightTake id).runID = s.runID := rfl

@[simp] theorem inflightTake_history : (s.inflightTake id).history = s.history := rfl

theorem inflightTake_effects : Effects P s (s.inflightTake id) := (Effect.forget _).chain

theorem take_fail_effects (rank : Rank) (code message : String) (hFail : P.fail) :
    Effects P s ((s.inflightTake id).failDispatch rank code message) :=
  (inflightTake_effects id).trans (failDispatch_effects rank code message hFail)

theorem onInspectResult_effects (hHead : s.history.head? = some (.answered c cr)) (hOp : c.op = .inspect)
    (hRun : c.run = s.runID) :
    Effects P s ((s.inflightTake c.id).onInspectResult env c.rank cr) := by
  obtain ⟨rest, hHist⟩ : ∃ rest, s.history = .answered c cr :: rest := List.head?_eq_some_iff.mp hHead
  unfold onInspectResult
  refine .trans (inflightTake_effects c.id) ?_
  split
  next hOk =>
    refine onStateUpdate_effects env (fun _ hArmed => ⟨.answered c cr, ?_, ?_⟩) (fun _ hEnd => ?_)
    · simp [hHist]
    · simpa [Fact.reportsArmed, hRun, hOp, hOk] using hArmed
    · rw [inflightTake_history, hHist]
      exact live_cons_of_confirmsDown rest (by simpa [Fact.confirmsDown, hRun, hOp, hOk] using hEnd)
  · split
    next hNotOk hGone =>
      refine onStateUpdate_effects env (fun _ hArmed => by cases hArmed) (fun _ _ => ?_)
      rw [inflightTake_history, hHist]
      exact live_cons_of_confirmsDown rest (by simp [Fact.confirmsDown, hRun, hOp, hNotOk, hGone])
    · exact .refl

variable (hOut : c ∈ s.outstanding) (hHead : s.history.head? = some (.answered c cr))

include hOut hHead

theorem ack_effects {target : Phase} (hOp : c.op = op) (hAck : Acks P s c.rank cr op target) :
    Effects P s ((s.inflightTake c.id).setPhase c.rank target) :=
  (Effect.ack c cr hOut hHead (hOp ▸ hAck)).chain

theorem ack_advance_effects {target : Phase} (hOp : c.op = op) (hAck : Acks P s c.rank cr op target) :
    Effects P s ((s.inflightTake c.id).advance env c.rank target) :=
  (ack_effects hOut hHead hOp hAck).trans (dispatchNext_effects env c.rank _)

theorem ack_settleStopped_effects (hOp : c.op = op) (hAck : Acks P s c.rank cr op .stopped) :
    Effects P s ((s.inflightTake c.id).settleStopped c.rank) :=
  (ack_effects hOut hHead hOp hAck).trans checkStopComplete_effects

theorem ack_started_effects {t : Deployment} (hOp : c.op = op) (hAck : Acks P s c.rank cr op .started)
    (hQuiet : Quiet ((s.inflightTake c.id).setPhase c.rank .started) t) (pl : Option Placement) :
    Effects P s ((t.dispatchNext env c.rank pl).wakeWorkerFirstHead env) :=
  (((ack_effects hOut hHead hOp hAck).tail (.quiet hQuiet)).trans (dispatchNext_effects env c.rank pl)).trans
    (wakeWorkerFirstHead_effects env)

variable (hFail : resultFails env s cr c.op = true → P.fail) (hLost : resultLoses s c cr = true → P.createLost)
  (hAgain : resultRepeats s c cr = true → P.again)
include hFail

include hLost hAgain in
theorem onCreateResult_effects (hOp : c.op = .create) :
    Effects P s ((s.inflightTake c.id).onCreateResult env c.rank cr) := by
  unfold onCreateResult
  simp only [inflightTake_desired]
  split
  next hError =>
    obtain ⟨hNotOk, hNotExists⟩ : cr.ok = false ∧ isContainerExists cr.error = false := by simpa using hError
    cases hWant : s.desired with
    | stopped =>
      refine ack_settleStopped_effects hOut hHead hOp (.createLost hWant fun hLive => hLost ?_)
      simp [resultLoses, hOp, hWant, hNotOk, hNotExists, hLive]
    | running =>
      exact take_fail_effects _ _ _ _ (hFail (by simp [resultFails, hOp, hWant, hNotOk, hNotExists]))
  next hAck =>
    cases hWant : s.desired with
    | stopped => exact ack_advance_effects env hOut hHead hOp (.createStopping hWant)
    | running =>
      refine ack_advance_effects env hOut hHead hOp (.create hWant fun hPast => hAgain ?_)
      simpa [resultRepeats, hOp, hWant, hPast, Decidable.or_iff_not_imp_left] using hAck

theorem onHostPrepareResult_effects (hOp : c.op = .hostPrepare) :
    Effects P s ((s.inflightTake c.id).onHostPrepareResult env c.rank cr) := by
  unfold onHostPrepareResult
  simp only [inflightTake_desired]
  cases hWant : s.desired with
  | stopped => exact ack_advance_effects env hOut hHead hOp (.hostPrepareStopping hWant)
  | running =>
    dsimp only
    split
    · exact ack_advance_effects env hOut hHead hOp (.hostPrepare hWant)
    next hNotOk => exact take_fail_effects _ _ _ _ (hFail (by simp [resultFails, hOp, hWant, hNotOk]))

include hAgain in
theorem onStartResult_effects (hOp : c.op = .start) :
    Effects P s ((s.inflightTake c.id).onStartResult env c.rank cr) := by
  unfold onStartResult
  simp only [inflightTake_desired]
  cases hWant : s.desired with
  | stopped => exact ack_advance_effects env hOut hHead hOp (.startStopping hWant)
  | running =>
    dsimp only
    split
    next hOk =>
      split
      next e hErr => exact take_fail_effects _ _ _ _ (hFail (by simp [resultFails, hOp, hWant, hErr]))
      split
      next hVerify =>
        have hVerify : s.recipe.verify = true := hVerify
        refine ack_advance_effects env hOut hHead hOp (.startVerify hWant hOk hVerify fun hPast => hAgain ?_)
        simp [resultRepeats, hOp, hWant, hOk, hVerify, hPast]
      next hVerify =>
        have hVerify : s.recipe.verify = false := Bool.eq_false_iff.mpr hVerify
        refine ack_started_effects env hOut hHead hOp (.start hWant hOk hVerify fun hPast => hAgain ?_) ?_ _
        · simp [resultRepeats, hOp, hWant, hOk, hVerify, hPast]
        split
        · exact .refl _
        · exact quiet_setRun _ _
    next hNo => exact take_fail_effects _ _ _ _ (hFail (by simp [resultFails, hOp, hWant, hNo]))

theorem onVerifyResult_effects (hOp : c.op = .verify) :
    Effects P s ((s.inflightTake c.id).onVerifyResult env c.rank cr) := by
  unfold onVerifyResult
  split
  · exact ack_started_effects env hOut hHead hOp .verify (quiet_setRun _ _) _
  next hNotOk => exact take_fail_effects _ _ _ _ (hFail (by simp [resultFails, hOp, hNotOk]))

omit hFail in
theorem onStopResult_effects (hOp : c.op = .stop) : Effects P s ((s.inflightTake c.id).onStopResult c.rank cr) := by
  unfold onStopResult
  split
  next hDown => exact ack_settleStopped_effects hOut hHead hOp (.stop hDown)
  · exact (inflightTake_effects c.id).tail (.quiet (quiet_noteDispatch _ _))

include hLost hAgain in
theorem settle_effects (hRun : c.run = s.runID) :
    Effects P s ((s.inflightTake c.id).settle env c.rank c.op cr) := by
  cases hOp : c.op <;> simp only [settle]
  case prepare =>
    split
    · exact ack_advance_effects env hOut hHead hOp .prepare
    next hNotOk => exact take_fail_effects _ _ _ _ (hFail (by simp [resultFails, hOp, hNotOk]))
  case stopPrepare =>
    split
    · exact ack_settleStopped_effects hOut hHead hOp .stopPrepare
    next hNotOk => exact take_fail_effects _ _ _ _ (hFail (by simp [resultFails, hOp, hNotOk]))
  case stopVerify =>
    split
    · exact ack_advance_effects env hOut hHead hOp .stopVerify
    next hNotOk => exact take_fail_effects _ _ _ _ (hFail (by simp [resultFails, hOp, hNotOk]))
  case verify => exact onVerifyResult_effects env hOut hHead hFail hOp
  case create => exact onCreateResult_effects env hOut hHead hFail hLost hAgain hOp
  case hostPrepare => exact onHostPrepareResult_effects env hOut hHead hFail hOp
  case start => exact onStartResult_effects env hOut hHead hFail hAgain hOp
  case inspect => exact onInspectResult_effects env hHead hOp hRun
  case stop => exact onStopResult_effects hOut hHead hOp

end Results

theorem onCommandResult_effects {c : Command} {cr : CommandResult} (hBase : Base s) (hSent : Fact.sent c ∈ s.history)
    (hHead : s.history.head? = some (.answered c cr))
    (hFail : settles s c = true → resultFails env s cr c.op = true → P.fail)
    (hLost : settles s c = true → resultLoses s c cr = true → P.createLost)
    (hAgain : settles s c = true → resultRepeats s c cr = true → P.again) :
    Effects P s (s.onCommandResult env c.id cr) := by
  unfold onCommandResult
  split
  · exact .refl
  rename_i command hFind
  have hMem : command ∈ s.inflight := List.mem_of_find?_eq_some hFind
  have hID : command.id = c.id := by simpa using List.find?_some hFind
  obtain ⟨rfl, hRun⟩ := hBase.matched c hSent command hMem hID
  split
  · exact inflightTake_effects c.id
  rename_i hLate
  have hSettles : settles s c = true := by
    rw [settles, decide_eq_true hMem, Bool.true_and, Bool.not_eq_true', ← Bool.decide_and]
    exact decide_eq_false hLate
  exact settle_effects env (mem_outstanding.mpr ⟨hSent, hMem⟩) hHead (hFail hSettles) (hLost hSettles) (hAgain hSettles) hRun

variable (plan : PlacementSet)

theorem launch_effects : Effects P s (s.launch env plan) := by
  have hFold (placements : List Placement) : ∀ t : Deployment, Effects P s t →
      Effects P s (placements.foldl (fun t pl => t.dispatchNext env pl.rank (some pl)) t) := by
    induction placements with
    | nil => exact fun t h => h
    | cons pl rest ih => exact fun t h => ih _ (h.trans (dispatchNext_effects env pl.rank _))
  exact hFold _ _ ((quiet_setRun s .planning).trans (quiet_setRun _ .waiting)).chain

theorem start_effects (hBegins : P.begins)
    (hDrained : s.desired = .stopped → s.observed = .stopped → s.outstanding ≠ [] → P.undrained)
    (hArmed : s.desired = .stopped → s.observed = .stopped → s.recipe.coordinatorRank.isSome →
      ∀ pl ∈ plan.entries, (s.rankStates pl.rank).armed = true → P.armed) :
    Effects P s (s.start env plan) := by
  unfold Deployment.start
  split
  next hStop =>
    have hBegun : Effects P s (s.restartRow plan) :=
      .tail (Effect.begin plan hBegins hStop.1 (hDrained hStop.1 hStop.2) (hArmed hStop.1 hStop.2)).chain
        (.quiet (by constructor <;> rfl))
    exact hBegun.trans (launch_effects env plan)
  · exact .refl

variable (nodeID : NodeID)

theorem converge_effects : Effects P s (s.converge env nodeID) := by
  unfold converge
  split
  · exact Quiet.chain (by constructor <;> rfl)
  split
  · exact .refl
  split
  · exact (dispatchRanks_effects env _).trans checkStopComplete_effects
  · exact dispatchRanks_effects env _

theorem markNodeOffline_effects : Effects P s (s.markNodeOffline env nodeID) := by
  have hFold (ranks : List Rank) : ∀ t : Deployment, Effects P s t →
      Effects P s (ranks.foldl (fun t rank => t.setRankState rank .offline) t) := by
    induction ranks with
    | nil => exact fun t h => h
    | cons rank rest ih => exact fun t h => ih _ (h.trans (setRankState_effects rank rfl))
  unfold markNodeOffline
  dsimp only
  split
  · exact .refl
  · exact (hFold _ s .refl).tail (.quiet (by constructor <;> rfl))

variable (rank : Rank)

theorem gateEnter_effects : Effects P s (s.gateEnter rank) := by
  unfold gateEnter
  split
  · exact .refl
  · exact (quiet_setGate s rank _).chain

variable (err : Option String)

theorem gateClose_effects : Effects P s (s.gateClose rank err) := by
  unfold gateClose
  split
  · exact .refl
  · split <;> exact (quiet_setGate s rank _).chain

theorem gateLeave_effects : Effects (permits s (.gateLeave env rank err)) s (s.gateLeave env rank err) := by
  unfold gateLeave
  split
  · exact .refl
  rename_i gate hGate
  refine .trans ?_ (gateClose_effects rank err)
  unfold gateDispatch
  split
  next hActs =>
    have hLeaving : leaving s rank = some gate := by
      simpa [leaving, hGate] using hActs
    cases err with
    | some e =>
      have hFails : failsDispatch s (.gateLeave env rank (some e)) = true := by simp [failsDispatch, hLeaving]
      exact .trans (failDispatch_effects rank _ e hFails) (stop_effects env)
    | none =>
      have hWant : s.desired = .running := by
        have hAuth := hActs.2
        simp only [authorizes, Bool.and_eq_true, decide_eq_true_eq] at hAuth
        exact hAuth.1
      have hReady : s.dispatchReady env rank gate.placement = s.dispatchRunning env rank gate.placement := by
        rw [dispatchReady, hWant]
      rw [hReady]
      refine dispatchRunning_effects env rank gate.placement hWant (fun h => ?_) (fun hPhase h => ?_)
        (fun hSpec h => ?_)
      · simp [permits, failsDispatch, hLeaving, h]
      · simp [permits, dispatchesStart, hWant, hPhase, h]
      · simpa [permits, launches, hLeaving, hSpec, and_assoc] using h
  · exact .refl

theorem next_effects (hBase : Base s) {e : Event} (hOn : system.enabled s e) : Effects (permits s e) s (next s e) := by
  cases e with
  | result env c cr =>
    have hHeard : Effect (permits s (.result env c cr)) s (s.record (.answered c cr)) :=
      .hear _ (fun _ h => by cases h) (fun _ _ h => by cases h; exact hOn)
    have hKept : Base (s.record (.answered c cr)) := hBase.effect Bool.false_ne_true hHeard
    refine .trans hHeard.chain (onCommandResult_effects env hKept (List.mem_cons_of_mem _ hOn) rfl ?_ ?_ ?_)
    · exact fun hSettles hFails => Bool.and_eq_true_iff.mpr ⟨hSettles, hFails⟩
    · intro hSettles hLoses
      obtain ⟨hCreate, hLive⟩ := Bool.and_eq_true_iff.mp hLoses
      refine Bool.and_eq_true_iff.mpr ⟨hSettles, Bool.and_eq_true_iff.mpr ⟨hCreate, ?_⟩⟩
      exact live_of_live_cons (fun _ h => by cases h) hLive
    · exact fun hSettles hRepeats => Bool.and_eq_true_iff.mpr ⟨hSettles, hRepeats⟩
  | report env su =>
    refine .trans (Effect.hear (.reported su.runID su.rank su.state) (fun _ h => by cases h)
      (fun _ _ h => by cases h)).chain ?_
    refine onStateUpdate_effects env (fun hRun hArmed => ⟨_, List.mem_cons_self, ?_⟩) (fun hRun hEnd => ?_)
    · have hRun : su.runID = s.runID := hRun
      simp [Fact.reportsArmed, record, hRun, hArmed]
    · have hRun : su.runID = s.runID := hRun
      exact live_cons_of_confirmsDown _ (by simp [Fact.confirmsDown, record, hRun, hEnd])
  | stop env => exact stop_effects env
  | start env plan =>
    refine start_effects env plan rfl (fun hWant hSeen h => ?_)
      (fun hWant hSeen hCoord pl hPl h => ?_)
    · simp [permits, startsUndrained, hWant, hSeen, h]
    · have hAny : plan.entries.any (fun pl => (s.rankStates pl.rank).armed) = true := List.any_eq_true.mpr ⟨pl, hPl, h⟩
      simp [permits, startsArmed, hWant, hSeen, hCoord, hAny]
  | converge env nodeID => exact converge_effects env nodeID
  | markNodeOffline env nodeID => exact markNodeOffline_effects env nodeID
  | gateEnter rank => exact gateEnter_effects rank
  | gateLeave env rank err => exact gateLeave_effects env rank err
  | restart => exact .tail Effect.reset.chain (.quiet (by constructor <;> rfl))

theorem base_plannedRow (recipe : Recipe) (plan : PlacementSet) : Base (plannedRow recipe plan) where
  sentBelow _ h := by cases h
  markedBelow _ h := by cases h
  pastRuns _ h := by cases h
  matched _ h := by cases h

def Permits.none : Permits := ⟨False, False, False, False, False, False, False, fun _ => False⟩

theorem invariant_of_effects (allowed : Permits → Prop) (I : Deployment → Prop) (hNone : allowed .none)
    (hDrained : ∀ P, allowed P → ¬ P.undrained) (hInit : ∀ recipe plan, I (plannedRow recipe plan))
    (hStep : ∀ P, allowed P → ∀ s t, Base s → I s → Effect P s t → I t)
    (hReach : system.Reachable (fun s e => allowed (permits s e)) s) : Base s ∧ I s := by
  refine hReach.invariant (I := fun s => Base s ∧ I s) ?_ ?_
  · rintro s ⟨env, recipe, plan, rfl⟩
    have hBase := base_plannedRow recipe plan
    have hLaunched : Effects .none (plannedRow recipe plan) (createPlanned env recipe plan) := launch_effects env plan
    exact ⟨hBase.effects (hDrained _ hNone) hLaunched,
      hLaunched.preserve (hDrained _ hNone) (hStep _ hNone) hBase (hInit recipe plan)⟩
  rintro s e ⟨hBase, hI⟩ hOn hGuard
  have hChain := next_effects hBase hOn
  exact ⟨hBase.effects (hDrained _ hGuard) hChain, hChain.preserve (hDrained _ hGuard) (hStep _ hGuard) hBase hI⟩

end LocalModelWorks.Deploy
