import LocalModelWorks.Deploy.Effect

/-!
# Handler calls as chains of effects

Which of the singled-out behaviours an event can show is read off the state before it, and
each handler is then shown to be a chain of the effects that this permits.
-/

namespace LocalModelWorks.Deploy

open Deployment Effect

variable (s : Deployment)

def settles (c : Command) : Bool :=
  c.entry ∈ s.inflight && !(s.dispatch c.rank = .stopped && s.desired = .stopped)

def resultFails (env : Env) (s : Deployment) (cr : CommandResult) : Op → Bool
  | .prepare | .verify | .stopPrepare | .stopVerify => !cr.ok
  | .create => s.desired = .running && !cr.ok && !isContainerExists cr.error
  | .hostPrepare => s.desired = .running && !cr.ok
  | .start => s.desired = .running && (!startAccepted cr || env.manifestErr.isSome)
  | .inspect | .stop => false

def resultLoses (c : Command) (cr : CommandResult) : Bool :=
  c.op = .create && s.desired = .stopped && !cr.ok && !isContainerExists cr.error && live s.runID c.rank s.history

/-- A CREATE or START is acknowledged after the rank has left the phase that this writes. -/
def resultRepeats (c : Command) (cr : CommandResult) : Bool :=
  s.desired = .running && match c.op with
    | .create => (cr.ok || isContainerExists cr.error) && Phase.created.order < (s.dispatch c.rank).order
    | .start => startAccepted cr &&
        (if s.recipe.verify then Phase.verifying else .started).order < (s.dispatch c.rank).order
    | _ => false

def dispatchFails (env : Env) (s : Deployment) (rank : Rank) (pl : Option Placement) : Bool :=
  match s.dispatch rank with
  | .none => env.manifestErr.isSome || (s.recipe.prepare && !s.inflightHas rank .prepare &&
      (env.extensionErr.isSome || !env.accepts pl s.nextID))
  | .preparing => env.manifestErr.isSome || !s.recipe.prepare
  | .created | .hostPreparing => !s.inflightHas rank .hostPrepare && env.specErr.isSome
  | .hostPrepared => env.workloadErr.isSome || (s.startReady rank && env.specErr.isSome)
  | .verifying => env.manifestErr.isSome || !s.recipe.verify
  | _ => false

def leaving (rank : Rank) : Option Gate :=
  (s.gates rank).filter fun gate => gate.stage ≠ .skipped && s.authorizes gate

def startsRun : Event → Bool
  | .start _ _ => true
  | _ => false

def failsDispatch : Event → Bool
  | .result env c cr => settles s c && resultFails env s cr c.op
  | .gateLeave env rank err =>
    (leaving s rank).any fun gate => err.isSome || dispatchFails env s rank gate.placement
  | _ => false

def losesCreate : Event → Bool
  | .result _ c cr => settles s c && resultLoses s c cr
  | _ => false

def startsUndrained : Event → Bool
  | .start _ _ => s.desired = .stopped && s.observed = .stopped && !s.outstanding.isEmpty
  | _ => false

def startsArmed : Event → Bool
  | .start _ plan => s.desired = .stopped && s.observed = .stopped && s.recipe.coordinatorRank.isSome &&
      plan.entries.any fun pl => (s.rankStates pl.rank).armed
  | _ => false

def answersAgain : Event → Bool
  | .result _ c cr => settles s c && resultRepeats s c cr
  | _ => false

def launches : Event → Bool
  | .gateLeave env rank err => (leaving s rank).isSome && err.isNone && env.specErr.isNone &&
      (s.dispatch rank = .pulled || (s.dispatch rank = .hostPrepared && env.workloadErr.isNone && s.startReady rank))
  | _ => false

def dispatchesStart (rank : Rank) : Event → Bool
  | .gateLeave _ r _ => r = rank && s.desired = .running && s.dispatch rank = .hostPrepared && s.startReady rank
  | _ => false

def permits (e : Event) : Permits where
  begins := startsRun e = true
  fail := failsDispatch s e = true
  createLost := losesCreate s e = true
  undrained := startsUndrained s e = true
  armed := startsArmed s e = true
  again := answersAgain s e = true
  launch := launches s e = true
  start rank := dispatchesStart s rank e = true

variable {P : Permits} {s : Deployment} (env : Env)

theorem Quiet.chain {t : Deployment} (h : Quiet s t) : Effects P s t := (quiet h).chain

theorem checkStopComplete_effects : Effects P s s.checkStopComplete := by
  unfold checkStopComplete
  split
  next hAll =>
    have hEnded : Quiet s (if (s.runs s.runID).terminal = true then s else s.setRun .cancelled) := by
      split
      · exact .refl s
      · exact quiet_setRun s _
    refine .tail (finishStop fun rank hRank => ?_).chain (.quiet ?_)
    · simpa using List.all_eq_true.mp hAll rank hRank
    · exact { hEnded with desired := rfl, leases := rfl }
  · exact .refl

theorem setStopping_effects (diagnostics : List Diag.Diagnostic) : Effects P s (s.setStopping diagnostics) :=
  .tail stopRequested.chain (.quiet (by constructor <;> rfl))

theorem stopExtension_effects (rank : Rank) (pl : Option Placement) {op : Op} (hSend : Sendable P s rank op)
    (hStop : op = .stopPrepare ∨ op = .stopVerify) : Effects P s (s.stopExtension env rank pl op) := by
  unfold stopExtension
  split
  · exact .refl
  have hDropped : Sendable P (s.inflightDrop rank [.prepare, .verify]) rank op := by
    rcases hStop with rfl | rfl <;> exact hSend
  have hSent : Effects P s (sendWorkload env (s.inflightDrop rank [.prepare, .verify]) rank pl op) :=
    .tail (forget _).chain (.send env rank pl op hDropped)
  split
  · exact hSent
  · exact hSent.tail (.quiet (quiet_noteDispatch _ _))

theorem settleStopped_effects (rank : Rank) (hDesired : s.desired = .stopped) (hHalt : Halts s rank .stopped) :
    Effects P s (s.settleStopped rank) :=
  (halt rank hDesired hHalt).chain.trans checkStopComplete_effects

theorem dispatchStopped_effects (rank : Rank) (pl : Option Placement) (hDesired : s.desired = .stopped) :
    Effects P s (s.dispatchStopped env rank pl) := by
  unfold dispatchStopped
  cases hPhase : s.dispatch rank with
  | preparing => exact stopExtension_effects env rank pl ⟨hDesired, hPhase⟩ (.inl rfl)
  | verifying => exact stopExtension_effects env rank pl hDesired (.inr rfl)
  | prepared => exact settleStopped_effects rank hDesired (.idle (.inr hPhase))
  | none => exact settleStopped_effects rank hDesired (.idle (.inl hPhase))
  | hostPreparing =>
    dsimp only
    split
    · exact .refl
    · exact (send env rank pl .stop hDesired).chain
  | pulled | created | hostPrepared | stopping => exact (send env rank pl .stop hDesired).chain
  | started => exact .tail (halt rank hDesired .stopping).chain (.send env rank pl .stop hDesired)
  | stopped => exact .refl

theorem dispatchNext_effects (rank : Rank) (pl : Option Placement) : Effects P s (s.dispatchNext env rank pl) := by
  unfold dispatchNext
  cases hDesired : s.desired with
  | running => exact (quiet_wake s rank pl).chain
  | stopped => exact dispatchStopped_effects env rank pl hDesired

theorem dispatchRank_effects (rank : Rank) : Effects P s (s.dispatchRank env rank) := by
  unfold dispatchRank
  split
  · exact dispatchNext_effects env rank _
  · exact .refl

theorem dispatchRanks_effects (ranks : List Rank) : Effects P s (s.dispatchRanks env ranks) := by
  induction ranks generalizing s with
  | nil => exact .refl
  | cons rank rest ih => exact (dispatchRank_effects env rank).trans ih

theorem wakeWorkerFirstHead_effects : Effects P s (s.wakeWorkerFirstHead env) := by
  unfold wakeWorkerFirstHead
  split
  · exact dispatchRank_effects env 0
  · exact .refl

theorem driveStop_effects : Effects P s (s.driveStop env) :=
  (dispatchRanks_effects env s.placement.allRanks).trans checkStopComplete_effects

theorem stop_effects : Effects P s (s.stop env) := by
  unfold Deployment.stop
  split
  · exact .refl
  split
  · split
    · exact ((setStopping_effects _).tail (.quiet (quiet_setRun _ _))).trans (driveStop_effects env)
    · exact setStopping_effects _
  · exact (setStopping_effects _).trans (driveStop_effects env)

theorem releaseIfTerminal_effects (hFail : P.fail) : Effects P s s.releaseIfTerminal := by
  unfold releaseIfTerminal
  split
  · exact (release hFail).chain
  · exact .refl

theorem failDispatch_effects (rank : Rank) (code message : String) (hFail : P.fail) :
    Effects P s (s.failDispatch rank code message) := by
  have hQuiet d : Quiet s (((s.noteDispatch d).setObserved .failed).setRun .failed) :=
    ((quiet_noteDispatch s d).trans ((by constructor <;> rfl))).trans (quiet_setRun _ _)
  exact (hQuiet _).chain.trans (releaseIfTerminal_effects hFail)

theorem setPhase_self {rank : Rank} {phase : Phase} (h : s.dispatch rank = phase) : s.setPhase rank phase = s := by
  unfold setPhase
  rw [← h, Function.update_eq_self]

theorem enterPrepare_effects (rank : Rank) (hDesired : s.desired = .running)
    (hPhase : s.dispatch rank = .none ∨ s.dispatch rank = .preparing) : Effects P s (s.setPhase rank .preparing) := by
  rcases hPhase with hPhase | hPhase
  · exact (advance rank hDesired (hPhase ▸ .enterPrepare)).chain
  · rw [setPhase_self hPhase]

section

variable (rank : Rank) (pl : Option Placement)
include rank pl

theorem sendPrepare_effects (hDesired : s.desired = .running)
    (hPhase : s.dispatch rank = .none ∨ s.dispatch rank = .preparing) :
    Effects P s (s.sendExtension env rank pl .prepare).1 := by
  unfold sendExtension
  split
  · exact .refl
  rename_i hIdle
  split
  · exact .refl
  refine (enterPrepare_effects rank hDesired hPhase).tail (.send env rank pl .prepare ⟨hDesired, ?_, ?_⟩)
  · exact Function.update_self ..
  · exact Bool.eq_false_iff.mpr hIdle

theorem sendVerify_effects (hDesired : s.desired = .running) (hPhase : s.dispatch rank = .verifying) :
    Effects P s (s.sendExtension env rank pl .verify).1 := by
  unfold sendExtension
  split
  · exact .refl
  rename_i hIdle
  split
  · exact .refl
  have hQuiet : Quiet s (s.enterExtension rank .verify) := by
    simp only [enterExtension, setPhase_self hPhase]
    exact quiet_setRun s _
  refine hQuiet.chain.tail (.send env rank pl .verify ⟨hQuiet.desired.trans hDesired, ?_, ?_⟩)
  · rw [hQuiet.dispatch, hPhase]
  · rw [inflightHas, hQuiet.inflight]
    exact Bool.eq_false_iff.mpr hIdle

theorem sendExtension_error {op : Op} {e : String} (h : (s.sendExtension env rank pl op).2 = some e) :
    s.inflightHas rank op = false ∧ (env.extensionErr.isSome = true ∨ env.accepts pl s.nextID = false) := by
  unfold sendExtension at h
  split at h
  · cases h
  rename_i hIdle
  refine ⟨Bool.eq_false_iff.mpr hIdle, ?_⟩
  split at h
  next hErr => exact .inl (by rw [hErr]; rfl)
  split at h
  · cases h
  next hNo => exact .inr (Bool.eq_false_iff.mpr hNo)

theorem dispatchNone_effects (hDesired : s.desired = .running) (hPhase : s.dispatch rank = .none)
    (hFail : dispatchFails env s rank pl = true → P.fail) :
    Effects P s (s.dispatchNone env rank pl) := by
  simp only [dispatchFails, hPhase] at hFail
  unfold dispatchNone
  split
  next e hErr => exact failDispatch_effects rank _ _ (hFail (by rw [hErr]; rfl))
  split
  next hPrepare =>
    have hSent : Effects P s (s.sendExtension env rank pl .prepare).1 :=
      sendPrepare_effects env rank pl hDesired (.inl hPhase)
    split
    next sent e hEq =>
      have hError := sendExtension_error env rank pl (congrArg Prod.snd hEq)
      rw [hEq] at hSent
      refine hSent.trans (failDispatch_effects rank _ _ (hFail ?_))
      rcases hError with ⟨hIdle, hErr | hErr⟩ <;> simp [hPrepare, hIdle, hErr]
    next sent hEq =>
      rw [hEq] at hSent
      exact hSent
  · exact (advance rank hDesired (hPhase ▸ .skipPrepare)).chain.trans (dispatchNext_effects env rank pl)

theorem resumeExtension_effects {op : Op} {declared : Bool} {code unavailable : String}
    (hSent : Effects P s (s.sendExtension env rank pl op).1)
    (hFail : (env.manifestErr.isSome || !declared) = true → P.fail) :
    Effects P s (s.resumeExtension env rank pl op declared code unavailable) := by
  unfold resumeExtension
  split
  next hErr => exact failDispatch_effects rank _ _ (hFail hErr)
  split
  next sent e hEq =>
    rw [hEq] at hSent
    exact hSent.tail (.quiet (quiet_noteDispatch _ _))
  next sent hEq =>
    rw [hEq] at hSent
    exact hSent

section

variable (hDesired : s.desired = .running)
include hDesired

theorem dispatchPulled_effects (hPhase : s.dispatch rank = .pulled) (hLaunch : env.specErr.isNone = true → P.launch) :
    Effects P s (s.dispatchPulled env rank pl) := by
  unfold dispatchPulled
  split
  · exact (quiet_noteDispatch s _).chain
  next hSpec => exact (send env rank pl .create ⟨hDesired, hPhase, hLaunch (by rw [hSpec]; rfl)⟩).chain

theorem dispatchCreated_effects (hPhase : s.dispatch rank = .created ∨ s.dispatch rank = .hostPreparing)
    (hFail : (!s.inflightHas rank .hostPrepare && env.specErr.isSome) = true → P.fail) :
    Effects P s (s.dispatchCreated env rank pl) := by
  unfold dispatchCreated
  split
  · exact .refl
  rename_i hBusy
  have hIdle : s.inflightHas rank .hostPrepare = false := Bool.eq_false_iff.mpr hBusy
  split
  next e hErr => exact failDispatch_effects rank _ _ (hFail (by rw [hIdle, hErr]; rfl))
  split
  · have hEntered : Effects P s (s.setPhase rank .hostPreparing) := by
      rcases hPhase with hPhase | hPhase
      · exact (advance rank hDesired (hPhase ▸ .enterHostPrepare)).chain
      · rw [setPhase_self hPhase]
    have hSent := hEntered.tail (.send env rank pl .hostPrepare ⟨hDesired, Function.update_self .., hIdle⟩)
    split
    · exact hSent
    · exact hSent.tail (.quiet (quiet_noteDispatch _ _))
  refine .trans (advance rank hDesired ?_).chain (dispatchNext_effects env rank pl)
  rcases hPhase with hPhase | hPhase
  · exact hPhase ▸ .skipHostPrepare
  · exact hPhase ▸ .leaveHostPrepare hIdle

theorem dispatchHostPrepared_effects (hPhase : s.dispatch rank = .hostPrepared)
    (hFail : (env.workloadErr.isSome || (s.startReady rank && env.specErr.isSome)) = true → P.fail)
    (hStart : s.startReady rank = true → P.start rank)
    (hLaunch : env.specErr.isNone = true → env.workloadErr.isNone = true → s.startReady rank = true → P.launch) :
    Effects P s (s.dispatchHostPrepared env rank pl) := by
  unfold dispatchHostPrepared workerStartReady
  cases hErr : env.workloadErr with
  | some e => exact failDispatch_effects rank _ _ (hFail (by rw [hErr]; rfl))
  | none =>
    cases hReady : s.startReady rank with
    | false => exact .refl
    | true =>
      cases hSpec : env.specErr with
      | some e => exact failDispatch_effects rank _ _ (hFail (by simp [hReady, hSpec]))
      | none =>
        have hLaunched : P.launch := hLaunch (by rw [hSpec]; rfl) (by rw [hErr]; rfl) hReady
        exact (send env rank pl .start ⟨hDesired, hPhase, hStart hReady, hLaunched⟩).chain

theorem dispatchRunning_effects (hFail : dispatchFails env s rank pl = true → P.fail)
    (hStart : s.dispatch rank = .hostPrepared → s.startReady rank = true → P.start rank)
    (hLaunch : env.specErr.isNone = true → s.dispatch rank = .pulled ∨
      (s.dispatch rank = .hostPrepared ∧ env.workloadErr.isNone = true ∧ s.startReady rank = true) → P.launch) :
    Effects P s (s.dispatchRunning env rank pl) := by
  unfold dispatchRunning
  cases hPhase : s.dispatch rank with
  | none => exact dispatchNone_effects env rank pl hDesired hPhase hFail
  | preparing =>
    simp only [dispatchFails, hPhase] at hFail
    exact resumeExtension_effects env rank pl (sendPrepare_effects env rank pl hDesired (.inr hPhase)) hFail
  | prepared =>
    exact (advance rank hDesired (hPhase ▸ .pulled)).chain.trans (dispatchNext_effects env rank pl)
  | pulled => exact dispatchPulled_effects env rank pl hDesired hPhase fun hSpec => hLaunch hSpec (.inl hPhase)
  | created =>
    simp only [dispatchFails, hPhase] at hFail
    exact dispatchCreated_effects env rank pl hDesired (.inl hPhase) hFail
  | hostPreparing =>
    simp only [dispatchFails, hPhase] at hFail
    exact dispatchCreated_effects env rank pl hDesired (.inr hPhase) hFail
  | hostPrepared =>
    simp only [dispatchFails, hPhase] at hFail
    refine dispatchHostPrepared_effects env rank pl hDesired hPhase hFail (hStart hPhase) fun hSpec hErr hReady => ?_
    exact hLaunch hSpec (.inr ⟨hPhase, hErr, hReady⟩)
  | started => exact (send env rank pl .inspect hDesired).chain
  | verifying =>
    simp only [dispatchFails, hPhase] at hFail
    exact resumeExtension_effects env rank pl (sendVerify_effects env rank pl hDesired hPhase) hFail
  | stopping | stopped => exact .refl

end

end

end LocalModelWorks.Deploy
