import LocalModelWorks.Deploy.GateDrive
import LocalModelWorks.Deploy.Isolation

/-!
# Driving a refused command again

While a deployment is stopping, a `Converge` drives the ranks of the node at once.
-/

namespace LocalModelWorks.Deploy

open Deployment Transition

variable {env : Env} {s t u : Deployment} {rank : Rank} {pl : Option Placement} {op : Op}

structure Elsewhere (s t : Deployment) (rank : Rank) : Prop where
  stands : Stands s t rank
  placement : t.placement = s.placement
  inflight : ∀ op, t.inflightHas rank op = s.inflightHas rank op
  history : ∃ new, t.history = new ++ s.history ∧ ∀ c, Fact.sent c ∈ new → c.rank ≠ rank

theorem Elsewhere.refl (s : Deployment) (rank : Rank) : Elsewhere s s rank :=
  ⟨.refl s rank, rfl, fun _ => rfl, [], rfl, fun _ h => by cases h⟩

theorem Elsewhere.trans (hFirst : Elsewhere s t rank) (hSecond : Elsewhere t u rank) : Elsewhere s u rank := by
  obtain ⟨first, hHist, hOthers⟩ := hFirst.history
  obtain ⟨second, hHist', hOthers'⟩ := hSecond.history
  refine ⟨hFirst.stands.trans hSecond.stands, hSecond.placement.trans hFirst.placement,
    fun op => (hSecond.inflight op).trans (hFirst.inflight op), second ++ first, ?_, fun c hc => ?_⟩
  · rw [hHist', hHist, List.append_assoc]
  · exact (List.mem_append.mp hc).elim (hOthers' c) (hOthers c)

theorem Elsewhere.not_resends (h : Elsewhere s t rank) : ¬ Resends s t rank op := by
  rintro ⟨new, hNew, c, hc, hRank, _⟩
  obtain ⟨new', hNew', hOthers⟩ := h.history
  have hSame : new = new' := List.append_cancel_right (hNew.symm.trans hNew')
  exact hOthers c (hSame ▸ hc) hRank

theorem Elsewhere.resends (h : Elsewhere s t rank) (hSent : Resends t u rank op) : Resends s u rank op := by
  obtain ⟨before, hHist, _⟩ := h.history
  obtain ⟨new, hNew, c, hc, hRank, hRun, hOp⟩ := hSent
  exact ⟨new ++ before, by rw [hNew, hHist, List.append_assoc], c, List.mem_append_left before hc, hRank,
    hRun.trans h.stands.runID, hOp⟩

theorem Inert.elsewhere (h : Inert s t) : Elsewhere s t rank :=
  ⟨h.stands, h.placement, fun op => by simp only [inflightHas, h.inflight], [], h.history, fun _ hc => by cases hc⟩

variable {r : Rank}

theorem elsewhere_sendWorkload (hNe : rank ≠ r) : Elsewhere s (s.sendWorkload env r pl op) rank := by
  obtain ⟨hRecipe, hPlace, hWant, hSend, hRunID, _⟩ := sendWorkload_frame env s r pl op
  refine ⟨⟨hRecipe, hWant, hRunID, congrFun hSend rank⟩, hPlace, fun other => ?_, ?_⟩
  · simp [inflightHas, hNe.symm]
  unfold sendWorkload
  split
  · refine ⟨[_], rfl, fun c hc => ?_⟩
    cases List.mem_singleton.mp hc
    exact hNe.symm
  · exact ⟨[], rfl, fun _ hc => by cases hc⟩

theorem elsewhere_setPhase (hNe : rank ≠ r) (target : Phase) : Elsewhere s (s.setPhase r target) rank :=
  ⟨⟨rfl, rfl, rfl, Function.update_of_ne hNe ..⟩, rfl, fun _ => rfl, [], rfl, fun _ hc => by cases hc⟩

theorem elsewhere_inflightDrop (hNe : rank ≠ r) (ops : List Op) : Elsewhere s (s.inflightDrop r ops) rank := by
  refine ⟨⟨rfl, rfl, rfl, rfl⟩, rfl, fun op => ?_, [], rfl, fun _ hc => by cases hc⟩
  simp only [inflightHas, inflightDrop, List.any_filter]
  congr 1
  funext command
  by_cases hRank : command.rank = rank
  · simp [hRank, hNe]
  · simp [hRank]

theorem elsewhere_stopExtension (hNe : rank ≠ r) : Elsewhere s (s.stopExtension env r pl op) rank :=
  stopExtension_rule (.refl s rank) ((elsewhere_inflightDrop hNe _).trans (elsewhere_sendWorkload hNe))
    fun hSent hInert => hSent.trans hInert.elsewhere

theorem elsewhere_checkStopComplete (hWant : s.desired = .stopped) : Elsewhere s s.checkStopComplete rank := by
  refine checkStopComplete_rule (.refl s rank) fun hEnded => Inert.elsewhere ?_
  exact { hEnded with desired := hWant.symm }

theorem elsewhere_dispatchStopped (hNe : rank ≠ r) (hWant : s.desired = .stopped) :
    Elsewhere s (s.dispatchStopped env r pl) rank := by
  refine dispatchStopped_rule (.refl s rank) (fun _ => ?_) (fun _ => ?_) (fun _ => ?_) (fun _ => ?_) fun _ => ?_
  · exact elsewhere_stopExtension hNe
  · exact elsewhere_stopExtension hNe
  · exact (elsewhere_setPhase hNe .stopped).trans (elsewhere_checkStopComplete hWant)
  · exact elsewhere_sendWorkload hNe
  · exact (elsewhere_setPhase hNe .stopping).trans (elsewhere_sendWorkload hNe)

theorem dispatchRank_stopped (hWant : s.desired = .stopped) (r : Rank) :
    s.dispatchRank env r = match s.placement.entryFor r with
      | some pl => s.dispatchStopped env r (some pl)
      | none => s := by
  unfold dispatchRank
  cases s.placement.entryFor r with
  | none => rfl
  | some pl => simp only [dispatchNext, hWant]

theorem elsewhere_dispatchRank (hNe : rank ≠ r) (hWant : s.desired = .stopped) :
    Elsewhere s (s.dispatchRank env r) rank := by
  rw [dispatchRank_stopped hWant]
  split
  · exact elsewhere_dispatchStopped hNe hWant
  · exact .refl s rank

theorem Elsewhere.redrives (h : Elsewhere s t rank) (hAwaits : Awaits s rank op) (hWant : s.desired = .stopped) :
    redrives env t rank op = redrives env s rank op := by
  cases op with
  | stopPrepare | stopVerify | stop => simp only [Deploy.redrives, h.inflight, h.stands.phase]
  | _ =>
    have hRun := hAwaits.1
    rw [hWant] at hRun
    cases hRun

variable {home : Placement}

theorem dispatchRanks_resends (ranks : List Rank) (hWant : s.desired = .stopped)
    (hHome : s.placement.entryFor rank = some home) (hAwaits : Awaits s rank op)
    (hRedrives : redrives env s rank op = true) (hSend : ∀ id, env.send id = true) (hMem : rank ∈ ranks) :
    Resends s (s.dispatchRanks env ranks) rank op := by
  induction ranks generalizing s with
  | nil => cases hMem
  | cons r ranks ih =>
    by_cases hRank : rank = r
    · subst hRank
      have hDrives : Drives env s (s.dispatchRank env rank) rank (some home) op := by
        rw [dispatchRank_stopped hWant, hHome]
        have hSpec := @dispatchStopped_spec env s rank (some home) op hAwaits hWant
        rwa [if_pos hRedrives] at hSpec
      have hNow := hDrives.resends (by simp [Env.accepts, hSend])
      exact hNow.suffix (dispatchRanks_effects env ranks : Effects .none _ _).history_suffix
    have hElse : Elsewhere s (s.dispatchRank env r) rank := elsewhere_dispatchRank hRank hWant
    exact hElse.resends (ih (hElse.stands.desired.trans hWant) (hElse.placement ▸ hHome)
      (hAwaits.stands hElse.stands) ((hElse.redrives hAwaits hWant).trans hRedrives)
      ((List.mem_cons.mp hMem).resolve_left hRank))

theorem dispatchRanks_elsewhere (ranks : List Rank) (hWant : s.desired = .stopped) (hAwaits : Awaits s rank op)
    (hRedrives : redrives env s rank op = false) : Elsewhere s (s.dispatchRanks env ranks) rank := by
  induction ranks generalizing s with
  | nil => exact .refl s rank
  | cons r ranks ih =>
    have hElse : Elsewhere s (s.dispatchRank env r) rank := by
      by_cases hRank : rank = r
      · subst hRank
        rw [dispatchRank_stopped hWant]
        split
        · rename_i pl _
          have hSpec := @dispatchStopped_spec env s rank (some pl) op hAwaits hWant
          rw [if_neg (Bool.eq_false_iff.mp hRedrives)] at hSpec
          rw [hSpec]
          exact .refl s rank
        · exact .refl s rank
      · exact elsewhere_dispatchRank hRank hWant
    exact hElse.trans (ih (hElse.stands.desired.trans hWant) (hAwaits.stands hElse.stands)
      ((hElse.redrives hAwaits hWant).trans hRedrives))

theorem quiet_gateSteps (hWant : s.desired = .stopped) (n : Nat) : Quiet s ((gateStep env rank)^[n] s) := by
  induction n with
  | zero => exact .refl s
  | succ n ih =>
    rw [Function.iterate_succ_apply']
    refine ih.trans ?_
    have hStop := ih.desired.trans hWant
    generalize (gateStep env rank)^[n] s = t at hStop
    cases hGate : t.gates rank with
    | none =>
      unfold gateStep
      rw [hGate]
      exact .refl t
    | some gate =>
      by_cases hStage : gate.stage = .reading
      · unfold gateStep
        simp only [hGate, hStage, gateEnter]
        exact quiet_setGate ..
      rw [gateStep_leave hGate hStage]
      unfold gateDispatch
      rw [if_neg (by simp [authorizes, hStop])]
      exact gateClose_quiet rank none

theorem redrive_stopped {n : Nat} (hWant : s.desired = .stopped) (hStopping : s.observed ≠ .stopped)
    (hAwaits : Awaits s rank op) (hHome : s.placement.entryFor rank = some home) (hSend : ∀ id, env.send id = true) :
    Resends s (redrive env n s home.nodeID rank) rank op ↔ redrives env s rank op = true := by
  have hConverge : s.converge env home.nodeID =
      (s.dispatchRanks env (s.placement.ranksOnNode home.nodeID)).checkStopComplete := by
    unfold converge
    rw [if_neg fun h => hStopping h.1, if_neg (List.ne_nil_of_mem (mem_ranksOnNode hHome)), if_pos hWant]
  unfold redrive
  rw [hConverge]
  cases hRedrives : redrives env s rank op with
  | true =>
    have hDriven := dispatchRanks_resends (s.placement.ranksOnNode home.nodeID) hWant hHome hAwaits hRedrives hSend
      (mem_ranksOnNode hHome)
    refine ⟨fun _ => rfl, fun _ => (hDriven.suffix ?_).suffix (gateSteps_history env rank n _)⟩
    exact (checkStopComplete_effects : Effects .none _ _).history_suffix
  | false =>
    have hDriven : Elsewhere s (s.dispatchRanks env (s.placement.ranksOnNode home.nodeID)) rank :=
      dispatchRanks_elsewhere _ hWant hAwaits hRedrives
    have hSettled := hDriven.trans (elsewhere_checkStopComplete (hDriven.stands.desired.trans hWant))
    have hQuiet : Quiet _ ((gateStep env rank)^[n] _) := quiet_gateSteps (hSettled.stands.desired.trans hWant) n
    refine ⟨fun h => absurd h (Elsewhere.not_resends ?_), nofun⟩
    refine hSettled.trans ⟨hQuiet.stands, hQuiet.placement, fun other => ?_, [], hQuiet.history, fun _ hc => by cases hc⟩
    simp only [inflightHas, hQuiet.inflight]

def Redrivable (env : Env) (s : Deployment) (rank : Rank) (op : Op) : Prop :=
  redrives env s rank op = true ∧ (s.desired = .running → gateServes s rank = true)

theorem undelivered_redriven_iff {refusing : Env} {home : Placement} {n : Nat} (hRefused : Refused refusing s rank pl op)
    (hStands : Stands (s.dispatchReady refusing rank pl) u rank)
    (hActive : ¬ (u.desired = .stopped ∧ u.observed = .stopped)) (hHome : u.placement.entryFor rank = some home)
    (hSend : ∀ id, env.send id = true) (hSteps : 3 ≤ n) :
    Resends u (redrive env n u home.nodeID rank) rank op ↔ Redrivable env u rank op := by
  have hAwaits : Awaits u rank op := hRefused.awaits.stands hStands
  unfold Redrivable
  cases hWant : u.desired with
  | running =>
    rw [redrive_running hWant hAwaits hHome hSend hSteps]
    simp
  | stopped =>
    rw [redrive_stopped hWant (fun h => hActive ⟨hWant, h⟩) hAwaits hHome hSend]
    simp

def Env.offline : Env := { Env.calm with send := fun _ => false }

def createDue : List Event := pass 0 ++ pass 0 ++ [.gateEnter 0]

theorem undelivered_redriven_iff_create : let s := system.exec planned createDue
    let u := next s (.gateLeave .offline 0 none)
    Refused .offline s 0 (some ⟨"a", 0⟩) .create ∧ Resends u (redrive .calm 3 u "a" 0) 0 .create := by
  intro s u
  have hNo : Refused .offline s 0 (some ⟨"a", 0⟩) .create :=
    ⟨by decide +kernel, by decide +kernel, by decide +kernel⟩
  have hStands : Stands (s.dispatchReady .offline 0 (some ⟨"a", 0⟩)) u 0 :=
    ⟨by decide +kernel, by decide +kernel, by decide +kernel, by decide +kernel⟩
  have hHome : u.placement.entryFor 0 = some ⟨"a", 0⟩ := by decide +kernel
  have hRedrivable : Redrivable .calm u 0 .create := ⟨by decide +kernel, fun _ => by decide +kernel⟩
  exact ⟨hNo, (undelivered_redriven_iff hNo hStands (by decide +kernel) hHome (fun _ => rfl) le_rfl).mpr
    hRedrivable⟩

def hostRecipe : Recipe := ⟨false, false, true, .parallel, none⟩

def plannedHost : Deployment := createPlanned .calm hostRecipe oneRank

theorem init_plannedHost : system.init plannedHost := ⟨_, _, _, rfl⟩

def hostPrepareDue : List Event := createSent ++ [.result .calm ⟨0, 0, 0, .create⟩ accepted, .gateEnter 0]

theorem refused_host_prepare_not_redriven :
    ¬ ∀ (f g : DeploymentID → Deployment) (id : DeploymentID) (refusing : Env) (rank : Rank) (pl : Option Placement)
      (home : Placement) (op : Op) (n : Nat), service.Reachable (System.familyGuard fun _ _ => True) f →
      service.Runs (System.familyGuard fun _ _ => True) f g → Refused refusing (f id) rank pl op →
      Stands ((f id).dispatchReady refusing rank pl) (g id) rank →
      ¬ ((g id).desired = .stopped ∧ (g id).observed = .stopped) → (g id).placement.entryFor rank = some home →
      3 ≤ n → Resends (g id) (redrive .calm n (g id) home.nodeID rank) rank op := by
  intro h
  have hMay : system.Allowed (fun _ _ => True) plannedHost hostPrepareDue := by decide +kernel
  have hReach := System.Reachable.lift init_plannedHost hMay "d"
  have hRefusal : system.Allowed (fun _ _ => True) (system.exec plannedHost hostPrepareDue)
      [.gateLeave .offline 0 none] := by decide +kernel
  have hRun := System.Runs.lift (.of_allowed hRefusal) (Function.update_self "d" _ fun _ => plannedHost)
  have hResent := h _ _ "d" .offline 0 (some ⟨"a", 0⟩) ⟨"a", 0⟩ .hostPrepare 3 hReach hRun
    ⟨by decide +kernel, by decide +kernel, by decide +kernel⟩
    ⟨by decide +kernel, by decide +kernel, by decide +kernel, by decide +kernel⟩ (by decide +kernel) (by decide +kernel)
    le_rfl
  obtain ⟨new, hNew, c, hc, _⟩ := hResent
  have hSame : (redrive .calm 3 (system.exec plannedHost (hostPrepareDue ++ [.gateLeave .offline 0 none])) "a" 0).history =
      (system.exec plannedHost (hostPrepareDue ++ [.gateLeave .offline 0 none])).history := by decide +kernel
  have hNone : new = [] := List.append_left_eq_self.mp (hNew.symm.trans hSame)
  rw [hNone] at hc
  cases hc

end LocalModelWorks.Deploy
