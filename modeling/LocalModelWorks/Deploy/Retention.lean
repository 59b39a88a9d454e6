import LocalModelWorks.Deploy.Alignment

/-!
# Lease retention

A rank whose node was handed a CREATE or START holds the deployment's leases until it is
confirmed down.
-/

namespace LocalModelWorks.Deploy

open Transition Deployment
open Bool (eq_false_iff)

variable {rank : Rank} {s : Deployment} {op : Op} {target : Phase} {P : Permits}

theorem live_eq_false_of_runs {run : RunID} (rank : Rank) {history : List Fact}
    (h : ∀ c, Fact.sent c ∈ history → c.run ≠ run) : live run rank history = false := by
  induction history with
  | nil => rfl
  | cons fact rest ih =>
    have hRest := ih fun c hc => h c (List.mem_cons_of_mem _ hc)
    have hLaunch : fact.launches run rank = false := by
      cases fact with
      | sent c => simp [Fact.launches, h c List.mem_cons_self]
      | answered | reported => rfl
    rw [live, hLaunch, hRest, Bool.and_false]
    rfl

theorem live_sendWorkload {env : Env} {k : Rank} {pl : Option Placement}
    (h : live s.runID k (s.sendWorkload env rank pl op).history = true) :
    live s.runID k s.history = true ∨ (k = rank ∧ (op = .create ∨ op = .start)) := by
  unfold sendWorkload at h
  split at h
  · change live s.runID k (.sent ⟨s.nextID, s.runID, rank, op⟩ :: s.history) = true at h
    rw [live, Bool.or_eq_true] at h
    rcases h with hLaunch | hRest
    · simp only [Fact.launches, Bool.and_eq_true, Bool.or_eq_true, decide_eq_true_eq] at hLaunch
      exact .inr ⟨hLaunch.1.2.symm, hLaunch.2⟩
    · exact .inl (Bool.and_eq_true_iff.mp hRest).2
  · exact .inl h

def Phase.held : Phase → Bool
  | .none | .preparing | .prepared | .stopped => false
  | _ => true

structure Retained (s : Deployment) : Prop where
  aligned : Aligned s
  held : ∀ rank, live s.runID rank s.history = true → (s.dispatch rank).held = true
  unprepared : ∀ c ∈ s.outstanding, c.op = .prepare ∨ c.op = .stopPrepare → live s.runID c.rank s.history = false
  leased : s.leases = false → ∀ rank ∈ s.placement.allRanks, live s.runID rank s.history = false

/-- What a step that may fail a dispatch or launch a rank finds, at each of its effects. -/
structure Spares (P : Permits) (s : Deployment) : Prop where
  fails : P.fail → ∀ rank ∈ s.placement.allRanks, live s.runID rank s.history = false
  launches : P.launch → s.desired = .running → s.leases = true

theorem Retained.of_frame {t : Deployment} (hs : Retained s) (hAligned : Aligned t) (hRun : t.runID = s.runID)
    (hPlace : t.placement = s.placement) (hLeases : t.leases = s.leases)
    (hHeld : ∀ rank, live s.runID rank s.history = true → (t.dispatch rank).held = true)
    (hLive : ∀ rank, live s.runID rank t.history = true → live s.runID rank s.history = true)
    (hOut : ∀ c ∈ t.outstanding, c ∈ s.outstanding) : Retained t := by
  have hDown {rank : Rank} h : live s.runID rank t.history = false :=
    eq_false_iff.mpr fun hTrue => eq_false_iff.mp h (hLive rank hTrue)
  refine ⟨hAligned, fun rank h => ?_, fun c hc hOp => ?_, fun hFree => ?_⟩
  · exact hHeld rank (hLive rank (hRun ▸ h))
  · rw [hRun]
    exact hDown (hs.unprepared c (hOut c hc) hOp)
  rw [hRun, hPlace]
  exact fun rank hRank => hDown (hs.leased (hLeases ▸ hFree) rank hRank)

theorem Retained.held_setPhase (hs : Retained s) (h : live s.runID rank s.history = true → target.held = true)
    (k : Rank) (hLive : live s.runID k s.history = true) :
    (Function.update s.dispatch rank target k).held = true := by
  by_cases hk : k = rank
  · rw [hk, Function.update_self]
    exact h (hk ▸ hLive)
  · rw [Function.update_of_ne hk]
    exact hs.held k hLive

theorem Advances.held {old new : Phase} (h : Advances s rank old new) (hHeld : old.held = true) : new.held = true := by
  cases h <;> first | rfl | cases hHeld

theorem Halts.held (hs : Retained s) (h : Halts s rank target) (hLive : live s.runID rank s.history = true) :
    target.held = true := by
  cases h with
  | stopping => rfl
  | idle hPhase =>
    have hHeld := hs.held rank hLive
    rcases hPhase with hPhase | hPhase <;> rw [hPhase] at hHeld <;> cases hHeld
  | down hDown =>
    rw [hLive] at hDown
    cases hDown

theorem Acks.held (hP : ¬ P.createLost) (hBase : Base s) (hs : Retained s) {c : Command} {cr : CommandResult}
    (hOut : c ∈ s.outstanding) (hHeard : s.history.head? = some (.answered c cr)) (h : Acks P s c.rank cr c.op target)
    (hLive : live s.runID c.rank s.history = true) : target.held = true := by
  have hNotDown (hDown : live s.runID c.rank s.history = false) : target.held = true := by
    rw [hLive] at hDown
    cases hDown
  generalize hOp : c.op = op at h
  cases h with
  | prepare => exact hNotDown (hs.unprepared c hOut (.inl hOp))
  | stopPrepare => exact hNotDown (hs.unprepared c hOut (.inr hOp))
  | createLost _ hLost => exact absurd (hLost hLive) hP
  | stop hAck =>
    obtain ⟨rest, hHist⟩ := List.head?_eq_some_iff.mp hHeard
    refine hNotDown (hHist ▸ live_cons_of_confirmsDown rest ?_)
    simpa [Fact.confirmsDown, hBase.run_eq hOut, hOp] using hAck
  | verify | stopVerify | create | createStopping | hostPrepare | hostPrepareStopping | startVerify | start
    | startStopping => rfl

theorem Sendable.launch (h : Sendable P s rank op) (hOp : op = .create ∨ op = .start) :
    s.desired = .running ∧ (s.dispatch rank).held = true ∧ P.launch := by
  rcases hOp with rfl | rfl
  · exact ⟨h.1, by rw [h.2.1]; rfl, h.2.2⟩
  · exact ⟨h.1, by rw [h.2.1]; rfl, h.2.2.2⟩

theorem Retained.send (hBase : Base s) (hs : Retained s) (hSpares : Spares P s) (env : Env) (pl : Option Placement)
    (h : Sendable P s rank op) : Retained (s.sendWorkload env rank pl op) := by
  obtain ⟨_, hPlace, _, hSend, hRun, hLeases, _⟩ := sendWorkload_frame env s rank pl op
  have hIdle {k : Rank} hk : live s.runID k s.history = false :=
    eq_false_iff.mpr fun hLive => eq_false_iff.mp hk (hs.held k hLive)
  refine ⟨hs.aligned.send hBase env pl h, fun k hLive => ?_, fun c hc hOp => ?_, fun hFree => ?_⟩
  · rw [hSend]
    rcases live_sendWorkload (hRun ▸ hLive) with hLive | ⟨rfl, hLaunch⟩
    · exact hs.held k hLive
    · exact (h.launch hLaunch).2.1
  · rw [hRun]
    refine eq_false_iff.mpr fun hLive => ?_
    rcases live_sendWorkload hLive with hLive | ⟨hRank, hLaunch⟩
    · rcases mem_outstanding_sendWorkload hBase hc with rfl | hc
      · have hPhase : s.dispatch rank = .preparing := by
          rcases hOp with rfl | rfl
          · exact h.2.1
          · exact h.2
        exact eq_false_iff.mp (hIdle (by rw [hPhase]; rfl)) hLive
      · exact eq_false_iff.mp (hs.unprepared c hc hOp) hLive
    obtain ⟨hRunning, hHeld, _⟩ := h.launch hLaunch
    rcases mem_outstanding_sendWorkload hBase hc with rfl | hc
    · rcases hLaunch with rfl | rfl <;> rcases hOp with hOp | hOp <;> cases hOp
    rcases hOp with hOp | hOp
    · rw [← hRank, hs.aligned.preparing hRunning c hc hOp] at hHeld
      cases hHeld
    have hStop := hs.aligned.stops c hc (by rw [hOp]; rfl)
    rw [hRunning] at hStop
    cases hStop
  rw [hPlace, hRun]
  intro k hk
  refine eq_false_iff.mpr fun hLive => ?_
  rcases live_sendWorkload hLive with hLive | ⟨_, hLaunch⟩
  · exact eq_false_iff.mp (hs.leased (hLeases ▸ hFree) k hk) hLive
  obtain ⟨hRunning, _, hLaunched⟩ := h.launch hLaunch
  rw [hLeases, hSpares.launches hLaunched hRunning] at hFree
  cases hFree

/-- Runs start drained, no rank is live whose CREATE is lost, and what fails a dispatch launches nothing. -/
def Permits.retains (P : Permits) : Prop := ¬ P.undrained ∧ ¬ P.createLost ∧ ¬ (P.fail ∧ P.launch)

theorem live_begin (hBase : Base s) (rank : Rank) : live (s.runID + 1) rank s.history = false :=
  live_eq_false_of_runs rank fun c hc => (Nat.lt_succ_of_le (hBase.pastRuns c hc)).ne

theorem Spares.effect {t : Deployment} (hP : P.retains) (hBase : Base s) (hs : Spares P s) (h : Effect P s t) :
    Spares P t := by
  have hDown {history : List Fact} (hLive : ∀ rank, live s.runID rank history = true → live s.runID rank s.history = true)
      (hFail : P.fail) : ∀ rank ∈ s.placement.allRanks, live s.runID rank history = false :=
    fun rank hRank => eq_false_iff.mpr fun h => eq_false_iff.mp (hs.fails hFail rank hRank) (hLive rank h)
  cases h with
  | quiet h =>
    refine ⟨fun hFail => ?_, fun hLaunch hRun => h.leases.trans (hs.launches hLaunch (h.desired.symm.trans hRun))⟩
    rw [h.placement, h.runID, h.history]
    exact hs.fails hFail
  | hear fact hFact => exact ⟨hDown fun _ hLive => live_of_live_cons hFact hLive, hs.launches⟩
  | send env rank pl op h =>
    obtain ⟨_, hPlace, hWant, _, hRun, hLeases, _⟩ := sendWorkload_frame env s rank pl op
    refine ⟨fun hFail => ?_, fun hLaunch hRunning => hLeases.trans (hs.launches hLaunch (hWant.symm.trans hRunning))⟩
    rw [hPlace, hRun]
    refine hDown (fun k hLive => ?_) hFail
    refine (live_sendWorkload hLive).resolve_right fun ⟨_, hOp⟩ => ?_
    exact hP.2.2 ⟨hFail, (h.launch hOp).2.2⟩
  | stopRequested | finishStop => exact ⟨hs.fails, fun _ hRun => by cases hRun⟩
  | release hFail => exact ⟨hs.fails, fun hLaunch => absurd ⟨hFail, hLaunch⟩ hP.2.2⟩
  | begin plan => exact ⟨fun _ rank _ => live_begin hBase rank, fun _ _ => rfl⟩
  | rankState | forget | reset | advance | ack | halt => exact ⟨hs.fails, hs.launches⟩

theorem Retained.effect {t : Deployment} (hP : P.retains) (hBase : Base s) (hs : Retained s) (hSpares : Spares P s)
    (h : Effect P s t) : Retained t := by
  have hAligned : Aligned t := hs.aligned.effect hP.1 hBase h
  cases h with
  | quiet h =>
    refine hs.of_frame hAligned h.runID h.placement h.leases (fun rank hLive => ?_)
      (fun rank hLive => h.history ▸ hLive) (fun _ hc => h.mem_outstanding hc)
    rw [h.dispatch]
    exact hs.held rank hLive
  | rankState => exact hs.of_frame hAligned rfl rfl rfl hs.held (fun _ h => h) (fun _ h => h)
  | hear fact hFact =>
    exact hs.of_frame hAligned rfl rfl rfl hs.held (fun _ h => live_of_live_cons hFact h)
      (fun _ hc => mem_outstanding_record hFact hc)
  | forget keep =>
    exact hs.of_frame hAligned rfl rfl rfl hs.held (fun _ h => h)
      (fun _ hc => mem_outstanding_filter hc)
  | reset =>
    exact hs.of_frame hAligned rfl rfl rfl hs.held (fun _ h => h)
      (fun _ hc => by cases (mem_outstanding.mp hc).2)
  | advance rank hWant h =>
    exact hs.of_frame hAligned rfl rfl rfl (hs.held_setPhase fun hLive => h.held (hs.held rank hLive))
      (fun _ h => h) (fun _ h => h)
  | send env rank pl op h => exact hs.send hBase hSpares env pl h
  | ack c cr hOut hHeard h =>
    exact hs.of_frame hAligned rfl rfl rfl (hs.held_setPhase (h.held hP.2.1 hBase hs hOut hHeard))
      (fun _ h => h) (fun c hc => (mem_outstanding_inflightTake hc).1)
  | halt rank hWant h =>
    exact hs.of_frame hAligned rfl rfl rfl (hs.held_setPhase (h.held hs)) (fun _ h => h) (fun _ h => h)
  | stopRequested => exact hs.of_frame hAligned rfl rfl rfl hs.held (fun _ h => h) (fun _ h => h)
  | finishStop hAll =>
    refine ⟨hAligned, hs.held, hs.unprepared, fun _ rank hRank => eq_false_iff.mpr fun hLive => ?_⟩
    have hHeld := hs.held rank hLive
    rw [hAll rank hRank] at hHeld
    cases hHeld
  | release hFail => exact ⟨hAligned, hs.held, hs.unprepared, fun _ => hSpares.fails hFail⟩
  | begin plan hBegins hWant hDrained =>
    have hNone : s.outstanding = [] := by_contra fun h => hP.1 (hDrained h)
    refine ⟨hAligned, fun rank hLive => ?_, fun c hc => (outstanding_begin plan hNone hc).elim, nofun⟩
    exact absurd hLive (eq_false_iff.mp (live_begin hBase rank))

theorem retained_plannedRow (recipe : Recipe) (plan : PlacementSet) : Retained (plannedRow recipe plan) where
  aligned := aligned_plannedRow recipe plan
  held _ h := by cases h
  unprepared _ h := by cases h
  leased h := by cases h

/-- Runs start drained. No dispatch fails and no CREATE is lost while the leases are needed, and no rank is launched
without them. -/
def RetainsLeases (s : Deployment) (e : Event) : Prop :=
  ¬ startsUndrained s e ∧ ¬ losesCreate s e ∧ (launches s e = true → s.leases = true) ∧
    (failsDispatch s e = true → ∀ rank ∈ s.placement.allRanks, live s.runID rank s.history = false)

instance (s : Deployment) (e : Event) : Decidable (RetainsLeases s e) :=
  inferInstanceAs (Decidable (¬ _ ∧ ¬ _ ∧ (_ → _) ∧ (_ → _)))

theorem launches_eq_false_of_failsDispatch {e : Event} (h : failsDispatch s e = true) : launches s e = false := by
  cases e with
  | gateLeave env rank err =>
    obtain ⟨gate, hGate, hFails⟩ := (Option.any_eq_true _ _).mp h
    refine eq_false_iff.mpr fun hLaunches => ?_
    simp only [launches, Bool.and_eq_true, Bool.or_eq_true, decide_eq_true_eq] at hLaunches
    obtain ⟨⟨⟨_, hErr⟩, hSpec⟩, hPhase | ⟨⟨hPhase, hWork⟩, _⟩⟩ := hLaunches
    · simp_all [dispatchFails]
    · simp_all [dispatchFails]
  | _ => rfl

theorem retained_of_reachable (hReach : system.Reachable RetainsLeases s) : Base s ∧ Retained s := by
  have hChain {P : Permits} {s t : Deployment} (hP : P.retains) (hBase : Base s) (hs : Retained s)
      (hSpares : Spares P s) (h : Effects P s t) : Base t ∧ Retained t := by
    refine ⟨hBase.effects hP.1 h, ?_⟩
    refine (h.preserve (I := fun t => Retained t ∧ Spares P t) hP.1 ?_ hBase ⟨hs, hSpares⟩).1
    exact fun _ _ hBase hs hEffect => ⟨hs.1.effect hP hBase hs.2 hEffect, hs.2.effect hP hBase hEffect⟩
  refine hReach.invariant (I := fun s => Base s ∧ Retained s) ?_ ?_
  · rintro s ⟨env, recipe, plan, rfl⟩
    exact hChain (P := .none) ⟨fun h => h, fun h => h, fun h => h.1⟩ (base_plannedRow recipe plan)
      (retained_plannedRow recipe plan) ⟨False.elim, False.elim⟩ (launch_effects env plan)
  rintro s e ⟨hBase, hs⟩ hOn ⟨hDrained, hKept, hLeased, hSpared⟩
  refine hChain ⟨hDrained, hKept, fun ⟨hFails, hLaunches⟩ => ?_⟩ hBase hs ⟨hSpared, fun h _ => hLeased h⟩
    (next_effects hBase hOn)
  exact eq_false_iff.mp (launches_eq_false_of_failsDispatch hFails) hLaunches

theorem leases_retained_while_live {f : DeploymentID → Deployment}
    (hReach : service.Reachable (System.familyGuard RetainsLeases) f) (id : DeploymentID) {rank : Rank}
    (hRank : rank ∈ (f id).placement.allRanks) (hLive : live (f id).runID rank (f id).history = true) :
    (f id).leases = true := by
  obtain ⟨_, hRetained⟩ := retained_of_reachable (hReach.component id)
  refine Bool.eq_true_of_not_eq_false fun hFree => ?_
  exact absurd hLive (eq_false_iff.mp (hRetained.leased hFree rank hRank))

def twoRanks : PlacementSet := ⟨[⟨"a", 0⟩, ⟨"b", 1⟩], [("a", 0), ("b", 1)], false⟩

def plannedPair : Deployment := createPlanned .calm plainRecipe twoRanks

theorem init_plannedPair : system.init plannedPair := ⟨_, _, _, rfl⟩

def createsSent : List Event := createSent ++ pass 1 ++ pass 1 ++ pass 1

def stoppingPair : List Event := createsSent ++ [.result .calm ⟨0, 0, 0, .create⟩ accepted, .stop .calm]

theorem leases_retained_while_live_stopping :
    let f : DeploymentID → Deployment := Function.update (fun _ => plannedPair) "d" (system.exec plannedPair stoppingPair)
    (f "d").desired = .stopped ∧ (f "d").leases = true := by
  intro f
  have hMay : system.Allowed RetainsLeases plannedPair stoppingPair := by decide +kernel
  have hReach := System.Reachable.lift init_plannedPair hMay "d"
  have hRank : 0 ∈ (f "d").placement.allRanks := by decide +kernel
  have hLive : live (f "d").runID 0 (f "d").history = true := by decide +kernel
  exact ⟨by decide +kernel, leases_retained_while_live hReach "d" hRank hLive⟩

def refused : CommandResult := ⟨false, "EIO".toList, "", .unset, 0, false⟩

theorem failed_create_releases_live_peer : ¬ ∀ (f : DeploymentID → Deployment) (id : DeploymentID) (rank : Rank),
      service.Reachable (System.familyGuard fun _ _ => True) f → rank ∈ (f id).placement.allRanks →
      live (f id).runID rank (f id).history = true → (f id).leases = true := by
  intro h
  have hMay : system.Allowed (fun _ _ => True) plannedPair
      (createsSent ++ [.result .calm ⟨0, 0, 0, .create⟩ accepted, .result .calm ⟨1, 0, 1, .create⟩ refused]) := by decide +kernel
  have hReach := System.Reachable.lift init_plannedPair hMay "d"
  exact absurd (h _ "d" 0 hReach (by decide +kernel) (by decide +kernel)) (by decide +kernel)

end LocalModelWorks.Deploy
