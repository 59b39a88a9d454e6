import LocalModelWorks.Deploy.Calls
import LocalModelWorks.Deploy.Drive

/-!
# Driving a rank again through its gate

While a deployment should run, a `Converge` of the rank's node only wakes the rank's
acquisition gate.
-/

namespace LocalModelWorks.Deploy

open Deployment List Function

variable {env : Env} {s t u : Deployment} {rank : Rank} {pl : Option Placement} {op : Op}

def gateStep (env : Env) (rank : Rank) (s : Deployment) : Deployment :=
  match s.gates rank with
  | none => s
  | some gate => if gate.stage = .reading then s.gateEnter rank else s.gateLeave env rank none

def redrive (env : Env) (n : Nat) (s : Deployment) (nodeID : NodeID) (rank : Rank) : Deployment :=
  (gateStep env rank)^[n] (s.converge env nodeID)

def Op.position : Op → Nat
  | .prepare => 0
  | .create => 1
  | .hostPrepare => 2
  | .start => 3
  | .verify => 4
  | .inspect => 5
  | .stopPrepare => 6
  | .stopVerify => 7
  | .stop => 8

def Resends (s t : Deployment) (rank : Rank) (op : Op) : Prop :=
  ∃ new, t.history = new ++ s.history ∧
    ∃ c, Fact.sent c ∈ new ∧ c.rank = rank ∧ c.run = s.runID ∧ op.position ≤ c.op.position

theorem Resends.suffix (h : Resends s t rank op) (hSuffix : t.history <:+ u.history) : Resends s u rank op := by
  obtain ⟨new, hNew, c, hc, hSent⟩ := h
  obtain ⟨later, hLater⟩ := hSuffix
  exact ⟨later ++ new, by rw [← hLater, hNew, append_assoc], c, mem_append_right later hc, hSent⟩

theorem Drives.resends (h : Drives env s t rank pl op) (hAccepts : env.accepts pl s.nextID = true) :
    Resends s t rank op := by
  have hHist := h.history
  rw [if_pos hAccepts] at hHist
  exact ⟨[_], hHist, _, mem_singleton_self _, rfl, rfl, le_rfl⟩

theorem Resends.of_quiet (h : Quiet s t) (hSent : Resends t u rank op) : Resends s u rank op := by
  obtain ⟨new, hNew, c, hc, hRank, hRun, hOp⟩ := hSent
  exact ⟨new, h.history ▸ hNew, c, hc, hRank, hRun.trans h.runID, hOp⟩

variable {home : Placement} {gate : Gate}

theorem mem_ranksOnNode {ps : PlacementSet} (h : ps.entryFor rank = some home) : rank ∈ ps.ranksOnNode home.nodeID := by
  have hMem : home ∈ ps.entries := mem_of_find?_eq_some h
  have hRank : home.rank = rank := by simpa using find?_some h
  unfold PlacementSet.ranksOnNode sortRanks
  rw [mem_insertionSort, if_neg (ne_nil_of_mem hMem)]
  exact mem_map.mpr ⟨home, mem_filter.mpr ⟨hMem, by simp⟩, hRank⟩

def Gate.serves (gate : Gate) (runID : RunID) : Bool := gate.runID = runID && gate.placement.isSome

def gateServes (s : Deployment) (rank : Rank) : Bool := (s.gates rank).all (·.serves s.runID)

def Ready (s : Deployment) (rank : Rank) : Prop :=
  ∃ gate, s.gates rank = some gate ∧ gate.serves s.runID = true ∧ (gate.stage = .reading ∨ gate.pending = true)

theorem Ready.gateServes (h : Ready s rank) : gateServes s rank = true := by
  obtain ⟨gate, hGate, hServes, _⟩ := h
  simpa [Deploy.gateServes, hGate] using hServes

theorem Quiet.stands (h : Quiet s t) : Stands s t rank := ⟨h.recipe, h.desired, h.runID, congrFun h.dispatch rank⟩

theorem Quiet.awaits (h : Quiet s t) (hAwaits : Awaits s rank op) : Awaits t rank op := hAwaits.stands h.stands

theorem Quiet.redrives (h : Quiet s t) : redrives env t rank op = redrives env s rank op :=
  redrives_congr h.recipe h.placement h.dispatch h.rankStates h.inflight

theorem ready_wake (hServes : gateServes s rank = true) (hPlaced : pl.isSome = true) : Ready (s.wake rank pl) rank := by
  unfold wake
  split <;> rename_i hGate
  next gate =>
    have hGateServes : gate.serves s.runID = true := by simpa [gateServes, hGate] using hServes
    exact ⟨_, update_self .., hGateServes, .inr rfl⟩
  · exact ⟨_, update_self .., by simp [Gate.serves, setGate, hPlaced], .inl rfl⟩

theorem wake_gates_ne {r : Rank} (hNe : rank ≠ r) : (s.wake r pl).gates rank = s.gates rank := by
  unfold wake
  split
  · exact update_of_ne hNe ..
  · exact update_of_ne hNe ..

theorem gateServes_wake (hServes : gateServes s rank = false) (r : Rank) : gateServes (s.wake r pl) rank = false := by
  unfold gateServes at *
  rw [(quiet_wake s r pl).runID]
  by_cases hNe : rank = r
  · subst hNe
    unfold wake
    split <;> rename_i hGate
    · simpa [setGate, hGate, Gate.serves] using hServes
    · simp [hGate] at hServes
  · rw [wake_gates_ne hNe]
    exact hServes

theorem dispatchRank_running (hDesired : s.desired = .running) (r : Rank) :
    s.dispatchRank env r = match s.placement.entryFor r with
      | some pl => s.wake r (some pl)
      | none => s := by
  unfold dispatchRank
  cases s.placement.entryFor r with
  | none => rfl
  | some pl => simp only [dispatchNext, hDesired]

theorem quiet_dispatchRank (hDesired : s.desired = .running) (r : Rank) : Quiet s (s.dispatchRank env r) := by
  rw [dispatchRank_running hDesired]
  split
  · exact quiet_wake ..
  · exact .refl s

theorem dispatchRanks_ready (ranks : List Rank) (hDesired : s.desired = .running)
    (hHome : s.placement.entryFor rank = some home) (hServes : gateServes s rank = true)
    (hReady : rank ∈ ranks ∨ Ready s rank) :
    Quiet s (s.dispatchRanks env ranks) ∧ Ready (s.dispatchRanks env ranks) rank := by
  induction ranks generalizing s with
  | nil =>
    rcases hReady with hMem | hReady
    · cases hMem
    · exact ⟨.refl s, hReady⟩
  | cons r ranks ih =>
    have hQuiet : Quiet s (s.dispatchRank env r) := quiet_dispatchRank hDesired r
    have hNext (hServes : gateServes (s.dispatchRank env r) rank = true)
        (hReady : rank ∈ ranks ∨ Ready (s.dispatchRank env r) rank) :
        Quiet s (s.dispatchRanks env (r :: ranks)) ∧ Ready (s.dispatchRanks env (r :: ranks)) rank := by
      obtain ⟨hRest, hReady⟩ := ih (hQuiet.desired.trans hDesired) (hQuiet.placement ▸ hHome) hServes hReady
      exact ⟨hQuiet.trans hRest, hReady⟩
    by_cases hRank : rank = r
    · subst hRank
      have hNow : Ready (s.dispatchRank env rank) rank := by
        rw [dispatchRank_running hDesired, hHome]
        exact ready_wake hServes rfl
      exact hNext hNow.gateServes (.inr hNow)
    have hGates : (s.dispatchRank env r).gates rank = s.gates rank := by
      rw [dispatchRank_running hDesired]
      split
      · exact wake_gates_ne hRank
      · rfl
    refine hNext ?_ ?_
    · unfold gateServes at *
      rw [hGates, hQuiet.runID]
      exact hServes
    rcases hReady with hMem | ⟨gate, hGate, hServing⟩
    · exact .inl ((mem_cons.mp hMem).resolve_left hRank)
    · exact .inr ⟨gate, hGates.trans hGate, hQuiet.runID ▸ hServing⟩

theorem dispatchRanks_unserved (ranks : List Rank) (hDesired : s.desired = .running)
    (hServes : gateServes s rank = false) :
    Quiet s (s.dispatchRanks env ranks) ∧ gateServes (s.dispatchRanks env ranks) rank = false := by
  induction ranks generalizing s with
  | nil => exact ⟨.refl s, hServes⟩
  | cons r ranks ih =>
    have hQuiet : Quiet s (s.dispatchRank env r) := quiet_dispatchRank hDesired r
    have hNow : gateServes (s.dispatchRank env r) rank = false := by
      rw [dispatchRank_running hDesired]
      split
      · exact gateServes_wake hServes r
      · exact hServes
    obtain ⟨hRest, hServes⟩ := ih (hQuiet.desired.trans hDesired) hNow
    exact ⟨hQuiet.trans hRest, hServes⟩

theorem gateClose_quiet (rank : Rank) (err : Option String) : Quiet s (s.gateClose rank err) := by
  unfold gateClose
  split
  · exact .refl s
  split
  · exact quiet_setGate ..
  · exact quiet_setGate ..

theorem gateStep_history (env : Env) (rank : Rank) (s : Deployment) : s.history <:+ (gateStep env rank s).history := by
  unfold gateStep
  split
  · exact suffix_rfl
  split
  · exact (gateEnter_effects rank : Effects .none s _).history_suffix
  · exact (gateLeave_effects env rank none).history_suffix

theorem gateSteps_history (env : Env) (rank : Rank) (n : Nat) (s : Deployment) :
    s.history <:+ ((gateStep env rank)^[n] s).history := by
  induction n with
  | zero => exact suffix_rfl
  | succ n ih =>
    rw [iterate_succ_apply']
    exact ih.trans (gateStep_history env rank _)

section

variable (hGate : s.gates rank = some gate)
include hGate

theorem gateStep_reading (hStage : gate.stage = .reading) (hServes : gate.serves s.runID = true)
    (hDesired : s.desired = .running) :
    Quiet s (gateStep env rank s) ∧ ∃ acquired, (gateStep env rank s).gates rank = some acquired ∧
      acquired.serves s.runID = true ∧ (acquired.stage = .acquiring ∨ acquired.stage = .acquired) := by
  have hRun : s.runID = gate.runID := by
    simp only [Gate.serves, Bool.and_eq_true, decide_eq_true_eq] at hServes
    exact hServes.1.symm
  have hStep : gateStep env rank s = s.gateEnter rank := by
    unfold gateStep
    rw [hGate]
    exact if_pos hStage
  have hAuth : s.authorizes gate = true := by simp [authorizes, hDesired, hRun]
  rw [hStep]
  unfold gateEnter
  rw [hGate]
  refine ⟨quiet_setGate .., _, update_self .., hServes, ?_⟩
  simp only [hAuth, if_true]
  split
  · exact .inr rfl
  · exact .inr rfl
  · exact .inr rfl
  · exact .inl rfl

theorem gateStep_leave (hStage : gate.stage ≠ .reading) :
    gateStep env rank s = (s.gateDispatch env rank gate none).gateClose rank none := by
  unfold gateStep gateLeave
  rw [hGate]
  exact if_neg hStage

theorem gateStep_skipped (hStage : gate.stage = .skipped) (hPend : gate.pending = true)
    (hServes : gate.serves s.runID = true) :
    Quiet s (gateStep env rank s) ∧ ∃ again, (gateStep env rank s).gates rank = some again ∧
      again.serves s.runID = true ∧ again.stage = .reading := by
  have hStep : gateStep env rank s = s.gateClose rank none := by
    rw [gateStep_leave hGate (by rw [hStage]; decide)]
    unfold gateDispatch
    rw [if_neg fun h => h.1 hStage]
  rw [hStep]
  refine ⟨gateClose_quiet rank none, { gate with pending := false, stage := .reading }, ?_, hServes, rfl⟩
  unfold gateClose
  rw [hGate]
  simp [hPend, setGate]

theorem gateStep_acquired (hStage : gate.stage = .acquiring ∨ gate.stage = .acquired)
    (hServes : gate.serves s.runID = true) (hDesired : s.desired = .running) (hAwaits : Awaits s rank op)
    (hRedrives : redrives env s rank op = true) (hSend : ∀ id, env.send id = true) :
    Resends s (gateStep env rank s) rank op := by
  simp only [Gate.serves, Bool.and_eq_true, decide_eq_true_eq] at hServes
  have hAuth : s.authorizes gate = true := by simp [authorizes, hDesired, hServes.1]
  have hNotReading : gate.stage ≠ .reading := by
    rcases hStage with h | h <;> rw [h] <;> decide
  have hNotSkipped : gate.stage ≠ .skipped := by
    rcases hStage with h | h <;> rw [h] <;> decide
  have hDispatch : s.gateDispatch env rank gate none = s.dispatchRunning env rank gate.placement := by
    unfold gateDispatch dispatchReady
    rw [if_pos ⟨hNotSkipped, hAuth⟩, hDesired]
  have hDrives : Drives env s (s.dispatchRunning env rank gate.placement) rank gate.placement op :=
    dispatchRunning_drives hAwaits hDesired hRedrives
  rw [gateStep_leave hGate hNotReading, hDispatch]
  have hAccepts : env.accepts gate.placement s.nextID = true := by simp [Env.accepts, hServes.2, hSend]
  exact (hDrives.resends hAccepts).suffix ((gateClose_quiet rank none).history ▸ suffix_rfl)

end

theorem Ready.resends {n : Nat} (hReady : Ready s rank) (hDesired : s.desired = .running) (hAwaits : Awaits s rank op)
    (hRedrives : redrives env s rank op = true) (hSend : ∀ id, env.send id = true) (hSteps : 3 ≤ n) :
    Resends s ((gateStep env rank)^[n] s) rank op := by
  have hGot t hQuiet gate (hGate : t.gates rank = some gate)
      hServes hStage :
      Resends s (gateStep env rank t) rank op :=
    .of_quiet hQuiet (gateStep_acquired hGate hStage (hQuiet.runID ▸ hServes) (hQuiet.desired.trans hDesired)
      (hQuiet.awaits hAwaits) (hQuiet.redrives.trans hRedrives) hSend)
  have hReading t (hQuiet : Quiet s t) gate (hGate : t.gates rank = some gate)
      (hServes : gate.serves s.runID = true) (hStage : gate.stage = .reading) :
      Resends s (gateStep env rank (gateStep env rank t)) rank op := by
    obtain ⟨hEntered, acquired, hGate, hServes, hStage⟩ :=
      gateStep_reading hGate hStage (hQuiet.runID ▸ hServes) (hQuiet.desired.trans hDesired)
    exact hGot _ (hQuiet.trans hEntered) acquired hGate (hQuiet.runID ▸ hServes) hStage
  have hThree : Resends s (gateStep env rank (gateStep env rank (gateStep env rank s))) rank op := by
    obtain ⟨gate, hGate, hServes, hAgain⟩ := hReady
    cases hStage : gate.stage with
    | reading =>
      exact (hReading s (.refl s) gate hGate hServes hStage).suffix (gateStep_history env rank _)
    | acquiring =>
      exact (hGot s (.refl s) gate hGate hServes (.inl hStage)).suffix (gateSteps_history env rank 2 _)
    | acquired =>
      exact (hGot s (.refl s) gate hGate hServes (.inr hStage)).suffix (gateSteps_history env rank 2 _)
    | skipped =>
      have hPend : gate.pending = true := hAgain.resolve_left (by rw [hStage]; decide)
      obtain ⟨hClosed, again, hGate, hServes, hStage⟩ := gateStep_skipped hGate hStage hPend hServes
      exact hReading _ hClosed again hGate hServes hStage
  obtain ⟨k, rfl⟩ : ∃ k, n = k + 3 := ⟨n - 3, by omega⟩
  exact hThree.suffix (gateSteps_history env rank k _)

/-- No step of the rank's gate sends the awaited command: the drive is held up, or the gate serves an
earlier run. -/
structure Stuck (env : Env) (s t : Deployment) (rank : Rank) (op : Op) : Prop where
  stands : Stands s t rank
  history : t.history = s.history
  blocked : redrives env t rank op = false ∨ ∀ gate, t.gates rank = some gate → gate.serves t.runID = false

theorem Stuck.setGate (h : Stuck env s t rank op) {gate : Option Gate}
    (hGate : ∀ new, gate = some new → ∃ old, t.gates rank = some old ∧ new.runID = old.runID ∧
      new.placement = old.placement) : Stuck env s (t.setGate rank gate) rank op where
  stands := h.stands.trans ⟨rfl, rfl, rfl, rfl⟩
  history := h.history
  blocked := by
    rcases h.blocked with hHeld | hServes
    · exact .inl ((quiet_setGate t rank gate).redrives.trans hHeld)
    refine .inr fun new hNew => ?_
    have hSet : gate = some new := by simpa [Deployment.setGate] using hNew
    obtain ⟨old, hOld, hRun, hPlace⟩ := hGate new hSet
    have hOldServes := hServes old hOld
    rwa [Gate.serves, ← hRun, ← hPlace] at hOldServes

section

variable (h : Stuck env s t rank op) (hAwaits : Awaits s rank op) (hDesired : s.desired = .running)
include h hAwaits hDesired

theorem Stuck.gateDispatch (hGate : t.gates rank = some gate) :
    Stuck env s (t.gateDispatch env rank gate none) rank op ∧
      (t.gateDispatch env rank gate none).gates rank = some gate := by
  have hDesiredNow : t.desired = .running := h.stands.desired.trans hDesired
  have hAwaitsNow : Awaits t rank op := hAwaits.stands h.stands
  unfold Deployment.gateDispatch dispatchReady
  rw [hDesiredNow]
  split
  next hAuth =>
    have hSpec := @dispatchRunning_spec env t rank gate.placement op hAwaitsNow hDesiredNow
    cases hRedrives : redrives env t rank op with
    | false =>
      have hInert : Inert t (t.dispatchRunning env rank gate.placement) := by
        rwa [if_neg (Bool.eq_false_iff.mp hRedrives)] at hSpec
      refine ⟨⟨h.stands.trans hInert.stands, hInert.history.trans h.history, .inl ?_⟩,
        (congrFun hInert.gates rank).trans hGate⟩
      rw [redrives_congr hInert.recipe hInert.placement hInert.dispatch hInert.rankStates hInert.inflight]
      exact hRedrives
    | true =>
      have hDrives : Drives env t (t.dispatchRunning env rank gate.placement) rank gate.placement op := by
        rwa [if_pos hRedrives] at hSpec
      have hServes : ∀ gate, t.gates rank = some gate → gate.serves t.runID = false :=
        h.blocked.resolve_left (by rw [hRedrives]; decide)
      have hRun : gate.runID = t.runID := by
        have hBoth := hAuth.2
        simp only [authorizes, Bool.and_eq_true, decide_eq_true_eq] at hBoth
        exact hBoth.2.symm
      have hAccepts : env.accepts gate.placement t.nextID = false := by
        have hNowhere := hServes gate hGate
        simp only [Gate.serves, hRun, decide_true, Bool.true_and] at hNowhere
        simp [Env.accepts, hNowhere]
      refine ⟨⟨h.stands.trans hDrives.stands, ?_, .inr fun other hOther => ?_⟩, (congrFun hDrives.gates rank).trans hGate⟩
      · rw [hDrives.history, hAccepts]
        exact h.history
      · rw [hDrives.stands.runID]
        exact hServes other ((congrFun hDrives.gates rank).symm.trans hOther)
  · exact ⟨h, hGate⟩

theorem Stuck.gateStep : Stuck env s (gateStep env rank t) rank op := by
  cases hGate : t.gates rank with
  | none =>
    unfold Deploy.gateStep
    rw [hGate]
    exact h
  | some gate =>
    by_cases hStage : gate.stage = .reading
    · unfold Deploy.gateStep
      simp only [hStage, gateEnter, hGate]
      exact h.setGate fun new hNew => ⟨gate, hGate, by cases hNew; rfl, by cases hNew; rfl⟩
    rw [gateStep_leave hGate hStage]
    obtain ⟨hMid, hSame⟩ := h.gateDispatch hAwaits hDesired hGate
    unfold gateClose
    rw [hSame]
    dsimp only
    split
    · exact hMid.setGate fun new hNew => ⟨gate, hSame, by cases hNew; rfl, by cases hNew; rfl⟩
    · exact hMid.setGate fun new hNew => by cases hNew

theorem Stuck.gateSteps (n : Nat) : Stuck env s ((Deploy.gateStep env rank)^[n] t) rank op := by
  induction n with
  | zero => exact h
  | succ n ih =>
    rw [iterate_succ_apply']
    exact ih.gateStep hAwaits hDesired

end

theorem Stuck.not_resends (h : Stuck env s t rank op) : ¬ Resends s t rank op := by
  rintro ⟨new, hNew, c, hc, _⟩
  have hNone : new = [] := append_left_eq_self.mp (hNew.symm.trans h.history)
  rw [hNone] at hc
  cases hc

theorem redrive_running {n : Nat} (hDesired : s.desired = .running) (hAwaits : Awaits s rank op)
    (hHome : s.placement.entryFor rank = some home) (hSend : ∀ id, env.send id = true) (hSteps : 3 ≤ n) :
    Resends s (redrive env n s home.nodeID rank) rank op ↔
      redrives env s rank op = true ∧ gateServes s rank = true := by
  unfold redrive
  rw [converge, if_neg (by simp [hDesired]), if_neg (ne_nil_of_mem (mem_ranksOnNode hHome)), if_neg (by simp [hDesired])]
  cases hServes : gateServes s rank with
  | false =>
    obtain ⟨hQuiet, hUnserved⟩ := dispatchRanks_unserved (s.placement.ranksOnNode home.nodeID) hDesired hServes
    have hStuck : Stuck env s (s.dispatchRanks env (s.placement.ranksOnNode home.nodeID)) rank op := by
      refine ⟨hQuiet.stands, hQuiet.history, .inr fun gate hGate => ?_⟩
      simpa [gateServes, hGate] using hUnserved
    exact ⟨fun h => absurd h (hStuck.gateSteps hAwaits hDesired n).not_resends, fun h => by cases h.2⟩
  | true =>
    obtain ⟨hQuiet, hReady⟩ :=
      dispatchRanks_ready (s.placement.ranksOnNode home.nodeID) hDesired hHome hServes (.inl (mem_ranksOnNode hHome))
    cases hRedrives : redrives env s rank op with
    | false =>
      have hStuck : Stuck env s (s.dispatchRanks env (s.placement.ranksOnNode home.nodeID)) rank op :=
        ⟨hQuiet.stands, hQuiet.history, .inl (hQuiet.redrives.trans hRedrives)⟩
      exact ⟨fun h => absurd h (hStuck.gateSteps hAwaits hDesired n).not_resends, fun h => by cases h.1⟩
    | true =>
      refine ⟨fun _ => ⟨rfl, rfl⟩, fun _ => .of_quiet hQuiet ?_⟩
      exact hReady.resends (hQuiet.desired.trans hDesired) (hQuiet.awaits hAwaits) (hQuiet.redrives.trans hRedrives)
        hSend hSteps

end LocalModelWorks.Deploy
