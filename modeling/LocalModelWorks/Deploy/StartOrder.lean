import LocalModelWorks.Deploy.Retention

/-!
# Start ordering

The head of a workers-first workload, or the coordinator of an upstream one, is started
last.
-/

namespace LocalModelWorks.Deploy

open Transition Deployment

def AckedStart (s : Deployment) (rank : Rank) : Prop := ∃ fact ∈ s.history, fact.acksStart s.runID rank = true

def ReportedArmed (s : Deployment) (rank : Rank) : Prop := ∃ fact ∈ s.history, fact.reportsArmed s.runID rank = true

variable {s t : Deployment} {rank : Rank} {P : Permits}

theorem AckedStart.mono (h : AckedStart s rank) (hHist : ∀ fact ∈ s.history, fact ∈ t.history)
    (hRun : t.runID = s.runID) : AckedStart t rank := by
  obtain ⟨fact, hFact, hAck⟩ := h
  exact ⟨fact, hHist fact hFact, hRun ▸ hAck⟩

theorem ReportedArmed.mono (h : ReportedArmed s rank) (hHist : ∀ fact ∈ s.history, fact ∈ t.history)
    (hRun : t.runID = s.runID) : ReportedArmed t rank := by
  obtain ⟨fact, hFact, hReport⟩ := h
  exact ⟨fact, hHist fact hFact, hRun ▸ hReport⟩

def Phase.past : Phase → Bool
  | .verifying | .started => true
  | _ => false

structure Ordered (s : Deployment) : Prop where
  aligned : Aligned s
  verifying : ∀ c ∈ s.outstanding, c.op = .verify → AckedStart s c.rank
  started : s.desired = .running → ∀ rank, (s.dispatch rank).past = true → AckedStart s rank
  armed : s.recipe.coordinatorRank.isSome → ∀ pl ∈ s.placement.entries, (s.rankStates pl.rank).armed = true →
    ReportedArmed s pl.rank

theorem Ordered.of_frame (hs : Ordered s) (hAligned : Aligned t) (hRun : t.runID = s.runID)
    (hHist : ∀ fact ∈ s.history, fact ∈ t.history) (hOut : ∀ c ∈ t.outstanding, c ∈ s.outstanding)
    (hStarted : t.desired = .running → ∀ rank, (t.dispatch rank).past = true → AckedStart s rank)
    (hArmed : s.recipe.coordinatorRank.isSome → ∀ pl ∈ s.placement.entries, (t.rankStates pl.rank).armed = true →
      ReportedArmed s pl.rank) (hRecipe : t.recipe = s.recipe) (hPlace : t.placement = s.placement) :
    Ordered t where
  aligned := hAligned
  verifying c hc hOp := (hs.verifying c (hOut c hc) hOp).mono hHist hRun
  started hWant rank hPast := (hStarted hWant rank hPast).mono hHist hRun
  armed hCoord pl hPl h := (hArmed (hRecipe ▸ hCoord) pl (hPlace ▸ hPl) h).mono hHist hRun

theorem Ordered.started_setPhase (hs : Ordered s) {target : Phase}
    (h : s.desired = .running → target.past = true → AckedStart s rank) (hWant : s.desired = .running) (k : Rank)
    (hPast : (Function.update s.dispatch rank target k).past = true) : AckedStart s k := by
  by_cases hk : k = rank
  · rw [hk, Function.update_self] at hPast
    exact hk ▸ h hWant hPast
  · rw [Function.update_of_ne hk] at hPast
    exact hs.started hWant k hPast

theorem Acks.acked (hBase : Base s) (hs : Ordered s) {c : Command} {cr : CommandResult} {target : Phase}
    (hOut : c ∈ s.outstanding) (hHeard : s.history.head? = some (.answered c cr)) (h : Acks P s c.rank cr c.op target)
    (hWant : s.desired = .running) (hPast : target.past = true) : AckedStart s c.rank := by
  have hStart (hOp : c.op = .start) (hAck : startAccepted cr = true) : AckedStart s c.rank := by
    refine ⟨_, List.mem_of_head? hHeard, ?_⟩
    simp [Fact.acksStart, hBase.run_eq hOut, hOp, hAck]
  generalize hOp : c.op = op at h
  cases h with
  | verify => exact hs.verifying c hOut hOp
  | startVerify _ hAck => exact hStart hOp hAck
  | start _ hAck => exact hStart hOp hAck
  | stopVerify =>
    have hStop := hs.aligned.stops c hOut (by rw [hOp]; rfl)
    rw [hWant] at hStop
    cases hStop
  | _ => cases hPast

theorem Ordered.send (hBase : Base s) (hs : Ordered s) (env : Env) (pl : Option Placement) {op : Op}
    (h : Sendable P s rank op) : Ordered (s.sendWorkload env rank pl op) := by
  obtain ⟨hRecipe, hPlace, hWant, hSend, hRun, _, hRankStates, _⟩ := sendWorkload_frame env s rank pl op
  have hHist fact hFact : fact ∈ (s.sendWorkload env rank pl op).history :=
    (Effect.send env rank pl op h).history_suffix.subset hFact
  refine ⟨hs.aligned.send hBase env pl h, fun c hc hOp => ?_, fun hRunning k hPast => ?_, fun hCoord p hp hArmed => ?_⟩
  · rcases mem_outstanding_sendWorkload hBase hc with rfl | hc
    · cases hOp
      exact (hs.started h.1 rank (by rw [h.2.1]; rfl)).mono hHist hRun
    · exact (hs.verifying c hc hOp).mono hHist hRun
  · rw [hSend] at hPast
    exact (hs.started (hWant ▸ hRunning) k hPast).mono hHist hRun
  · rw [hRankStates] at hArmed
    exact (hs.armed (hRecipe ▸ hCoord) p (hPlace ▸ hp) hArmed).mono hHist hRun

def Permits.orders (P : Permits) : Prop := ¬ P.undrained ∧ ¬ P.armed

theorem Ordered.effect (hP : P.orders) (hBase : Base s) (hs : Ordered s) (h : Effect P s t) : Ordered t := by
  have hAligned : Aligned t := hs.aligned.effect hP.1 hBase h
  have hStop (hWant : s.desired = .stopped) {p : Prop} (hRun : s.desired = .running) : p := by
    rw [hWant] at hRun
    cases hRun
  cases h with
  | quiet h =>
    refine hs.of_frame hAligned h.runID (fun _ hf => h.history ▸ hf) (fun _ hc => h.mem_outstanding hc) ?_ ?_
      h.recipe h.placement
    · rw [h.desired, h.dispatch]
      exact hs.started
    · rw [h.rankStates]
      exact hs.armed
  | rankState rank state hReported =>
    refine hs.of_frame hAligned rfl (fun _ hf => hf) (fun _ hc => hc) hs.started (fun hCoord pl hPl hArmed => ?_)
      rfl rfl
    change (Function.update s.rankStates rank state pl.rank).armed = true at hArmed
    by_cases hRank : pl.rank = rank
    · rw [hRank, Function.update_self] at hArmed
      exact hRank ▸ hReported hArmed
    · rw [Function.update_of_ne hRank] at hArmed
      exact hs.armed hCoord pl hPl hArmed
  | hear fact hFact =>
    exact hs.of_frame hAligned rfl (fun _ hf => List.mem_cons_of_mem _ hf) (fun _ hc => mem_outstanding_record hFact hc)
      hs.started hs.armed rfl rfl
  | forget keep =>
    exact hs.of_frame hAligned rfl (fun _ hf => hf) (fun _ hc => mem_outstanding_filter hc) hs.started hs.armed rfl rfl
  | reset =>
    exact hs.of_frame hAligned rfl (fun _ hf => hf) (fun _ hc => by cases (mem_outstanding.mp hc).2) hs.started
      (fun _ _ _ hArmed => by cases hArmed) rfl rfl
  | advance rank hWant h =>
    refine hs.of_frame hAligned rfl (fun _ hf => hf) (fun _ hc => hc) (hs.started_setPhase fun _ hPast => ?_) hs.armed
      rfl rfl
    generalize s.dispatch rank = old at h
    cases h <;> cases hPast
  | send env rank pl op h => exact hs.send hBase env pl h
  | ack c cr hOut hHeard h =>
    exact hs.of_frame hAligned rfl (fun _ hf => hf) (fun _ hc => (mem_outstanding_inflightTake hc).1)
      (hs.started_setPhase (h.acked hBase hs hOut hHeard)) hs.armed rfl rfl
  | halt rank hWant h =>
    exact hs.of_frame hAligned rfl (fun _ hf => hf) (fun _ hc => hc) (hStop hWant) hs.armed rfl rfl
  | stopRequested | finishStop =>
    exact hs.of_frame hAligned rfl (fun _ hf => hf) (fun _ hc => hc) nofun hs.armed rfl rfl
  | release => exact hs.of_frame hAligned rfl (fun _ hf => hf) (fun _ hc => hc) hs.started hs.armed rfl rfl
  | begin plan hBegins hWant hDrained hUnarmed =>
    have hNone : s.outstanding = [] := by_contra fun h => hP.1 (hDrained h)
    refine ⟨hAligned, fun c hc => (outstanding_begin plan hNone hc).elim, fun _ rank hPast => ?_, ?_⟩
    · cases hPast
    · intro hCoord pl hPl hArmed
      exact absurd (hUnarmed hCoord pl hPl hArmed) hP.2

theorem ordered_plannedRow (recipe : Recipe) (plan : PlacementSet) : Ordered (plannedRow recipe plan) where
  aligned := aligned_plannedRow recipe plan
  verifying _ h := by cases h
  started _ _ h := by cases h
  armed _ _ _ h := by cases h

theorem Effects.sent_start (h : Effects P s t) {c : Command} (hStart : c.op = .start)
    (hSent : Fact.sent c ∈ t.history) (hNew : Fact.sent c ∉ s.history) :
    P.start c.rank ∧ ∃ u, Effects P s u ∧ c.run = u.runID := by
  induction h with
  | refl => exact absurd hSent hNew
  | @tail u t hChain hEffect ih =>
    rcases hEffect.sent hSent with hOld | ⟨hSendable, hRun⟩
    · exact ih hOld
    · rw [hStart] at hSendable
      exact ⟨hSendable.2.2.1, u, hChain, hRun⟩

theorem dispatchesStart_spec {e : Event} (h : dispatchesStart s rank e = true) :
    s.desired = .running ∧ s.startReady rank = true ∧ startsRun e = false := by
  cases e with
  | gateLeave env r err =>
    simp only [dispatchesStart, Bool.and_eq_true, decide_eq_true_eq] at h
    exact ⟨h.1.1.2, h.2, rfl⟩
  | _ => cases h

/-- In the current run every other rank has acknowledged its START and is started; a coordinator has
also seen it armed. -/
structure HeadWaits (s : Deployment) (rank : Rank) : Prop where
  workersFirst : s.recipe.coordinatorRank = none → s.recipe.startOrder = .workersFirst → rank = 0 →
    ∀ pl ∈ s.placement.entries, pl.rank ≠ rank → s.dispatch pl.rank = .started ∧ AckedStart s pl.rank
  coordinator : s.recipe.coordinatorRank = some rank → ∀ pl ∈ s.placement.entries, pl.rank ≠ rank →
    s.dispatch pl.rank = .started ∧ AckedStart s pl.rank ∧ ReportedArmed s pl.rank

theorem Ordered.headWaits (hs : Ordered s) (hWant : s.desired = .running) (hReady : s.startReady rank = true) :
    HeadWaits s rank := by
  have hAcked {k : Rank} (hPhase : s.dispatch k = .started) : AckedStart s k :=
    hs.started hWant k (by rw [hPhase]; rfl)
  refine ⟨fun hNone hOrder hHead pl hPl hOther => ?_, fun hCoord pl hPl hOther => ?_⟩
  · simp only [startReady, hNone, hHead, hOrder, ne_eq, not_true_eq_false, decide_false, Bool.false_or,
      List.all_eq_true] at hReady
    have hPhase : s.dispatch pl.rank = .started := by
      have hReadyAt := hReady pl hPl
      have hPos : 0 < pl.rank := Nat.pos_of_ne_zero (hHead ▸ hOther)
      simpa [hPos] using hReadyAt
    exact ⟨hPhase, hAcked hPhase⟩
  simp only [startReady, hCoord, ne_eq, not_true_eq_false, decide_false, Bool.false_or, List.all_eq_true] at hReady
  obtain ⟨hPhase, hArmed⟩ : s.dispatch pl.rank = .started ∧ (s.rankStates pl.rank).armed = true := by
    have hReadyAt := hReady pl hPl
    simpa [hOther] using hReadyAt
  exact ⟨hPhase, hAcked hPhase, hs.armed (by rw [hCoord]; rfl) pl hPl hArmed⟩

def StartsOrdered (s : Deployment) (e : Event) : Prop := ¬ startsUndrained s e ∧ ¬ startsArmed s e

instance (s : Deployment) (e : Event) : Decidable (StartsOrdered s e) := inferInstanceAs (Decidable (¬ _ ∧ ¬ _))

theorem head_start_waits {f : DeploymentID → Deployment}
    (hReach : service.Reachable (System.familyGuard StartsOrdered) f) (id : DeploymentID) {e : Event}
    (hEnabled : system.enabled (f id) e) {c : Command} (hStart : c.op = .start)
    (hSent : Fact.sent c ∈ (next (f id) e).history) (hNew : Fact.sent c ∉ (f id).history) :
    c.run = (f id).runID ∧ HeadWaits (f id) c.rank := by
  obtain ⟨hBase, hOrd⟩ : Base (f id) ∧ Ordered (f id) :=
    invariant_of_effects Permits.orders Ordered ⟨fun h => h, fun h => h⟩ (fun _ h => h.1) ordered_plannedRow
      (fun _ hP _ _ hBase hs h => hs.effect hP hBase h) (hReach.component id)
  obtain ⟨hDispatches, u, hChain, hRun⟩ := (next_effects hBase hEnabled).sent_start hStart hSent hNew
  obtain ⟨hWant, hReady, hNoStart⟩ := dispatchesStart_spec hDispatches
  exact ⟨hRun.trans (hChain.runID_eq (Bool.eq_false_iff.mp hNoStart)), hOrd.headWaits hWant hReady⟩

def workersFirst : Recipe := ⟨false, false, false, .workersFirst, none⟩

def plannedFleet : Deployment := createPlanned .calm workersFirst twoRanks

theorem init_plannedFleet : system.init plannedFleet := ⟨_, _, _, rfl⟩

def workerStartSent : List Event :=
  pass 1 ++ pass 1 ++ pass 1 ++ [.result .calm ⟨0, 0, 1, .create⟩ accepted] ++ pass 1 ++ pass 1

def headPrepared (create : Command) : List Event :=
  pass 0 ++ pass 0 ++ pass 0 ++ [.result .calm create accepted] ++ pass 0 ++ [.gateEnter 0]

def orderedStart : List Event :=
  workerStartSent ++ [.result .calm ⟨1, 0, 1, .start⟩ accepted] ++ headPrepared ⟨2, 0, 0, .create⟩

theorem head_start_waits_worker_acked :
    let f : DeploymentID → Deployment := Function.update (fun _ => plannedFleet) "d" (system.exec plannedFleet orderedStart)
    Fact.sent ⟨3, 0, 0, .start⟩ ∈ (next (f "d") (.gateLeave .calm 0 none)).history ∧ HeadWaits (f "d") 0 := by
  intro f
  have hMay : system.Allowed StartsOrdered plannedFleet orderedStart := by decide +kernel
  have hReach := System.Reachable.lift init_plannedFleet hMay "d"
  have hOn : system.enabled (f "d") (.gateLeave .calm 0 none) := by decide +kernel
  have hSent : Fact.sent ⟨3, 0, 0, .start⟩ ∈ (next (f "d") (.gateLeave .calm 0 none)).history := by decide +kernel
  have hNew : Fact.sent ⟨3, 0, 0, .start⟩ ∉ (f "d").history := by decide +kernel
  exact ⟨hSent, (head_start_waits hReach "d" hOn rfl hSent hNew).2⟩

/-- The worker's START of the first run is acknowledged in the second, whose own START was never sent. -/
def staleStart : List Event :=
  workerStartSent ++ [.stop .calm, .result .calm ⟨2, 0, 1, .stop⟩ accepted, .start .calm twoRanks,
    .result .calm ⟨1, 0, 1, .start⟩ accepted] ++ pass 0 ++ pass 0 ++ [.converge .calm "a"] ++
    headPrepared ⟨3, 1, 0, .create⟩

theorem stale_start_releases_head : ¬ ∀ (f : DeploymentID → Deployment) (id : DeploymentID) (e : Event) (c : Command),
      service.Reachable (System.familyGuard fun _ _ => True) f → system.enabled (f id) e → c.op = .start →
      Fact.sent c ∈ (next (f id) e).history → Fact.sent c ∉ (f id).history →
      c.run = (f id).runID ∧ HeadWaits (f id) c.rank := by
  intro h
  have hMay : system.Allowed (fun _ _ => True) plannedFleet staleStart := by decide +kernel
  have hReach := System.Reachable.lift init_plannedFleet hMay "d"
  obtain ⟨_, hWaits⟩ := h _ "d" (.gateLeave .calm 0 none) ⟨4, 1, 0, .start⟩ hReach (by decide +kernel) rfl
    (by decide +kernel) (by decide +kernel)
  obtain ⟨fact, hFact, hAck⟩ := (hWaits.workersFirst rfl rfl rfl ⟨"b", 1⟩ (by decide +kernel) (by decide)).2
  have hNever : ∀ fact ∈ (system.exec plannedFleet staleStart).history, fact.acksStart 1 1 = false := by decide +kernel
  exact absurd hAck (Bool.eq_false_iff.mp (hNever fact hFact))

end LocalModelWorks.Deploy
