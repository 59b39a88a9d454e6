import LocalModelWorks.Deploy.Isolation

/-!
# Outstanding commands and dispatch phases

While a deployment should run, an outstanding extension prepare pins its rank to the
preparing phase, and the commands that follow it are only outstanding for ranks past the
pull.
-/

namespace LocalModelWorks.Deploy

open Deployment Function

variable {s t : Deployment} {c : Command} {rank : Rank} {op : Op} {target : Phase} {P : Permits}

theorem mem_outstanding_of_subset (hSent : ∀ c, Fact.sent c ∈ t.history → Fact.sent c ∈ s.history)
    (hFlight : ∀ command ∈ t.inflight, command ∈ s.inflight) (hc : c ∈ t.outstanding) :
    c ∈ s.outstanding := by
  obtain ⟨hFact, hEntry⟩ := mem_outstanding.mp hc
  exact mem_outstanding.mpr ⟨hSent c hFact, hFlight _ hEntry⟩

theorem Quiet.mem_outstanding (h : Quiet s t) (hc : c ∈ t.outstanding) : c ∈ s.outstanding :=
  mem_outstanding_of_subset (fun _ hc => h.history ▸ hc) (fun _ hc => h.inflight ▸ hc) hc

theorem mem_history_record {fact : Fact} (hFact : ∀ c, fact ≠ .sent c) (c : Command)
    (hc : Fact.sent c ∈ (s.record fact).history) : Fact.sent c ∈ s.history :=
  (List.mem_cons.mp hc).resolve_left fun hEq => hFact c hEq.symm

theorem mem_outstanding_record {fact : Fact} (hFact : ∀ c, fact ≠ .sent c) (hc : c ∈ (s.record fact).outstanding) :
    c ∈ s.outstanding := by
  refine mem_outstanding_of_subset ?_ ?_ hc
  · exact mem_history_record hFact
  · exact fun _ h => h

theorem mem_outstanding_filter {keep : InflightCmd → Bool}
    (hc : c ∈ ({ s with inflight := s.inflight.filter keep } : Deployment).outstanding) : c ∈ s.outstanding := by
  refine mem_outstanding_of_subset ?_ ?_ hc
  · exact fun _ h => h
  · exact fun _ h => (List.mem_filter.mp h).1

theorem mem_outstanding_inflightTake {id : CommandID} {phase : Phase}
    (hc : c ∈ ((s.inflightTake id).setPhase rank phase).outstanding) : c ∈ s.outstanding ∧ c.id ≠ id := by
  obtain ⟨hFact, hEntry⟩ := mem_outstanding.mp hc
  obtain ⟨hMem, hID⟩ := List.mem_filter.mp hEntry
  exact ⟨mem_outstanding.mpr ⟨hFact, hMem⟩, of_decide_eq_true hID⟩

theorem mem_outstanding_sendWorkload (hs : Base s) {env : Env} {pl : Option Placement}
    (hc : c ∈ (s.sendWorkload env rank pl op).outstanding) :
    c = ⟨s.nextID, s.runID, rank, op⟩ ∨ c ∈ s.outstanding := by
  obtain ⟨hFact, hEntry⟩ := mem_outstanding.mp hc
  rw [sendWorkload_inflight] at hEntry
  rcases mem_history_sendWorkload hFact with hEq | hFact
  · cases hEq
    exact .inl rfl
  rcases List.mem_cons.mp hEntry with hEq | hEntry
  · have hID : c.id = s.nextID := congrArg InflightCmd.id hEq
    exact absurd hID (hs.sentBelow c hFact).ne
  · exact .inr (mem_outstanding.mpr ⟨hFact, hEntry⟩)

def Op.stops : Op → Bool
  | .stop | .stopPrepare | .stopVerify => true
  | _ => false

def Op.follows : Op → Bool
  | .create | .hostPrepare | .start | .verify => true
  | _ => false

structure Aligned (s : Deployment) : Prop where
  stops : ∀ c ∈ s.outstanding, c.op.stops = true → s.desired = .stopped
  preparing : s.desired = .running → ∀ c ∈ s.outstanding, c.op = .prepare → s.dispatch c.rank = .preparing
  following : s.desired = .running → ∀ c ∈ s.outstanding, c.op.follows = true →
    Phase.pulled.order ≤ (s.dispatch c.rank).order
  onePrepare : ∀ a ∈ s.inflight, ∀ b ∈ s.inflight, a.op = .prepare → b.op = .prepare → a.rank = b.rank → a = b

theorem Aligned.of_frame (hs : Aligned s) (hSent : ∀ c, Fact.sent c ∈ t.history → Fact.sent c ∈ s.history)
    (hFlight : ∀ command ∈ t.inflight, command ∈ s.inflight) (hWant : t.desired = s.desired)
    (hSend : t.dispatch = s.dispatch) : Aligned t where
  stops c hc hOp := hWant ▸ hs.stops c (mem_outstanding_of_subset hSent hFlight hc) hOp
  preparing hRun c hc hOp := by
    rw [hSend]
    exact hs.preparing (hWant ▸ hRun) c (mem_outstanding_of_subset hSent hFlight hc) hOp
  following hRun c hc hOp := by
    rw [hSend]
    exact hs.following (hWant ▸ hRun) c (mem_outstanding_of_subset hSent hFlight hc) hOp
  onePrepare a ha b hb := hs.onePrepare a (hFlight a ha) b (hFlight b hb)

theorem Aligned.of_stopped (hs : Aligned s) (hWant : t.desired = .stopped)
    (hFlight : ∀ command ∈ t.inflight, command ∈ s.inflight) : Aligned t where
  stops _ _ _ := hWant
  preparing hRun := by rw [hWant] at hRun; cases hRun
  following hRun := by rw [hWant] at hRun; cases hRun
  onePrepare a ha b hb := hs.onePrepare a (hFlight a ha) b (hFlight b hb)

theorem Advances.order_le {old new : Phase} (h : Advances s rank old new) : old.order ≤ new.order := by
  cases h <;> decide

theorem Advances.ne_preparing {old new : Phase} (h : Advances s rank old new) : old ≠ .preparing := by
  cases h <;> decide

theorem Aligned.advance (hs : Aligned s) (hWant : s.desired = .running) (h : Advances s rank (s.dispatch rank) target) :
    Aligned (s.setPhase rank target) where
  stops := hs.stops
  preparing _ c hc hOp := by
    have hPhase : s.dispatch c.rank = .preparing := hs.preparing hWant c hc hOp
    have hRank : c.rank ≠ rank := fun hEq => h.ne_preparing (hEq ▸ hPhase)
    exact (update_of_ne hRank ..).trans hPhase
  following _ c hc hOp := by
    have hPast := hs.following hWant c hc hOp
    simp only [setPhase]
    by_cases hRank : c.rank = rank
    · rw [hRank, update_self]
      exact (hRank ▸ hPast).trans h.order_le
    · rwa [update_of_ne hRank]
  onePrepare := hs.onePrepare

theorem Sendable.stops (h : Sendable P s rank op) (hOp : op.stops = true) : s.desired = .stopped := by
  cases op with
  | stopPrepare => exact h.1
  | stopVerify | stop => exact h
  | _ => cases hOp

theorem Sendable.follows (h : Sendable P s rank op) (hOp : op.follows = true) :
    Phase.pulled.order ≤ (s.dispatch rank).order := by
  cases op with
  | create | hostPrepare | start | verify => simp [h.2.1, Phase.order]
  | _ => cases hOp

theorem Aligned.send (hBase : Base s) (hs : Aligned s) (env : Env) (pl : Option Placement) (h : Sendable P s rank op) :
    Aligned (s.sendWorkload env rank pl op) := by
  obtain ⟨_, _, hWant, hSend, _⟩ := sendWorkload_frame env s rank pl op
  refine ⟨fun c hc hOp => ?_, fun hRun c hc hOp => ?_, fun hRun c hc hOp => ?_, fun a ha b hb => ?_⟩
  · rw [hWant]
    rcases mem_outstanding_sendWorkload hBase hc with rfl | hc
    · exact h.stops hOp
    · exact hs.stops c hc hOp
  · rw [hSend]
    rcases mem_outstanding_sendWorkload hBase hc with rfl | hc
    · cases hOp
      exact h.2.1
    · exact hs.preparing (hWant ▸ hRun) c hc hOp
  · rw [hSend]
    rcases mem_outstanding_sendWorkload hBase hc with rfl | hc
    · exact h.follows hOp
    · exact hs.following (hWant ▸ hRun) c hc hOp
  rw [sendWorkload_inflight] at ha hb
  have hIdle e (he : e ∈ s.inflight) (heOp : e.op = .prepare) (hOp : op = .prepare)
      (hRank : e.rank = rank) : False := by
    subst hOp
    have hNone := h.2.2
    simp only [inflightHas, List.any_eq_false] at hNone
    exact hNone e he (by simp [heOp, hRank])
  intro haOp hbOp hRank
  rcases List.mem_cons.mp ha with rfl | ha <;> rcases List.mem_cons.mp hb with rfl | hb
  · rfl
  · exact (hIdle b hb hbOp haOp hRank.symm).elim
  · exact (hIdle a ha haOp hbOp hRank).elim
  · exact hs.onePrepare a ha b hb haOp hbOp hRank

theorem Acks.running {cr : CommandResult} (h : Acks P s rank cr op target) (hWant : s.desired = .running)
    (hStops : op.stops = false) :
    (op = .prepare ∧ target = .prepared) ∨ (op.follows = true ∧ Phase.created.order ≤ target.order) := by
  cases h with
  | prepare => exact .inl ⟨rfl, rfl⟩
  | stopPrepare | stopVerify | stop => cases hStops
  | createStopping h | createLost h | hostPrepareStopping h | startStopping h => rw [hWant] at h; cases h
  | verify | create | hostPrepare | startVerify | start => exact .inr ⟨rfl, by decide⟩

theorem Aligned.ack (hs : Aligned s) {cr : CommandResult} (hOut : c ∈ s.outstanding) (h : Acks P s c.rank cr c.op target) :
    Aligned ((s.inflightTake c.id).setPhase c.rank target) := by
  have hFlight : ∀ command ∈ (s.inflightTake c.id).inflight, command ∈ s.inflight :=
    fun command hc => (List.mem_filter.mp hc).1
  cases hWant : s.desired with
  | stopped => exact hs.of_stopped hWant hFlight
  | running =>
    have hStops : c.op.stops = false := by
      refine Bool.eq_false_iff.mpr fun hOp => ?_
      have hStop := hs.stops c hOut hOp
      rw [hWant] at hStop
      cases hStop
    have hCase := h.running hWant hStops
    refine ⟨fun x hx => hs.stops x (mem_outstanding_inflightTake hx).1, fun _ x hx hOp => ?_, fun _ x hx hOp => ?_,
      fun a ha b hb => hs.onePrepare a (hFlight a ha) b (hFlight b hb)⟩
    · obtain ⟨hxOut, hxID⟩ := mem_outstanding_inflightTake hx
      have hPhase := hs.preparing hWant x hxOut hOp
      have hRank : x.rank ≠ c.rank := by
        intro hEq
        rcases hCase with ⟨hPrepare, _⟩ | ⟨hFollows, _⟩
        · have hSame := hs.onePrepare x.entry (mem_outstanding.mp hxOut).2 c.entry (mem_outstanding.mp hOut).2
            hOp hPrepare hEq
          exact hxID (congrArg InflightCmd.id hSame)
        have hPast := hs.following hWant c hOut hFollows
        rw [← hEq, hPhase] at hPast
        exact absurd hPast (by decide)
      exact (update_of_ne hRank ..).trans hPhase
    obtain ⟨hxOut, _⟩ := mem_outstanding_inflightTake hx
    have hPast := hs.following hWant x hxOut hOp
    change _ ≤ (Function.update s.dispatch c.rank target x.rank).order
    by_cases hRank : x.rank = c.rank
    · rw [hRank, update_self]
      rcases hCase with ⟨hPrepare, _⟩ | ⟨_, hOrder⟩
      · rw [hRank, hs.preparing hWant c hOut hPrepare] at hPast
        exact absurd hPast (by decide)
      · exact le_trans (by decide) hOrder
    · rwa [update_of_ne hRank]

theorem outstanding_begin (plan : PlacementSet) (h : s.outstanding = []) (hc : c ∈ (s.begin plan).outstanding) :
    False := by
  have hOld : c ∈ s.outstanding := hc
  rw [h] at hOld
  cases hOld

theorem Aligned.effect (hP : ¬ P.undrained) (hBase : Base s) (hs : Aligned s) (h : Effect P s t) : Aligned t := by
  cases h with
  | quiet h =>
    exact hs.of_frame (fun _ hc => h.history ▸ hc) (fun _ hc => h.inflight ▸ hc) h.desired h.dispatch
  | rankState | release => exact hs.of_frame (fun _ h => h) (fun _ h => h) rfl rfl
  | hear fact hFact =>
    exact hs.of_frame (mem_history_record hFact) (fun _ h => h) rfl rfl
  | forget keep => exact hs.of_frame (fun _ h => h) (fun _ h => (List.mem_filter.mp h).1) rfl rfl
  | reset => exact hs.of_frame (fun _ h => h) (fun _ h => by cases h) rfl rfl
  | advance rank hWant h => exact hs.advance hWant h
  | send env rank pl op h => exact hs.send hBase env pl h
  | ack c cr hOut hHeard h => exact hs.ack hOut h
  | halt rank hWant h => exact hs.of_stopped hWant (fun _ h => h)
  | stopRequested | finishStop => exact hs.of_stopped rfl (fun _ h => h)
  | begin plan hBegins hWant hDrained =>
    have hNone : s.outstanding = [] := by_contra fun h => hP (hDrained h)
    exact ⟨fun c hc => (outstanding_begin plan hNone hc).elim, fun _ c hc => (outstanding_begin plan hNone hc).elim,
      fun _ c hc => (outstanding_begin plan hNone hc).elim, hs.onePrepare⟩

theorem aligned_plannedRow (recipe : Recipe) (plan : PlacementSet) : Aligned (plannedRow recipe plan) where
  stops _ h := by cases h
  preparing _ _ h := by cases h
  following _ _ h := by cases h
  onePrepare _ h := by cases h

end LocalModelWorks.Deploy
