import LocalModelWorks.Deploy.Handlers

/-!
# Effects of the handlers

Every handler call is a chain of small effects on a deployment, and each effect says under
which circumstances the service takes it.
-/

namespace LocalModelWorks.Deploy

open Runs List Deployment

variable (run : RunID) (rank : Rank)

def Fact.launches : Fact → Bool
  | .sent c => c.run = run && c.rank = rank && (c.op = .create || c.op = .start)
  | _ => false

def Fact.confirmsDown : Fact → Bool
  | .answered c cr => c.run = run && c.rank = rank &&
      ((c.op = .stop && (cr.ok || isContainerMissing cr.error)) ||
        (c.op = .inspect && if cr.ok then terminalWorkloadState cr.containerState else isContainerMissing cr.error))
  | .reported r k state => r = run && k = rank && terminalWorkloadState state
  | .sent _ => false

def Fact.acksStart : Fact → Bool
  | .answered c cr => c.run = run && c.rank = rank && c.op = .start && startAccepted cr
  | _ => false

def Fact.reportsArmed : Fact → Bool
  | .answered c cr => c.run = run && c.rank = rank && c.op = .inspect && cr.ok && cr.containerState.armed
  | .reported r k state => r = run && k = rank && state.armed
  | .sent _ => false

def live (run : RunID) (rank : Rank) : List Fact → Bool
  | [] => false
  | fact :: rest => fact.launches run rank || (!fact.confirmsDown run rank && live run rank rest)

variable {rank : Rank} {s t : Deployment} {c : Command}

theorem live_cons_of_confirmsDown {run : RunID} {fact : Fact} (rest : List Fact)
    (h : fact.confirmsDown run rank = true) : live run rank (fact :: rest) = false := by
  have hLaunch : fact.launches run rank = false := by
    cases fact <;> first | rfl | cases h
  rw [live, hLaunch, h]
  rfl

theorem live_of_live_cons {run : RunID} {fact : Fact} {rest : List Fact} (hFact : ∀ c, fact ≠ .sent c)
    (h : live run rank (fact :: rest) = true) : live run rank rest = true := by
  have hLaunch : fact.launches run rank = false := by
    cases fact with
    | sent c => exact absurd rfl (hFact c)
    | answered | reported => rfl
  rw [live, hLaunch, Bool.false_or, Bool.and_eq_true] at h
  exact h.2

def Fact.command? : Fact → Option Command
  | .sent c => some c
  | _ => none

def Deployment.outstanding (s : Deployment) : List Command :=
  (s.history.filterMap Fact.command?).filter (·.entry ∈ s.inflight)

theorem mem_outstanding : c ∈ s.outstanding ↔ Fact.sent c ∈ s.history ∧ c.entry ∈ s.inflight := by
  have hSent : (∃ fact ∈ s.history, fact.command? = some c) ↔ Fact.sent c ∈ s.history := by
    constructor
    · rintro ⟨fact, hFact, hCmd⟩
      cases fact <;> cases hCmd
      exact hFact
    · exact fun h => ⟨_, h, rfl⟩
  rw [outstanding, mem_filter, mem_filterMap, hSent, decide_eq_true_eq]

structure Permits where
  begins : Prop
  fail : Prop
  createLost : Prop
  undrained : Prop
  armed : Prop
  again : Prop
  launch : Prop
  start : Rank → Prop

/-- Only observed state, diagnostics, run states and gates may differ. -/
structure Quiet (s t : Deployment) : Prop where
  recipe : t.recipe = s.recipe
  placement : t.placement = s.placement
  desired : t.desired = s.desired
  dispatch : t.dispatch = s.dispatch
  runID : t.runID = s.runID
  leases : t.leases = s.leases
  rankStates : t.rankStates = s.rankStates
  inflight : t.inflight = s.inflight
  nextID : t.nextID = s.nextID
  history : t.history = s.history

inductive Advances (s : Deployment) (rank : Rank) : Phase → Phase → Prop
  | enterPrepare : Advances s rank .none .preparing
  | skipPrepare : Advances s rank .none .prepared
  | pulled : Advances s rank .prepared .pulled
  | enterHostPrepare : Advances s rank .created .hostPreparing
  | skipHostPrepare : Advances s rank .created .hostPrepared
  | leaveHostPrepare (hIdle : s.inflightHas rank .hostPrepare = false) : Advances s rank .hostPreparing .hostPrepared

def Sendable (P : Permits) (s : Deployment) (rank : Rank) : Op → Prop
  | .prepare => s.desired = .running ∧ s.dispatch rank = .preparing ∧ s.inflightHas rank .prepare = false
  | .create => s.desired = .running ∧ s.dispatch rank = .pulled ∧ P.launch
  | .hostPrepare => s.desired = .running ∧ s.dispatch rank = .hostPreparing ∧ s.inflightHas rank .hostPrepare = false
  | .start => s.desired = .running ∧ s.dispatch rank = .hostPrepared ∧ P.start rank ∧ P.launch
  | .verify => s.desired = .running ∧ s.dispatch rank = .verifying ∧ s.inflightHas rank .verify = false
  | .inspect => s.desired = .running
  | .stopPrepare => s.desired = .stopped ∧ s.dispatch rank = .preparing
  | .stopVerify | .stop => s.desired = .stopped

/-- `again`: the rank is already past the phase that the acknowledgement of a CREATE or START writes. -/
inductive Acks (P : Permits) (s : Deployment) (rank : Rank) (cr : CommandResult) : Op → Phase → Prop
  | prepare : Acks P s rank cr .prepare .prepared
  | verify : Acks P s rank cr .verify .started
  | stopPrepare : Acks P s rank cr .stopPrepare .stopped
  | stopVerify : Acks P s rank cr .stopVerify .started
  | create (h : s.desired = .running) (hAgain : Phase.created.order < (s.dispatch rank).order → P.again) :
      Acks P s rank cr .create .created
  | createStopping (h : s.desired = .stopped) : Acks P s rank cr .create .stopping
  | createLost (h : s.desired = .stopped) (hLost : live s.runID rank s.history = true → P.createLost) :
      Acks P s rank cr .create .stopped
  | hostPrepare (h : s.desired = .running) : Acks P s rank cr .hostPrepare .hostPrepared
  | hostPrepareStopping (h : s.desired = .stopped) : Acks P s rank cr .hostPrepare .stopping
  | startVerify (h : s.desired = .running) (hAck : startAccepted cr = true) (hVerify : s.recipe.verify = true)
      (hAgain : Phase.verifying.order < (s.dispatch rank).order → P.again) : Acks P s rank cr .start .verifying
  | start (h : s.desired = .running) (hAck : startAccepted cr = true) (hVerify : s.recipe.verify = false)
      (hAgain : Phase.started.order < (s.dispatch rank).order → P.again) : Acks P s rank cr .start .started
  | startStopping (h : s.desired = .stopped) : Acks P s rank cr .start .stopping
  | stop (h : (cr.ok || isContainerMissing cr.error) = true) : Acks P s rank cr .stop .stopped

inductive Halts (s : Deployment) (rank : Rank) : Phase → Prop
  | stopping : Halts s rank .stopping
  | idle (h : s.dispatch rank = .none ∨ s.dispatch rank = .prepared) : Halts s rank .stopped
  | down (h : live s.runID rank s.history = false) : Halts s rank .stopped

def Deployment.begin (s : Deployment) (plan : PlacementSet) : Deployment :=
  { s with placement := plan, desired := .running, dispatch := fun _ => .none, runID := s.runID + 1, leases := true }

inductive Effect (P : Permits) (s : Deployment) : Deployment → Prop
  | quiet {t : Deployment} (h : Quiet s t) : Effect P s t
  | rankState (rank : Rank) (state : RankState)
      (h : state.armed = true → ∃ fact ∈ s.history, fact.reportsArmed s.runID rank = true) :
      Effect P s (s.setRankState rank state)
  | hear (fact : Fact) (h : ∀ c, fact ≠ .sent c)
      (hAnswers : ∀ c cr, fact = .answered c cr → Fact.sent c ∈ s.history) : Effect P s (s.record fact)
  | forget (keep : InflightCmd → Bool) : Effect P s { s with inflight := s.inflight.filter keep }
  | advance (rank : Rank) {target : Phase} (hDesired : s.desired = .running)
      (h : Advances s rank (s.dispatch rank) target) : Effect P s (s.setPhase rank target)
  | send (env : Env) (rank : Rank) (pl : Option Placement) (op : Op) (h : Sendable P s rank op) :
      Effect P s (sendWorkload env s rank pl op)
  | ack (c : Command) (cr : CommandResult) {target : Phase} (hOut : c ∈ s.outstanding)
      (hHeard : s.history.head? = some (.answered c cr)) (h : Acks P s c.rank cr c.op target) :
      Effect P s ((s.inflightTake c.id).setPhase c.rank target)
  | halt (rank : Rank) {target : Phase} (hDesired : s.desired = .stopped) (h : Halts s rank target) :
      Effect P s (s.setPhase rank target)
  | stopRequested : Effect P s { s with desired := .stopped }
  | finishStop (h : ∀ rank ∈ s.placement.allRanks, s.dispatch rank = .stopped) :
      Effect P s { s with desired := .stopped, leases := false }
  | release (h : P.fail) : Effect P s { s with leases := false }
  | begin (plan : PlacementSet) (hBegins : P.begins) (hDesired : s.desired = .stopped)
      (hDrained : s.outstanding ≠ [] → P.undrained)
      (hArmed : s.recipe.coordinatorRank.isSome → ∀ pl ∈ plan.entries, (s.rankStates pl.rank).armed = true → P.armed) :
      Effect P s (s.begin plan)
  | reset : Effect P s { s with inflight := [], rankStates := fun _ => .unset }

abbrev Effects (P : Permits) : Deployment → Deployment → Prop := Relation.ReflTransGen (Effect P)

variable {P : Permits}

theorem Effect.chain (h : Effect P s t) : Effects P s t := .single h

theorem Quiet.refl (s : Deployment) : Quiet s s := by constructor <;> rfl

theorem Quiet.trans {r : Deployment} (h₁ : Quiet s t) (h₂ : Quiet t r) : Quiet s r where
  recipe := h₂.recipe.trans h₁.recipe
  placement := h₂.placement.trans h₁.placement
  desired := h₂.desired.trans h₁.desired
  dispatch := h₂.dispatch.trans h₁.dispatch
  runID := h₂.runID.trans h₁.runID
  leases := h₂.leases.trans h₁.leases
  rankStates := h₂.rankStates.trans h₁.rankStates
  inflight := h₂.inflight.trans h₁.inflight
  nextID := h₂.nextID.trans h₁.nextID
  history := h₂.history.trans h₁.history

theorem quiet_noteDispatch (s : Deployment) (d : Diag.Diagnostic) : Quiet s (s.noteDispatch d) := by
  constructor <;> rfl

theorem quiet_setGate (s : Deployment) (rank : Rank) (gate : Option Gate) : Quiet s (s.setGate rank gate) := by
  constructor <;> rfl

theorem quiet_setRun (s : Deployment) (new : State) : Quiet s (s.setRun new) := by
  unfold setRun
  split
  · constructor <;> rfl
  · exact .refl s

theorem quiet_wake (s : Deployment) (rank : Rank) (pl : Option Placement) : Quiet s (s.wake rank pl) := by
  unfold wake
  split <;> exact quiet_setGate s rank _

structure Base (s : Deployment) : Prop where
  sentBelow : ∀ c, Fact.sent c ∈ s.history → c.id < s.nextID
  markedBelow : ∀ command ∈ s.inflight, command.id < s.nextID
  pastRuns : ∀ c, Fact.sent c ∈ s.history → c.run ≤ s.runID
  matched : ∀ c, Fact.sent c ∈ s.history → ∀ command ∈ s.inflight, command.id = c.id →
    command = c.entry ∧ c.run = s.runID

theorem Base.run_eq (hs : Base s) (hOut : c ∈ s.outstanding) : c.run = s.runID :=
  (hs.matched c (mem_outstanding.mp hOut).1 c.entry (mem_outstanding.mp hOut).2 rfl).2

theorem Base.of_subset (hs : Base s) (hSent : ∀ c, Fact.sent c ∈ t.history → Fact.sent c ∈ s.history)
    (hFlight : ∀ command ∈ t.inflight, command ∈ s.inflight) (hNext : t.nextID = s.nextID)
    (hRun : t.runID = s.runID) : Base t where
  sentBelow c hc := hNext ▸ hs.sentBelow c (hSent c hc)
  markedBelow command h := hNext ▸ hs.markedBelow command (hFlight command h)
  pastRuns c hc := hRun ▸ hs.pastRuns c (hSent c hc)
  matched c hc command h hID := hRun ▸ hs.matched c (hSent c hc) command (hFlight command h) hID

@[simp] theorem sendWorkload_inflight (env : Env) (s : Deployment) (rank : Rank) (pl : Option Placement) (op : Op) :
    (s.sendWorkload env rank pl op).inflight = ⟨s.nextID, rank, op⟩ :: s.inflight := by
  unfold sendWorkload
  split <;> rfl

theorem mem_history_sendWorkload {env : Env} {pl : Option Placement} {op : Op} {fact : Fact}
    (h : fact ∈ (s.sendWorkload env rank pl op).history) :
    fact = .sent ⟨s.nextID, s.runID, rank, op⟩ ∨ fact ∈ s.history := by
  unfold sendWorkload at h
  split at h
  · exact mem_cons.mp h
  · exact .inr h

theorem sendWorkload_frame (env : Env) (s : Deployment) (rank : Rank) (pl : Option Placement) (op : Op) :
    (s.sendWorkload env rank pl op).recipe = s.recipe ∧ (s.sendWorkload env rank pl op).placement = s.placement ∧
    (s.sendWorkload env rank pl op).desired = s.desired ∧ (s.sendWorkload env rank pl op).dispatch = s.dispatch ∧
    (s.sendWorkload env rank pl op).runID = s.runID ∧ (s.sendWorkload env rank pl op).leases = s.leases ∧
    (s.sendWorkload env rank pl op).rankStates = s.rankStates ∧
    (s.sendWorkload env rank pl op).nextID = s.nextID + 1 := by
  unfold sendWorkload
  split <;> exact ⟨rfl, rfl, rfl, rfl, rfl, rfl, rfl, rfl⟩

theorem Base.sendWorkload (hs : Base s) (env : Env) (rank : Rank) (pl : Option Placement) (op : Op) :
    Base (s.sendWorkload env rank pl op) := by
  obtain ⟨_, _, _, _, hRun, _, _, hNext⟩ := sendWorkload_frame env s rank pl op
  refine ⟨fun c hc => ?_, fun command h => ?_, fun c hc => ?_, fun c hc command h hID => ?_⟩
  · rw [hNext]
    rcases mem_history_sendWorkload hc with hEq | hc
    · cases hEq
      exact Nat.lt_succ_self _
    · exact Nat.lt_succ_of_lt (hs.sentBelow c hc)
  · rw [sendWorkload_inflight] at h
    rw [hNext]
    rcases mem_cons.mp h with rfl | h
    · exact Nat.lt_succ_self _
    · exact Nat.lt_succ_of_lt (hs.markedBelow command h)
  · rw [hRun]
    rcases mem_history_sendWorkload hc with hEq | hc
    · cases hEq
      exact le_rfl
    · exact hs.pastRuns c hc
  rw [sendWorkload_inflight] at h
  rw [hRun]
  rcases mem_history_sendWorkload hc with hEq | hc <;> rcases mem_cons.mp h with rfl | h
  · cases hEq
    exact ⟨rfl, rfl⟩
  · cases hEq
    exact absurd hID (hs.markedBelow command h).ne
  · exact absurd hID (hs.sentBelow c hc).ne'
  · exact hs.matched c hc command h hID

theorem Base.effect (hP : ¬ P.undrained) (hs : Base s) (h : Effect P s t) : Base t := by
  cases h with
  | quiet h =>
    exact hs.of_subset (fun c hc => h.history ▸ hc) (fun command hc => h.inflight ▸ hc) h.nextID h.runID
  | hear fact hFact =>
    refine hs.of_subset (fun c hc => ?_) (fun _ h => h) rfl rfl
    exact (mem_cons.mp hc).resolve_left fun hEq => hFact c hEq.symm
  | forget | ack => exact hs.of_subset (fun _ h => h) (fun _ h => (mem_filter.mp h).1) rfl rfl
  | reset => exact hs.of_subset (fun _ h => h) (fun _ h => by cases h) rfl rfl
  | send env rank pl op => exact hs.sendWorkload env rank pl op
  | begin plan hBegins hDesired hDrained =>
    refine ⟨hs.sentBelow, hs.markedBelow, fun c hc => Nat.le_succ_of_le (hs.pastRuns c hc), ?_⟩
    intro c hc command h hID
    obtain ⟨rfl, _⟩ := hs.matched c hc command h hID
    exact absurd (hDrained (ne_nil_of_mem (mem_outstanding.mpr ⟨hc, h⟩))) hP
  | rankState | advance | halt | stopRequested | finishStop | release =>
    exact hs.of_subset (fun _ h => h) (fun _ h => h) rfl rfl

theorem Base.effects (hP : ¬ P.undrained) (hs : Base s) (h : Effects P s t) : Base t := by
  induction h with
  | refl => exact hs
  | tail _ hEffect ih => exact ih.effect hP hEffect

theorem Effects.preserve {I : Deployment → Prop} (hP : ¬ P.undrained)
    (hStep : ∀ s t, Base s → I s → Effect P s t → I t) (hs : Base s) (hI : I s) (h : Effects P s t) : I t := by
  induction h with
  | refl => exact hI
  | tail hChain hEffect ih => exact hStep _ _ (hs.effects hP hChain) ih hEffect

theorem Effect.sent (h : Effect P s t) (hSent : Fact.sent c ∈ t.history) :
    Fact.sent c ∈ s.history ∨ (Sendable P s c.rank c.op ∧ c.run = s.runID) := by
  cases h with
  | quiet h => exact .inl (h.history ▸ hSent)
  | hear fact hFact => exact .inl ((mem_cons.mp hSent).resolve_left fun hEq => hFact c hEq.symm)
  | send env rank pl op h =>
    rcases mem_history_sendWorkload hSent with hEq | hOld
    · cases hEq
      exact .inr ⟨h, rfl⟩
    · exact .inl hOld
  | _ => exact .inl hSent

theorem Effect.history_suffix (h : Effect P s t) : s.history <:+ t.history := by
  cases h with
  | quiet h => exact h.history ▸ suffix_rfl
  | hear fact => exact suffix_cons fact s.history
  | send env rank pl op =>
    unfold sendWorkload
    split
    · exact suffix_cons _ s.history
    · exact suffix_rfl
  | _ => exact suffix_rfl

theorem Effects.history_suffix (h : Effects P s t) : s.history <:+ t.history := by
  induction h with
  | refl => exact suffix_rfl
  | tail _ hEffect ih => exact ih.trans hEffect.history_suffix

theorem Effect.runID_eq (hP : ¬ P.begins) (h : Effect P s t) : t.runID = s.runID := by
  cases h with
  | quiet h => exact h.runID
  | send env rank pl op => exact (sendWorkload_frame env s rank pl op).2.2.2.2.1
  | begin plan hBegins => exact absurd hBegins hP
  | _ => rfl

theorem Effects.runID_eq (hP : ¬ P.begins) (h : Effects P s t) : t.runID = s.runID := by
  induction h with
  | refl => rfl
  | tail _ hEffect ih => exact (hEffect.runID_eq hP).trans ih

end LocalModelWorks.Deploy
