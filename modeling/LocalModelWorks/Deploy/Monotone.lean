import LocalModelWorks.Deploy.StartOrder

/-!
# Phase monotonicity

A command that is outstanding once at a time finds its rank in the phase it was sent from. A
CREATE or START can be sent again, and then its rank may have gone on when the second answer
comes.
-/

namespace LocalModelWorks.Deploy

open Transition Deployment Function

def Op.home : Op → Phase
  | .prepare => .preparing
  | .create => .pulled
  | .hostPrepare => .hostPreparing
  | .start => .hostPrepared
  | .verify => .verifying
  | .inspect => .started
  | .stop | .stopPrepare | .stopVerify => .stopping

def Op.single : Op → Bool
  | .prepare | .hostPrepare | .verify => true
  | _ => false

structure Singles (s : Deployment) : Prop where
  atHome : ∀ c ∈ s.outstanding, c.op.single = true → s.dispatch c.rank = c.op.home
  alone : ∀ a ∈ s.outstanding, ∀ b ∈ s.outstanding, a.op.single = true → b.op.single = true → a.rank = b.rank → a = b

structure Paced (s : Deployment) : Prop where
  aligned : Aligned s
  singles : s.desired = .running → Singles s
  launched : s.desired = .running → ∀ c, Fact.sent c ∈ s.history → c.run = s.runID → c.op = .create ∨ c.op = .start →
    c.op.home.order ≤ (s.dispatch c.rank).order
  verified : s.desired = .running → ∀ rank, s.dispatch rank = .verifying → s.recipe.verify = true
  answers : ∀ c cr, Fact.answered c cr ∈ s.history → Fact.sent c ∈ s.history

def Forward (s t : Deployment) : Prop :=
  s.runID ≤ t.runID ∧ (t.runID = s.runID → t.desired = .running →
    s.desired = .running ∧ ∀ rank, (s.dispatch rank).order ≤ (t.dispatch rank).order)

theorem Forward.refl (s : Deployment) : Forward s s := ⟨le_rfl, fun _ h => ⟨h, fun _ => le_rfl⟩⟩

variable {s t : Deployment} {rank : Rank} {target : Phase} {P : Permits} {c : Command} {cr : CommandResult} {op : Op}

theorem Forward.trans {r : Deployment} (h₁ : Forward s t) (h₂ : Forward t r) : Forward s r := by
  refine ⟨h₁.1.trans h₂.1, fun hRun hWant => ?_⟩
  have hMid : t.runID = s.runID := le_antisymm (hRun ▸ h₂.1) h₁.1
  obtain ⟨hRunning, hSecond⟩ := h₂.2 (hRun.trans hMid.symm) hWant
  obtain ⟨hStart, hFirst⟩ := h₁.2 hMid hRunning
  exact ⟨hStart, fun rank => (hFirst rank).trans (hSecond rank)⟩

theorem Forward.of_stopped (hRun : t.runID = s.runID) (hWant : t.desired = .stopped) : Forward s t := by
  refine ⟨hRun.ge, fun _ hRunning => ?_⟩
  rw [hWant] at hRunning
  cases hRunning

theorem Forward.setPhase (hRun : t.runID = s.runID) (hWant : t.desired = s.desired)
    (hSend : t.dispatch = Function.update s.dispatch rank target)
    (h : s.desired = .running → (s.dispatch rank).order ≤ target.order) : Forward s t := by
  refine ⟨hRun.ge, fun _ hRunning => ?_⟩
  have hRunning : s.desired = .running := hWant ▸ hRunning
  refine ⟨hRunning, fun k => ?_⟩
  rw [hSend]
  by_cases hk : k = rank
  · rw [hk, update_self]
    exact h hRunning
  · rw [update_of_ne hk]

theorem Aligned.not_stops (hs : Aligned s) (hWant : s.desired = .running) (hOut : c ∈ s.outstanding) :
    c.op.stops = false :=
  Bool.eq_false_iff.mpr fun hStops => absurd (hWant.symm.trans (hs.stops c hOut hStops)) (by decide)

theorem Acks.order_le (hP : ¬ P.again) (hs : Paced s) (hOut : c ∈ s.outstanding) (h : Acks P s c.rank cr c.op target)
    (hWant : s.desired = .running) :
    (s.dispatch c.rank).order ≤ target.order := by
  have hStops := hs.aligned.not_stops hWant hOut
  have hHome (hOne : c.op.single = true) (hLe : c.op.home.order ≤ target.order) :
      (s.dispatch c.rank).order ≤ target.order := by
    rwa [(hs.singles hWant).atHome c hOut hOne]
  generalize c.op = op at h hHome hStops
  cases h with
  | prepare | hostPrepare | verify => exact hHome rfl (by decide)
  | create _ hAgain | startVerify _ _ _ hAgain | start _ _ _ hAgain =>
    exact Nat.le_of_not_lt fun hPast => hP (hAgain hPast)
  | stopPrepare | stopVerify | stop => cases hStops
  | createStopping h | createLost h | hostPrepareStopping h | startStopping h => rw [hWant] at h; cases h

theorem Paced.forward (hP : ¬ P.again) (hs : Paced s) (h : Effect P s t) : Forward s t := by
  have hSame (hRun : t.runID = s.runID) (hWant : t.desired = s.desired) (hSend : t.dispatch = s.dispatch) :
      Forward s t :=
    ⟨hRun.ge, fun _ hRunning => ⟨hWant ▸ hRunning, fun _ => by rw [hSend]⟩⟩
  cases h with
  | quiet h => exact hSame h.runID h.desired h.dispatch
  | rankState | hear | forget | release | reset => exact hSame rfl rfl rfl
  | send env rank pl op =>
    obtain ⟨_, _, hWant, hSend, hRun, _⟩ := sendWorkload_frame env s rank pl op
    exact hSame hRun hWant hSend
  | advance rank hWant h => exact .setPhase rfl rfl rfl fun _ => h.order_le
  | ack c cr hOut hHeard h => exact .setPhase rfl rfl rfl (h.order_le hP hs hOut)
  | halt rank hWant h => exact .of_stopped rfl hWant
  | stopRequested | finishStop => exact .of_stopped rfl rfl
  | begin plan => exact ⟨Nat.le_succ _, fun hRun => absurd hRun (Nat.succ_ne_self _)⟩

theorem Singles.of_frame (hs : Singles s) (hOut : ∀ c ∈ t.outstanding, c ∈ s.outstanding)
    (hSend : t.dispatch = s.dispatch) : Singles t where
  atHome c hc hOne := by
    rw [hSend]
    exact hs.atHome c (hOut c hc) hOne
  alone a ha b hb := hs.alone a (hOut a ha) b (hOut b hb)

theorem Singles.of_setPhase (hs : Singles s) (hOut : ∀ c ∈ t.outstanding, c ∈ s.outstanding)
    (hSend : t.dispatch = Function.update s.dispatch rank target)
    (hOne : ∀ c ∈ t.outstanding, c.rank = rank → c.op.single = true → target = c.op.home) : Singles t where
  atHome c hc h := by
    rw [hSend]
    by_cases hRank : c.rank = rank
    · rw [hRank, update_self]
      exact hOne c hc hRank h
    · rw [update_of_ne hRank]
      exact hs.atHome c (hOut c hc) h
  alone a ha b hb := hs.alone a (hOut a ha) b (hOut b hb)

theorem Op.home_injective {a b : Op} (ha : a.single = true) (hb : b.single = true) (h : a.home = b.home) : a = b := by
  cases a <;> cases b <;> simp_all [Op.home, Op.single]

theorem Singles.advance (hs : Singles s) (h : Advances s rank (s.dispatch rank) target) :
    Singles (s.setPhase rank target) := by
  refine hs.of_setPhase (fun _ hc => hc) rfl fun c hc hRank hOne => ?_
  have hPhase := hs.atHome c hc hOne
  rw [hRank] at hPhase
  rw [hPhase] at h
  -- only an outstanding host preparation is sent from a phase that dispatch leaves on its own
  cases hOp : c.op with
  | hostPrepare =>
    rw [hOp] at h
    cases h with
    | leaveHostPrepare hIdle =>
      simp only [inflightHas, List.any_eq_false] at hIdle
      exact absurd (by simp [Command.entry, hRank, hOp]) (hIdle c.entry (mem_outstanding.mp hc).2)
  | prepare | verify =>
    rw [hOp] at h
    cases h
  | _ =>
    rw [hOp] at hOne
    cases hOne

theorem Sendable.home (h : Sendable P s rank op) (hOp : op.single = true ∨ op = .create ∨ op = .start) :
    s.dispatch rank = op.home := by
  cases op with
  | prepare | create | hostPrepare | verify | start => exact h.2.1
  | inspect | stop | stopPrepare | stopVerify => simp [Op.single] at hOp

theorem Sendable.no_single (hs : Singles s) (h : Sendable P s rank op) (hOne : op.single = true)
    (hc : c ∈ s.outstanding) (hcSingle : c.op.single = true) (hRank : c.rank = rank) : False := by
  have hOp : c.op = op :=
    Op.home_injective hcSingle hOne ((hs.atHome c hc hcSingle).symm.trans (hRank ▸ h.home (.inl hOne)))
  have hBusy (hIdle : s.inflightHas rank op = false) : False := by
    simp only [inflightHas, List.any_eq_false] at hIdle
    exact hIdle c.entry (mem_outstanding.mp hc).2 (by simp [Command.entry, hRank, hOp])
  cases op with
  | prepare | hostPrepare | verify => exact hBusy h.2.2
  | _ => cases hOne

theorem Singles.send (hBase : Base s) (hs : Singles s) (env : Env) (pl : Option Placement)
    (h : Sendable P s rank op) : Singles (s.sendWorkload env rank pl op) := by
  obtain ⟨_, _, _, hSend, _⟩ := sendWorkload_frame env s rank pl op
  refine ⟨fun c hc hOne => ?_, fun a ha b hb haSingle hbSingle hRank => ?_⟩
  · rw [hSend]
    rcases mem_outstanding_sendWorkload hBase hc with rfl | hc
    · exact h.home (.inl hOne)
    · exact hs.atHome c hc hOne
  rcases mem_outstanding_sendWorkload hBase ha with rfl | ha <;>
    rcases mem_outstanding_sendWorkload hBase hb with rfl | hb
  · rfl
  · exact (h.no_single hs haSingle hb hbSingle hRank.symm).elim
  · exact (h.no_single hs hbSingle ha haSingle hRank).elim
  · exact hs.alone a ha b hb haSingle hbSingle hRank

/-- The phase of a rank with a single command outstanding lies between the phase a CREATE or START was sent from and
the one its acknowledgement writes only while the START of a verified workload is answered again. -/
theorem Singles.ack (hP : ¬ P.again) (hBase : Base s) (hs : Paced s) (hOut : c ∈ s.outstanding)
    (h : Acks P s c.rank cr c.op target) (hWant : s.desired = .running) :
    Singles ((s.inflightTake c.id).setPhase c.rank target) := by
  have hStops := hs.aligned.not_stops hWant hOut
  have hLe := h.order_le hP hs hOut hWant
  refine (hs.singles hWant).of_setPhase (fun x hx => (mem_outstanding_inflightTake hx).1) rfl fun x hx hRank hOne => ?_
  obtain ⟨hxOut, hxID⟩ := mem_outstanding_inflightTake hx
  have hPhase := (hs.singles hWant).atHome x hxOut hOne
  rw [hRank] at hPhase
  have hAlone (hcOne : c.op.single = true) : target = x.op.home :=
    absurd (congrArg Command.id ((hs.singles hWant).alone x hxOut c hOut hOne hcOne hRank)) hxID
  have hFrom := hs.launched hWant c (mem_outstanding.mp hOut).1 (hBase.run_eq hOut)
  have hVerified := hs.verified hWant c.rank
  rw [hPhase] at hLe hFrom hVerified
  generalize c.op = op at h hStops hAlone hFrom
  cases h with
  | prepare | hostPrepare | verify => exact hAlone rfl
  | create => cases hOp : x.op <;> simp_all [Op.home, Op.single, Phase.order]
  | startVerify | start => cases hOp : x.op <;> simp_all [Op.home, Op.single, Phase.order]
  | stopPrepare | stopVerify | stop => cases hStops
  | createStopping h | createLost h | hostPrepareStopping h | startStopping h => rw [hWant] at h; cases h

def Permits.paces (P : Permits) : Prop := ¬ P.undrained ∧ ¬ P.again

theorem Singles.effect (hP : P.paces) (hBase : Base s) (hs : Paced s) (h : Effect P s t)
    (hWant : t.desired = .running) : Singles t := by
  cases h with
  | quiet h =>
    exact (hs.singles (h.desired ▸ hWant)).of_frame (fun _ hc => h.mem_outstanding hc) h.dispatch
  | rankState | release => exact (hs.singles hWant).of_frame (fun _ hc => hc) rfl
  | hear fact hFact =>
    exact (hs.singles hWant).of_frame (fun _ hc => mem_outstanding_record hFact hc) rfl
  | forget keep => exact (hs.singles hWant).of_frame (fun _ hc => mem_outstanding_filter hc) rfl
  | reset => exact (hs.singles hWant).of_frame (fun _ hc => by cases (mem_outstanding.mp hc).2) rfl
  | advance rank hRun h => exact (hs.singles hRun).advance h
  | send env rank pl op h =>
    have hRun : s.desired = .running := (sendWorkload_frame env s rank pl op).2.2.1 ▸ hWant
    exact (hs.singles hRun).send hBase env pl h
  | ack c cr hOut hHeard h => exact Singles.ack hP.2 hBase hs hOut h hWant
  | halt rank hStop =>
    have hRun : s.desired = .running := hWant
    rw [hStop] at hRun
    cases hRun
  | stopRequested | finishStop => cases hWant
  | begin plan hBegins hStop hDrained =>
    have hNone : s.outstanding = [] := by_contra fun h => hP.1 (hDrained h)
    constructor <;> exact fun c hc => (outstanding_begin plan hNone hc).elim

theorem Paced.launched_effect (hP : ¬ P.again) (hBase : Base s) (hs : Paced s) (h : Effect P s t)
    (hWant : t.desired = .running) (hSent : Fact.sent c ∈ t.history) (hRun : c.run = t.runID)
    (hOp : c.op = .create ∨ c.op = .start) : c.op.home.order ≤ (t.dispatch c.rank).order := by
  have hForward := hs.forward hP h
  rcases h.sent hSent with hOld | ⟨hSendable, hNew⟩
  · have hSame : t.runID = s.runID := le_antisymm (hRun ▸ hBase.pastRuns c hOld) hForward.1
    obtain ⟨hRunning, hOrder⟩ := hForward.2 hSame hWant
    exact (hs.launched hRunning c hOld (hRun.trans hSame) hOp).trans (hOrder c.rank)
  obtain ⟨_, hOrder⟩ := hForward.2 (hRun.symm.trans hNew) hWant
  exact hSendable.home (.inr hOp) ▸ hOrder c.rank

theorem Paced.verified_effect (hs : Paced s) (h : Effect P s t) (hWant : t.desired = .running)
    (hPhase : t.dispatch rank = .verifying) : t.recipe.verify = true := by
  have hUpdate {k : Rank} {target : Phase} (hRun : s.desired = .running)
      (hNew : target = .verifying → s.recipe.verify = true)
      (hPhase : Function.update s.dispatch k target rank = .verifying) : s.recipe.verify = true := by
    by_cases hk : rank = k
    · rw [hk, update_self] at hPhase
      exact hNew hPhase
    · rw [update_of_ne hk] at hPhase
      exact hs.verified hRun rank hPhase
  cases h with
  | quiet h => exact h.recipe ▸ hs.verified (h.desired ▸ hWant) rank (h.dispatch ▸ hPhase)
  | rankState | hear | forget | release | reset => exact hs.verified hWant rank hPhase
  | send env k pl op =>
    obtain ⟨hRecipe, _, hSame, hSend, _⟩ := sendWorkload_frame env s k pl op
    exact hRecipe ▸ hs.verified (hSame ▸ hWant) rank (hSend ▸ hPhase)
  | advance k hRun h =>
    generalize s.dispatch k = old at h
    exact hUpdate hRun (fun hNew => by cases h <;> cases hNew) hPhase
  | ack c cr hOut hHeard h =>
    generalize c.op = op at h
    refine hUpdate hWant (fun hNew => ?_) hPhase
    cases h with
    | startVerify _ _ hVerify => exact hVerify
    | _ => cases hNew
  | halt k hStop =>
    rw [show s.desired = .running from hWant] at hStop
    cases hStop
  | stopRequested | finishStop => cases hWant
  | begin => cases hPhase

theorem Paced.answers_effect (hs : Paced s) (h : Effect P s t) (hAnswered : Fact.answered c cr ∈ t.history) :
    Fact.sent c ∈ t.history := by
  have hSubset := h.history_suffix.subset
  cases h with
  | quiet h => exact hSubset (hs.answers c cr (h.history ▸ hAnswered))
  | hear fact hFact hAnswers =>
    rcases List.mem_cons.mp hAnswered with hEq | hOld
    · exact hSubset (hAnswers c cr hEq.symm)
    · exact hSubset (hs.answers c cr hOld)
  | send env rank pl op =>
    rcases mem_history_sendWorkload hAnswered with hEq | hOld
    · cases hEq
    · exact hSubset (hs.answers c cr hOld)
  | _ => exact hs.answers c cr hAnswered

theorem Paced.effect (hP : P.paces) (hBase : Base s) (hs : Paced s) (h : Effect P s t) : Paced t where
  aligned := hs.aligned.effect hP.1 hBase h
  singles := Singles.effect hP hBase hs h
  launched hWant _ := hs.launched_effect hP.2 hBase h hWant
  verified hWant _ := hs.verified_effect h hWant
  answers _ _ := hs.answers_effect h

theorem paced_plannedRow (recipe : Recipe) (plan : PlacementSet) : Paced (plannedRow recipe plan) where
  aligned := aligned_plannedRow recipe plan
  singles _ := ⟨fun _ h => (by cases h), fun _ h => (by cases h)⟩
  launched _ _ h := by cases h
  verified _ _ h := by cases h
  answers _ _ h := by cases h

def Paces : Deployment → Deployment → Prop := Relation.ReflTransGen fun s t => ∃ P : Permits, P.paces ∧ Effect P s t

theorem Effects.paces (hP : P.paces) (h : Effects P s t) : Paces s t :=
  Relation.ReflTransGen.mono (fun _ _ hEffect => ⟨P, hP, hEffect⟩) s t h

theorem Paces.forward (h : Paces s t) (hBase : Base s) (hs : Paced s) : Base t ∧ Paced t ∧ Forward s t := by
  induction h with
  | refl => exact ⟨hBase, hs, .refl s⟩
  | tail _ hStep ih =>
    obtain ⟨P, hP, hEffect⟩ := hStep
    obtain ⟨hBase, hPaced, hForward⟩ := ih
    exact ⟨hBase.effect hP.1 hEffect, hPaced.effect hP hBase hEffect, hForward.trans (hPaced.forward hP.2 hEffect)⟩

theorem Paces.history_subset (h : Paces s t) (fact : Fact) (hFact : fact ∈ s.history) : fact ∈ t.history := by
  induction h with
  | refl => exact hFact
  | tail _ hStep ih =>
    obtain ⟨_, _, hEffect⟩ := hStep
    exact hEffect.history_suffix.subset ih

def Op.precedesStart : Op → Bool
  | .prepare | .create | .hostPrepare => true
  | _ => false

theorem Sendable.precedes (h : Sendable P s rank op) (hOp : op.precedesStart = true) :
    s.desired = .running ∧ (s.dispatch rank).order < Phase.hostPrepared.order := by
  cases op with
  | prepare | create | hostPrepare => exact ⟨h.1, h.2.1 ▸ by decide⟩
  | _ => cases hOp

theorem Paces.no_relaunch (h : Paces s t) (hBase : Base s) (hs : Paced s) {start : Command}
    (hLaunched : Fact.sent start ∈ s.history) (hStart : start.op = .start) (hStartRun : start.run = s.runID)
    (hSent : Fact.sent c ∈ t.history) (hNew : Fact.sent c ∉ s.history) (hRun : c.run = s.runID)
    (hRank : c.rank = start.rank) : c.op.precedesStart = false := by
  induction h with
  | refl => exact absurd hSent hNew
  | @tail u t hChain hStep ih =>
    obtain ⟨P, _, hEffect⟩ := hStep
    rcases hEffect.sent hSent with hOld | ⟨hSendable, hNow⟩
    · exact ih hOld
    refine Bool.eq_false_iff.mpr fun hPrecedes => ?_
    obtain ⟨_, hPaced, _⟩ := Paces.forward hChain hBase hs
    obtain ⟨hWant, hPre⟩ := hSendable.precedes hPrecedes
    have hPast := hPaced.launched hWant start (Paces.history_subset hChain _ hLaunched)
      (hStartRun.trans (hRun.symm.trans hNow)) (.inr hStart)
    rw [hRank] at hPre
    rw [hStart] at hPast
    exact absurd hPre hPast.not_gt

/-- Runs start drained, and no CREATE or START is answered again after its rank has gone on. -/
def PacesCommands (s : Deployment) (e : Event) : Prop := ¬ startsUndrained s e ∧ ¬ answersAgain s e

instance (s : Deployment) (e : Event) : Decidable (PacesCommands s e) := inferInstanceAs (Decidable (¬ _ ∧ ¬ _))

theorem paces_of_runs (hBase : Base s) (hRun : system.Runs PacesCommands s t) : Base t ∧ Paces s t := by
  induction hRun with
  | refl => exact ⟨hBase, .refl⟩
  | @step u e _ hOn hGuard ih =>
    have hChain := next_effects ih.1 hOn
    have hPaces : (permits u e).paces := hGuard
    exact ⟨ih.1.effects hGuard.1 hChain, ih.2.trans (hChain.paces hPaces)⟩

theorem AckedStart.sent (hs : Paced s) (h : AckedStart s rank) :
    ∃ c, Fact.sent c ∈ s.history ∧ c.op = .start ∧ c.run = s.runID ∧ c.rank = rank := by
  obtain ⟨fact, hFact, hAck⟩ := h
  cases fact with
  | answered c cr =>
    simp only [Fact.acksStart, Bool.and_eq_true, decide_eq_true_eq] at hAck
    exact ⟨c, hs.answers c cr hFact, hAck.1.2, hAck.1.1.1, hAck.1.1.2⟩
  | sent | reported => cases hAck

/-- From `s` to `t`, no rank of a run that should still be running moves back, and a rank whose START was
acknowledged is sent nothing that precedes a START. -/
structure Progresses (s t : Deployment) : Prop where
  phases : t.runID = s.runID → t.desired = .running → ∀ rank, (s.dispatch rank).order ≤ (t.dispatch rank).order
  commands : ∀ rank, AckedStart s rank → ∀ c, Fact.sent c ∈ t.history → Fact.sent c ∉ s.history →
    c.run = s.runID → c.rank = rank → c.op.precedesStart = false

theorem phases_never_regress {f g : DeploymentID → Deployment}
    (hReach : service.Reachable (System.familyGuard PacesCommands) f)
    (hRun : service.Runs (System.familyGuard PacesCommands) f g) (id : DeploymentID) : Progresses (f id) (g id) := by
  obtain ⟨hBase, hPaced⟩ : Base (f id) ∧ Paced (f id) :=
    invariant_of_effects Permits.paces Paced ⟨fun h => h, fun h => h⟩ (fun _ h => h.1) paced_plannedRow
      (fun _ hP _ _ hBase hs h => hs.effect hP hBase h) (hReach.component id)
  have hPaces : Paces (f id) (g id) := (paces_of_runs hBase (hRun.component id)).2
  constructor
  · intro hSame hWant
    exact ((hPaces.forward hBase hPaced).2.2.2 hSame hWant).2
  intro rank hAcked c hSent hNew hRun hRank
  obtain ⟨start, hLaunched, hStart, hStartRun, hStartRank⟩ := hAcked.sent hPaced
  exact hPaces.no_relaunch hBase hPaced hLaunched hStart hStartRun hSent hNew hRun (hRank.trans hStartRank.symm)

def startAcked (start : CommandID) : List Event :=
  [.result .calm ⟨0, 0, 0, .create⟩ accepted] ++ pass 0 ++ pass 0 ++ [.result .calm ⟨start, 0, 0, .start⟩ accepted]

def reconnected : List Event := [.converge .calm "a"] ++ pass 0

/-- A reconnect sends the CREATE again and another one comes when the rank is started; the second CREATE is not
answered. -/
theorem phases_never_regress_reconnected : let s := system.exec planned (createSent ++ reconnected ++ startAcked 2)
    s.dispatch 0 = .started ∧ s.inflightHas 0 .create = true ∧ Progresses s (system.exec s reconnected) := by
  intro s
  have hMay : system.Allowed PacesCommands planned (createSent ++ reconnected ++ startAcked 2) := by decide +kernel
  have hReach := System.Reachable.lift init_planned hMay "d"
  have hReconnect : system.Allowed PacesCommands s reconnected := by decide +kernel
  have hRun := System.Runs.lift (.of_allowed hReconnect) (update_self "d" s fun _ => planned)
  have hProgress := phases_never_regress hReach hRun "d"
  exact ⟨by decide +kernel, by decide +kernel, hProgress⟩

theorem repeated_create_ack_moves_back : ¬ ∀ (f g : DeploymentID → Deployment) (id : DeploymentID),
      service.Reachable (System.familyGuard fun _ _ => True) f →
      service.Runs (System.familyGuard fun _ _ => True) f g → Progresses (f id) (g id) := by
  intro h
  have hMay : system.Allowed (fun _ _ => True) planned (createSent ++ reconnected ++ startAcked 2) := by
    decide +kernel
  have hReach := System.Reachable.lift init_planned hMay "d"
  have hLate : system.Allowed (fun _ _ => True) (system.exec planned (createSent ++ reconnected ++ startAcked 2))
      [.result .calm ⟨1, 0, 0, .create⟩ accepted] := by decide +kernel
  have hRun := System.Runs.lift (.of_allowed hLate) (update_self "d" _ fun _ => planned)
  have hProgress := h _ _ "d" hReach hRun
  exact absurd (hProgress.phases (by decide +kernel) (by decide +kernel) 0) (by decide +kernel)

end LocalModelWorks.Deploy
