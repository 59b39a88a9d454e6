import LocalModelWorks.Deploy.Effect

/-!
# Commands that nobody accepted

A drive of a rank tries at most one command. When the rank's node refuses it, the
phase is the one in which that command is the rank's next: `Refused.awaits`.
-/

namespace LocalModelWorks.Deploy

open Deployment

variable {env : Env} {s t u : Deployment} {rank : Rank} {pl : Option Placement} {op : Op}

def Awaits (s : Deployment) (rank : Rank) : Op → Prop
  | .prepare => s.desired = .running ∧ s.dispatch rank = .preparing ∧ s.recipe.prepare = true
  | .create => s.desired = .running ∧ s.dispatch rank = .pulled
  | .hostPrepare => s.desired = .running ∧ s.dispatch rank = .hostPreparing ∧ s.recipe.hostPreparation = true
  | .start => s.desired = .running ∧ s.dispatch rank = .hostPrepared
  | .verify => s.desired = .running ∧ s.dispatch rank = .verifying ∧ s.recipe.verify = true
  | .inspect => s.desired = .running ∧ s.dispatch rank = .started
  | .stopPrepare => s.desired = .stopped ∧ s.dispatch rank = .preparing
  | .stopVerify => s.desired = .stopped ∧ s.dispatch rank = .verifying
  | .stop => s.desired = .stopped ∧
      s.dispatch rank ∈ [Phase.pulled, .created, .hostPreparing, .hostPrepared, .stopping]

structure Stands (s t : Deployment) (rank : Rank) : Prop where
  recipe : t.recipe = s.recipe
  desired : t.desired = s.desired
  runID : t.runID = s.runID
  phase : t.dispatch rank = s.dispatch rank

theorem Stands.refl (s : Deployment) (rank : Rank) : Stands s s rank := ⟨rfl, rfl, rfl, rfl⟩

theorem Stands.trans (hFirst : Stands s t rank) (hSecond : Stands t u rank) : Stands s u rank where
  recipe := hSecond.recipe.trans hFirst.recipe
  desired := hSecond.desired.trans hFirst.desired
  runID := hSecond.runID.trans hFirst.runID
  phase := hSecond.phase.trans hFirst.phase

theorem Awaits.stands (h : Awaits s rank op) (hStands : Stands s t rank) : Awaits t rank op := by
  cases op <;> simpa only [Awaits, hStands.recipe, hStands.desired, hStands.phase] using h

structure Refused (env : Env) (s : Deployment) (rank : Rank) (pl : Option Placement) (op : Op) : Prop where
  drawn : (s.dispatchReady env rank pl).nextID ≠ s.nextID
  marked : (s.dispatchReady env rank pl).inflight.head? = some ⟨s.nextID, rank, op⟩
  unheard : (s.dispatchReady env rank pl).history = s.history

def Tried (s t : Deployment) (rank : Rank) : Prop :=
  t.nextID = s.nextID ∨ ∃ op, t.inflight.head? = some ⟨s.nextID, rank, op⟩ ∧ Awaits t rank op

structure Inert (s t : Deployment) : Prop where
  recipe : t.recipe = s.recipe
  placement : t.placement = s.placement
  desired : t.desired = s.desired
  dispatch : t.dispatch = s.dispatch
  runID : t.runID = s.runID
  rankStates : t.rankStates = s.rankStates
  inflight : t.inflight = s.inflight
  gates : t.gates = s.gates
  nextID : t.nextID = s.nextID
  history : t.history = s.history

theorem Inert.refl (s : Deployment) : Inert s s := by constructor <;> rfl

theorem Inert.stands (h : Inert s t) : Stands s t rank := ⟨h.recipe, h.desired, h.runID, congrFun h.dispatch rank⟩

theorem inert_noteDispatch (s : Deployment) (d : Diag.Diagnostic) : Inert s (s.noteDispatch d) := by
  constructor <;> rfl

theorem inert_setRun (s : Deployment) (new : Runs.State) : Inert s (s.setRun new) := by
  unfold setRun
  split
  · constructor <;> rfl
  · exact .refl s

theorem inert_failDispatch (s : Deployment) (rank : Rank) (code message : String) :
    Inert s (s.failDispatch rank code message) := by
  have hRun noted (hNoted : Inert s noted) : Inert s (noted.setRun .failed).releaseIfTerminal := by
    unfold releaseIfTerminal setRun
    obtain ⟨h₁, h₂, h₃, h₄, h₅, h₆, h₇, h₈, h₉, h₁₀⟩ := hNoted
    split <;> split <;> exact ⟨h₁, h₂, h₃, h₄, h₅, h₆, h₇, h₈, h₉, h₁₀⟩
  exact hRun _ (by constructor <;> rfl)

theorem Tried.inert (h : Tried s t rank) (hInert : Inert t u) : Tried s u rank := by
  rcases h with hIdle | ⟨op, hMarked, hAwaits⟩
  · exact .inl (hInert.nextID.trans hIdle)
  · exact .inr ⟨op, hInert.inflight ▸ hMarked, hAwaits.stands hInert.stands⟩

theorem stands_sendWorkload : Stands s (s.sendWorkload env rank pl op) rank := by
  obtain ⟨hRecipe, _, hDesired, hSend, hRunID, _⟩ := sendWorkload_frame env s rank pl op
  exact ⟨hRecipe, hDesired, hRunID, congrFun hSend rank⟩

theorem tried_sendWorkload (hID : t.nextID = s.nextID) (hAwaits : Awaits t rank op) :
    Tried s (t.sendWorkload env rank pl op) rank := by
  refine .inr ⟨op, ?_, hAwaits.stands stands_sendWorkload⟩
  rw [sendWorkload_inflight, hID, List.head?_cons]

theorem tried_dispatchNext (hID : t.nextID = s.nextID) (hDesired : t.desired = .running) :
    Tried s (t.dispatchNext env rank pl) rank := by
  unfold dispatchNext
  rw [hDesired]
  exact .inl ((quiet_wake t rank pl).nextID.trans hID)

theorem tried_sendExtension (hOp : Awaits (s.enterExtension rank op) rank op) :
    Tried s (s.sendExtension env rank pl op).1 rank := by
  unfold sendExtension
  split
  · exact .inl rfl
  split
  · exact .inl rfl
  refine tried_sendWorkload ?_ hOp
  unfold enterExtension
  split
  · rfl
  · exact (inert_setRun _ _).nextID

theorem awaits_enterExtension (hDesired : s.desired = .running) (hOp : op = .prepare ∧ s.recipe.prepare = true ∨
    op = .verify ∧ s.recipe.verify = true) : Awaits (s.enterExtension rank op) rank op := by
  rcases hOp with ⟨rfl, hPrepare⟩ | ⟨rfl, hVerify⟩
  · exact ⟨hDesired, Function.update_self .., hPrepare⟩
  · have hAwaits : Awaits (s.setPhase rank .verifying) rank .verify := ⟨hDesired, Function.update_self .., hVerify⟩
    exact hAwaits.stands (inert_setRun _ _).stands

section Rules

variable {Q : Deployment → Prop} (hSame : Q s)
include hSame

@[elab_as_elim] theorem stopExtension_rule (hSent : Q ((s.inflightDrop rank [.prepare, .verify]).sendWorkload env rank pl op))
    (hInert : ∀ {t u}, Q t → Inert t u → Q u) : Q (s.stopExtension env rank pl op) := by
  unfold stopExtension
  split
  · exact hSame
  split
  · exact hSent
  · exact hInert hSent (inert_noteDispatch _ _)

@[elab_as_elim] theorem checkStopComplete_rule (hSettled : ∀ {ended}, Inert s ended →
    Q ((ended.setStopping (Diag.compact s.diagnostics)).releaseLeases.setObserved .stopped)) :
    Q s.checkStopComplete := by
  unfold checkStopComplete
  split
  · split
    · exact hSettled (.refl s)
    · exact hSettled (inert_setRun s .cancelled)
  · exact hSame

@[elab_as_elim] theorem dispatchStopped_rule (hPrepare : s.dispatch rank = .preparing → Q (s.stopExtension env rank pl .stopPrepare))
    (hVerify : s.dispatch rank = .verifying → Q (s.stopExtension env rank pl .stopVerify))
    (hSettled : s.dispatch rank = .prepared ∨ s.dispatch rank = .none → Q (s.setPhase rank .stopped).checkStopComplete)
    (hStop : s.dispatch rank ∈ [Phase.pulled, .created, .hostPreparing, .hostPrepared, .stopping] →
      Q (s.sendWorkload env rank pl .stop))
    (hStarted : s.dispatch rank = .started → Q ((s.setPhase rank .stopping).sendWorkload env rank pl .stop)) :
    Q (s.dispatchStopped env rank pl) := by
  unfold dispatchStopped
  cases hPhase : s.dispatch rank with
  | preparing => exact hPrepare hPhase
  | verifying => exact hVerify hPhase
  | prepared => exact hSettled (.inl hPhase)
  | none => exact hSettled (.inr hPhase)
  | hostPreparing =>
    dsimp only
    split
    · exact hSame
    · exact hStop (by simp [hPhase])
  | pulled | created | hostPrepared | stopping => exact hStop (by simp [hPhase])
  | started => exact hStarted hPhase
  | stopped => exact hSame

end Rules

theorem tried_stopExtension (hOp : Awaits s rank op) : Tried s (s.stopExtension env rank pl op) rank :=
  stopExtension_rule (.inl rfl) (tried_sendWorkload rfl (hOp.stands ⟨rfl, rfl, rfl, rfl⟩)) .inert

theorem tried_dispatchStopped (hDesired : s.desired = .stopped) : Tried s (s.dispatchStopped env rank pl) rank := by
  refine dispatchStopped_rule (.inl rfl) (fun hPhase => ?_) (fun hPhase => ?_) (fun _ => .inl ?_) (fun hPhase => ?_) ?_
  · exact tried_stopExtension ⟨hDesired, hPhase⟩
  · exact tried_stopExtension ⟨hDesired, hPhase⟩
  · exact checkStopComplete_rule rfl fun hEnded => hEnded.nextID
  · exact tried_sendWorkload rfl ⟨hDesired, hPhase⟩
  · exact fun _ => tried_sendWorkload rfl ⟨hDesired, by simp [setPhase]⟩

theorem tried_resumeExtension {declared : Bool} (code unavailable : String) (hDesired : s.desired = .running)
    (hOp : declared = true → op = .prepare ∧ s.recipe.prepare = true ∨ op = .verify ∧ s.recipe.verify = true) :
    Tried s (s.resumeExtension env rank pl op declared code unavailable) rank := by
  unfold resumeExtension
  split
  · exact .inl (inert_failDispatch _ _ _ _).nextID
  rename_i hDecl
  simp only [Bool.or_eq_true, Bool.not_eq_true', not_or, Bool.not_eq_false] at hDecl
  have hSent : Tried s (s.sendExtension env rank pl op).1 rank :=
    tried_sendExtension (awaits_enterExtension hDesired (hOp hDecl.2))
  split <;> rename_i hRes <;> rw [hRes] at hSent
  · exact hSent.inert (inert_noteDispatch _ _)
  · exact hSent

section

variable (hDesired : s.desired = .running)
include hDesired

theorem tried_dispatchNone : Tried s (s.dispatchNone env rank pl) rank := by
  unfold dispatchNone
  split
  · exact .inl (inert_failDispatch _ _ _ _).nextID
  split
  next hPrepare =>
    have hSent : Tried s (s.sendExtension env rank pl .prepare).1 rank :=
      tried_sendExtension (awaits_enterExtension hDesired (.inl ⟨rfl, hPrepare⟩))
    split <;> rename_i hRes <;> rw [hRes] at hSent
    · exact hSent.inert (inert_failDispatch _ _ _ _)
    · exact hSent
  · exact tried_dispatchNext rfl hDesired

theorem tried_dispatchCreated : Tried s (s.dispatchCreated env rank pl) rank := by
  unfold dispatchCreated
  split
  · exact .inl rfl
  split
  · exact .inl (inert_failDispatch _ _ _ _).nextID
  split
  next hHost =>
    have hSent : Tried s ((s.setPhase rank .hostPreparing).sendWorkload env rank pl .hostPrepare) rank :=
      tried_sendWorkload rfl ⟨hDesired, Function.update_self .., hHost⟩
    split
    · exact hSent
    · exact hSent.inert (inert_noteDispatch _ _)
  · exact tried_dispatchNext rfl hDesired

theorem tried_dispatchHostPrepared (hPhase : s.dispatch rank = .hostPrepared) :
    Tried s (s.dispatchHostPrepared env rank pl) rank := by
  unfold dispatchHostPrepared
  split
  · exact .inl (inert_failDispatch _ _ _ _).nextID
  · exact .inl rfl
  split
  · exact .inl (inert_failDispatch _ _ _ _).nextID
  · exact tried_sendWorkload rfl ⟨hDesired, hPhase⟩

theorem tried_dispatchRunning : Tried s (s.dispatchRunning env rank pl) rank := by
  unfold dispatchRunning
  split <;> rename_i hPhase
  · exact tried_dispatchNone hDesired
  · exact tried_resumeExtension _ _ hDesired fun h => .inl ⟨rfl, h⟩
  · exact tried_dispatchNext rfl hDesired
  · unfold dispatchPulled
    split
    · exact .inl rfl
    · exact tried_sendWorkload rfl ⟨hDesired, hPhase⟩
  · exact tried_dispatchCreated hDesired
  · exact tried_dispatchCreated hDesired
  · exact tried_dispatchHostPrepared hDesired hPhase
  · exact tried_sendWorkload rfl ⟨hDesired, hPhase⟩
  · exact tried_resumeExtension _ _ hDesired fun h => .inr ⟨rfl, h⟩
  · exact .inl rfl
  · exact .inl rfl

end

theorem Refused.awaits (h : Refused env s rank pl op) : Awaits (s.dispatchReady env rank pl) rank op := by
  have hTried : Tried s (s.dispatchReady env rank pl) rank := by
    unfold dispatchReady
    split <;> rename_i hDesired
    · exact tried_dispatchRunning hDesired
    · exact tried_dispatchStopped hDesired
  rcases hTried with hIdle | ⟨op', hMarked, hAwaits⟩
  · exact absurd hIdle h.drawn
  rw [h.marked] at hMarked
  cases hMarked
  exact hAwaits

end LocalModelWorks.Deploy
