import LocalModelWorks.Update.Coordinator

/-!
# What the calls of the coordinator leave alone

`Moved a s t` says everything that reading, stopping, starting and waiting for the
deployments in `a` can do to a run, and each call is shown to do no more, in a world that is
`Fair`.
-/

namespace LocalModelWorks.Update

open Recipe (Text)
open Program

def AllSaved (s : State) : Prop := ∀ id ∈ s.created, ∃ p, s.saved = some p ∧ ∃ t ∈ p.hardware, t.replacement = some id

structure Row.Consistent (row : Row) : Prop where
  stopped : row.observed = .stopped → row.desired = .stopped
  healthy : row.observed = .healthy → row.desired = .running

/-- The controller is not stopped between the creation of a replacement and its record, a replacement that was
committed is reported, rows are consistent, and no source that is still to be replaced is taken for a replacement. -/
structure Fair (input : Input) (w : World) : Prop where
  stops : ∀ s, w.stops s = true → AllSaved s
  creation : ∀ id message, w.creation ≠ .unread id message
  deployment : ∀ id row, w.deployment id = .ok row → row.Consistent
  existing : input.deployments.Pairwise fun d e =>
    e.sourceWasStopped = false → ∀ row, w.existing d ≠ .found e.source row

structure Outline where
  devices : Nat
  records : List (Text × Option Text)

def Progress.outline (p : Progress) : Outline :=
  ⟨p.installedDevices.length, p.hardware.map fun t => (t.source, t.replacement)⟩

structure Moved (a : Set Text) (s t : State) : Prop where
  rows : ∀ id, id ∉ a → t.rows id = s.rows id
  present : ∀ id, (s.rows id).isSome → (t.rows id).isSome
  created : t.created = s.created
  outline : t.progress.outline = s.progress.outline
  saved : t.saved.map Progress.outline = s.saved.map Progress.outline ∨
    t.saved.map Progress.outline = some s.progress.outline
  run : s.run.terminal = false → t.run.terminal = false
  controller : t.controller = s.controller

namespace Moved

variable {a b : Set Text} {s t u : State}

theorem refl (a : Set Text) (s : State) : Moved a s s := ⟨fun _ _ => rfl, fun _ => id, rfl, rfl, .inl rfl, id, rfl⟩

theorem trans (h : Moved a s t) (h' : Moved a t u) : Moved a s u where
  rows id hId := (h'.rows id hId).trans (h.rows id hId)
  present id hId := h'.present id (h.present id hId)
  created := h'.created.trans h.created
  outline := h'.outline.trans h.outline
  saved := by
    rcases h'.saved with hSame | hNew
    · rw [hSame]
      exact h.saved
    · right
      rw [hNew, h.outline]
  run hRun := h'.run (h.run hRun)
  controller := h'.controller.trans h.controller

theorem mono (h : Moved a s t) (hSub : a ⊆ b) : Moved b s t :=
  { h with rows := fun id hId => h.rows id fun hMem => hId (hSub hMem) }

end Moved

inductive Ends (a : Set Text) (s : State) : State → Prop
  | stopped {t : State} (h : Moved a s t) (hSaved : AllSaved t) : Ends a s { t with controller := .stopped }
  | resting {t : State} (h : Moved a s t) : Ends a s { t with controller := .resting }

theorem Ends.after {a b : Set Text} {s t u : State} (h : Ends a t u) (hMoved : Moved b s t) (hSub : a ⊆ b) :
    Ends b s u := by
  cases h with
  | stopped hMore hSaved => exact .stopped (hMoved.trans (hMore.mono hSub)) hSaved
  | resting hMore => exact .resting (hMoved.trans (hMore.mono hSub))

def FairWorld (input : Input) (env : Nat → World) : Prop := ∀ n, Fair input (env n)

def Acts {α : Type} (input : Input) (a : Set Text) (P : State → Prop) (x : Prog α) (Q : α → State → Prop) : Prop :=
  ∀ s, P s → Spec (FairWorld input) (· = s) x (fun v t => Moved a s t ∧ Q v t) (fun _ => Moved a s) (Ends a s)

section Rules

variable {α β : Type} {input : Input} {a b : Set Text} {P P' : State → Prop} {x : Prog α} {Q Q' : α → State → Prop}
  {R : β → State → Prop}

theorem Acts.from (h : Acts input a P x Q) (hSub : a ⊆ b) (s : State) :
    Spec (FairWorld input) (fun t => Moved b s t ∧ P t) x (fun v t => Moved b s t ∧ Q v t) (fun _ => Moved b s)
      (Ends b s) := by
  refine spec_of_state fun t ht => (h t ht.2).weaken (fun _ => id) ?_ ?_ ?_
  · rintro v u ⟨hMoved, hQ⟩
    exact ⟨ht.1.trans (hMoved.mono hSub), hQ⟩
  · intro _ u hMoved
    exact ht.1.trans (hMoved.mono hSub)
  · intro u hEnds
    exact hEnds.after ht.1 hSub

theorem Acts.mono (h : Acts input a P x Q) (hSub : a ⊆ b) : Acts input b P x Q := by
  intro s hs
  refine (h.from hSub s).pre ?_
  rintro _ rfl
  exact ⟨.refl b _, hs⟩

theorem Acts.weaken (h : Acts input a P' x Q') (hPre : ∀ s, P s → P' s) (hPost : ∀ v s, Q' v s → Q v s) :
    Acts input a P x Q :=
  fun s hs => (h s (hPre s hs)).post fun v t ht => ⟨ht.1, hPost v t ht.2⟩

theorem Acts.forget (h : Acts input a P x Q) : Acts input a P x fun _ _ => True :=
  h.weaken (fun _ hs => hs) fun _ _ _ => trivial

/-- What the deployments outside of `a` decide is kept. -/
theorem Acts.frame (h : Acts input a (fun _ => True) x fun _ _ => True) (hSub : a ⊆ b)
    (hP : ∀ s t, Moved a s t → P s → P t) : Acts input b P x fun _ => P := by
  intro s hs
  refine (h s trivial).weaken (fun _ => id) ?_ ?_ ?_
  · rintro v t ⟨hMoved, -⟩
    exact ⟨hMoved.mono hSub, hP s t hMoved hs⟩
  · intro _ t hMoved
    exact hMoved.mono hSub
  · intro t hEnds
    exact hEnds.after (.refl b s) hSub

theorem acts_pure {v : α} (h : ∀ s, P s → Q v s) : Acts input a P (pure v : Prog α) Q := by
  intro s hs
  refine spec_pure ?_
  rintro _ rfl
  exact ⟨.refl a _, h _ hs⟩

theorem acts_fail {e : Failure} : Acts input a P (fail e : Prog α) Q := by
  intro s _
  refine spec_fail ?_
  rintro _ rfl
  exact .refl a _

theorem acts_bind {f : α → Prog β} (hx : Acts input a P x Q) (hf : ∀ v, Acts input a (Q v) (f v) R) :
    Acts input a P (x >>= f) R :=
  fun s hs => spec_bind (hx s hs) fun v => (hf v).from subset_rfl s

theorem acts_ite {c : Prop} [Decidable c] {y : Prog α} (hThen : c → Acts input a P x Q) (hElse : ¬c → Acts input a P y Q) :
    Acts input a P (if c then x else y) Q := by
  split
  · exact hThen ‹_›
  · exact hElse ‹_›

theorem acts_state : Acts input a P (state : Prog State) fun v s => v = s ∧ P s := by
  intro s hs
  refine spec_state ?_
  rintro _ rfl
  exact ⟨.refl a _, rfl, hs⟩

theorem acts_modify {f : State → State} {Q : Unit → State → Prop} (h : ∀ s, P s → Moved a s (f s) ∧ Q () (f s)) :
    Acts input a P (modify f : Prog Unit) Q := by
  intro s hs
  refine spec_modify ?_
  rintro _ rfl
  exact h _ hs

theorem acts_attempt (h : Acts input a P x Q) :
    Acts input a P (attempt x : Prog (Except Failure α)) fun r s => ∀ v, r = .ok v → Q v s := by
  intro s hs
  refine (spec_attempt (h s hs)).post ?_
  rintro (e | v) t ht
  · exact ⟨ht, fun _ h => nomatch h⟩
  refine ⟨ht.1, ?_⟩
  rintro _ ⟨⟩
  exact ht.2

theorem acts_rest : Acts input a P (rest : Prog α) Q := by
  intro s _
  refine spec_bind (spec_modify ?_) fun _ => spec_crash fun _ => id
  rintro _ rfl
  exact .resting (.refl a _)

theorem acts_patience : Acts input a P patience fun _ => P := by
  intro s hs
  rintro _ _ _ _ rfl
  exact ⟨.refl a _, hs⟩

theorem acts_fold {step : β → α → Prog β} {I : State → Prop} (hStep : ∀ b v, Acts input a I (step b v) fun _ => I) :
    ∀ (vs : List α) (b : β), Acts input a I (fold step vs b) fun _ => I
  | [], _ => acts_pure fun _ => id
  | v :: vs, b => acts_bind (hStep b v) fun b' => acts_fold hStep vs b'

theorem call_spec {F : Failure → State → Prop} (s : State) :
    Spec (FairWorld input) (· = s) call (fun w t => Fair input w ∧ t = s) F
      fun t => t = { s with controller := .stopped } ∧ AllSaved s := by
  refine spec_bind (Q := fun w t => Fair input w ∧ t = s) (spec_ask fun env n t hFair ht => ⟨hFair n, ht⟩) fun w => ?_
  refine spec_bind (Q := fun v t => v = s ∧ Fair input w ∧ t = s) (spec_state fun t ht => ⟨ht.2, ht⟩) fun v => ?_
  refine spec_ite (fun hStops => ?_) fun _ => spec_pure fun t ht => ht.2
  refine spec_bind (spec_modify ?_) fun _ =>
    spec_crash fun _ h => h
  rintro _ ⟨rfl, hFair, rfl⟩
  exact ⟨rfl, hFair.stops _ hStops⟩

theorem acts_call : Acts input a P call fun w s => Fair input w ∧ P s := by
  intro s hs
  refine (call_spec s).weaken (fun _ h => h) ?_ (fun _ _ h => h) ?_
  · rintro w _ ⟨hFair, rfl⟩
    exact ⟨.refl a _, hFair, hs⟩
  · rintro _ ⟨rfl, hSaved⟩
    exact .stopped (.refl a s) hSaved

end Rules

def Quiet {α : Type} (input : Input) (x : Prog α) : Prop := Acts input ∅ (fun _ => True) x fun _ _ => True

section Quiet

variable {α β : Type} {input : Input} {a : Set Text} {P : State → Prop} {x : Prog α}

theorem Quiet.acts (h : Quiet input x) (hP : ∀ s t, Moved ∅ s t → P s → P t) : Acts input a P x fun _ => P :=
  Acts.frame h (Set.empty_subset a) hP

theorem Quiet.bind {f : α → Prog β} (hx : Quiet input x) (hf : ∀ v, Quiet input (f v)) : Quiet input (x >>= f) :=
  acts_bind hx hf

theorem quiet_pure (v : α) : Quiet input (pure v : Prog α) := acts_pure fun _ => id

theorem quiet_ite {c : Prop} [Decidable c] {y : Prog α} (hx : Quiet input x) (hy : Quiet input y) :
    Quiet input (if c then x else y) :=
  acts_ite (fun _ => hx) fun _ => hy

theorem quiet_call : Quiet input call := acts_call.forget

theorem quiet_state : Quiet input (state : Prog State) := acts_state.forget

theorem quiet_modify {f : State → State} (h : ∀ s, Moved ∅ s (f s)) : Quiet input (modify f : Prog Unit) :=
  acts_modify fun s _ => ⟨h s, trivial⟩

theorem moved_progress {s : State} {p : Progress} (h : p.outline = s.progress.outline) :
    Moved a s { s with progress := p } :=
  { Moved.refl a s with outline := h }

theorem moved_run {s : State} {run : Runs.State} (h : run.terminal = false) : Moved a s { s with run := run } :=
  { Moved.refl a s with run := fun _ => h }

theorem quiet_setPhase (phase : Phase) : Quiet input (setPhase phase) := quiet_modify fun _ => moved_progress rfl

theorem quiet_setUpdateTargets {source : Text} {update : Target → Target}
    (hSource : ∀ t, (update t).source = t.source := by exact fun _ => rfl)
    (hRepl : ∀ t, (update t).replacement = t.replacement := by exact fun _ => rfl) :
    Quiet input (setUpdateTargets source update) := by
  refine quiet_modify fun s => moved_progress ?_
  have hRecords : (s.progress.hardware.map fun t => if t.source = source then update t else t).map
      (fun t => (t.source, t.replacement)) = s.progress.hardware.map fun t => (t.source, t.replacement) := by
    rw [List.map_map]
    refine List.map_congr_left fun t _ => ?_
    dsimp only [Function.comp_apply]
    split
    · rw [hSource, hRepl]
    · rfl
  simp only [Progress.outline, hRecords]

theorem quiet_setDevice (index : Nat) (update : Device → Device) : Quiet input (setDevice index update) :=
  quiet_modify fun s => moved_progress (by simp [Progress.outline])

theorem quiet_persistUpdateProgress : Quiet input persistUpdateProgress := by
  refine quiet_call.bind fun w => quiet_modify fun s => ?_
  split
  · exact { Moved.refl ∅ s with saved := .inr rfl }
  · exact .refl ∅ s

theorem quiet_noteCancel (w : World) : Quiet input (noteCancel w) := by
  refine quiet_modify fun s => ?_
  split
  · exact moved_run rfl
  · exact .refl ∅ s

theorem quiet_updateCancelled : Quiet input updateCancelled :=
  quiet_call.bind fun w => (quiet_noteCancel w).bind fun _ => quiet_state.bind fun _ => quiet_pure _

theorem quiet_checkCancelled : Quiet input checkCancelled :=
  quiet_updateCancelled.bind fun _ => quiet_ite acts_fail (quiet_pure ())

theorem quiet_setState {new : Runs.State} (h : new.terminal = false) : Quiet input (setState new) := by
  refine quiet_call.bind fun w => (quiet_noteCancel w).bind fun _ => quiet_modify fun s => ?_
  split
  · exact moved_run h
  · exact .refl ∅ s

theorem quiet_setOutput : Quiet input setOutput := quiet_call.bind fun _ => quiet_pure ()

theorem quiet_waitUpdatePoll : Quiet input waitUpdatePoll :=
  quiet_call.bind fun _ => quiet_ite acts_fail (quiet_pure ())

theorem quiet_noteOffline (source : Text) : Quiet input (noteOffline source) := by
  refine quiet_call.bind fun w => quiet_state.bind fun s => quiet_ite ?_ (quiet_pure ())
  exact (quiet_setPhase _).bind fun _ => (quiet_setUpdateTargets).bind fun _ => quiet_persistUpdateProgress

theorem quiet_readBack : Quiet input readBack := quiet_call.bind fun _ => quiet_ite (quiet_pure ()) acts_fail

theorem quiet_afterStop (row : Row) : Quiet input (afterStop row) := by
  refine quiet_call.bind fun w => ?_
  split
  · split
    · exact acts_fail
    · exact quiet_ite acts_fail (quiet_pure ())
  · exact quiet_pure ()

end Quiet

section Deployment

variable {α β : Type} {input : Input} {id : Text} {x : Prog α}

def Touches {α : Type} (input : Input) (id : Text) (x : Prog α) : Prop :=
  Acts input {id} (fun _ => True) x fun _ _ => True

theorem Quiet.touches (h : Quiet input x) : Touches input id x := Acts.mono h (Set.empty_subset _)

variable {f : α → Prog β}

theorem Touches.bind (hx : Touches input id x) (hf : ∀ v, Touches input id (f v)) : Touches input id (x >>= f) :=
  acts_bind hx hf

theorem Touches.then {P : State → Prop} {R : β → State → Prop} (hx : Touches input id x)
    (hf : ∀ v, Acts input {id} (fun _ => True) (f v) R) : Acts input {id} P (x >>= f) R :=
  acts_bind (hx.weaken (fun _ _ => trivial) fun _ _ h => h) hf

theorem Touches.attempt (hx : Touches input id x) : Touches input id (attempt x : Prog (Except Failure α)) :=
  (acts_attempt hx).forget

theorem isSome_update {rows : Text → Option Row} {row : Row} {other : Text} (h : (rows other).isSome) :
    (Function.update rows id (some row) other).isSome := by
  by_cases hEq : other = id
  · subst hEq
    simp
  · rwa [Function.update_of_ne hEq]

theorem acts_see (row : Row) : Acts input {id} (fun _ => True) (see id row) fun _ s => s.rows id = some row := by
  refine acts_modify fun s _ => ⟨{ Moved.refl {id} s with rows := ?_, present := ?_ }, Function.update_self ..⟩
  · exact fun other hOther => Function.update_of_ne hOther _ _
  · exact fun _ => isSome_update

theorem touches_see (row : Row) : Touches input id (see id row) :=
  (acts_see row).forget

variable (id : Text)

theorem acts_getDeployment :
    Acts input {id} (fun _ => True) (getDeployment id) fun row s => s.rows id = some row ∧ row.Consistent := by
  refine acts_bind acts_call fun w => ?_
  intro s hFair
  cases hRow : w.deployment id with
  | error message => exact acts_fail (P := fun _ => True) s trivial
  | ok row =>
    refine acts_bind (acts_see row) (fun _ => acts_pure fun t ht => ?_) s trivial
    exact ⟨ht, hFair.1.deployment id row hRow⟩

theorem touches_getDeployment : Touches input id (getDeployment id) :=
  (acts_getDeployment id).forget

theorem touches_stop : Touches input id (stop id) := by
  refine (touches_getDeployment id).attempt.bind fun result => ?_
  cases result with
  | error failure => exact acts_fail
  | ok row =>
    refine acts_ite (fun _ => quiet_readBack.touches) fun _ => quiet_call.touches.bind fun w => ?_
    refine acts_ite (fun _ => ?_) fun _ => acts_fail
    refine (touches_see _).bind fun _ => ?_
    exact (quiet_afterStop row).touches.bind fun _ => quiet_readBack.touches

theorem touches_start : Touches input id (start id) := by
  refine (touches_getDeployment id).attempt.bind fun result => ?_
  cases result with
  | error failure => exact acts_fail
  | ok row =>
    refine acts_ite (fun _ => acts_fail) fun _ => acts_ite (fun _ => acts_fail) fun _ => ?_
    refine quiet_call.touches.bind fun w => ?_
    have hSee : Touches input id (see id (launched w.serveID)) := touches_see _
    cases hCommit : w.commit with
    | refused message => exact acts_fail
    | done => exact hSee
    | unread message => exact hSee.bind fun _ => acts_fail

end Deployment

section Forward

variable {input : Input}

theorem quiet_acquireRepositoryReplacement :
    ∀ deployments : List Deployment, Quiet input (acquireRepositoryReplacement deployments)
  | [] => quiet_pure ()
  | _ :: deployments => quiet_checkCancelled.bind fun _ => quiet_call.bind fun _ =>
      quiet_ite (quiet_acquireRepositoryReplacement deployments) acts_fail

theorem quiet_awaitOnline (nodeID : Text) : ∀ polls, Quiet input (awaitOnline nodeID polls)
  | 0 => acts_rest
  | polls + 1 => quiet_call.bind fun _ => quiet_ite (quiet_pure ()) <|
      quiet_checkCancelled.bind fun _ => quiet_waitUpdatePoll.bind fun _ => quiet_awaitOnline nodeID polls

theorem quiet_awaitPlacement (index : Nat) (device : Device) : ∀ polls, Quiet input (awaitPlacement index device polls)
  | 0 => (quiet_setDevice index _).bind fun _ => quiet_persistUpdateProgress.bind fun _ => acts_fail
  | polls + 1 => quiet_call.bind fun _ => quiet_ite (quiet_pure ()) <|
      quiet_waitUpdatePoll.bind fun _ => quiet_awaitPlacement index device polls

theorem quiet_patience : Quiet input patience := acts_patience.forget

variable (index : Nat) (device : Device)

theorem quiet_awaitDevice : Quiet input (awaitDevice index device) := by
  refine quiet_call.bind fun w => quiet_ite (quiet_pure ()) ?_
  refine (quiet_setDevice index _).bind fun _ => quiet_persistUpdateProgress.bind fun _ => ?_
  exact quiet_patience.bind fun polls => quiet_awaitOnline device.nodeID polls

theorem quiet_fetchPackage : Quiet input (fetchPackage input index device) := by
  refine quiet_ite acts_fail (quiet_call.bind fun w => (quiet_noteCancel w).bind fun _ => ?_)
  cases w.fetched with
  | none => exact quiet_patience.bind fun polls => quiet_awaitPlacement index device polls
  | some failure =>
    refine (quiet_setDevice index _).bind fun _ => quiet_persistUpdateProgress.bind fun _ => ?_
    cases failure with
    | cancelled | state | other => exact acts_fail

theorem quiet_installDevice : Quiet input (installDevice input index device) := by
  have hReady := (@quiet_setDevice input index
    fun d => { d with status := .succeeded, phase := .ready, currentStep := 2 }).bind fun _ => quiet_persistUpdateProgress
  refine quiet_checkCancelled.bind fun _ => quiet_ite (quiet_pure ()) (quiet_call.bind fun w => quiet_ite hReady ?_)
  refine (quiet_awaitDevice index device).bind fun _ => (quiet_setPhase _).bind fun _ => ?_
  refine (quiet_setDevice index _).bind fun _ => quiet_persistUpdateProgress.bind fun _ => ?_
  exact (quiet_fetchPackage index device).bind fun _ => hReady

theorem quiet_installRepositoryUpdateDevices : Quiet input (installRepositoryUpdateDevices input) := by
  refine quiet_call.bind fun artifact => quiet_ite acts_fail (quiet_call.bind fun run => ?_)
  refine quiet_ite acts_fail (quiet_ite acts_fail (quiet_state.bind fun s => ?_))
  refine acts_fold (fun _ entry => ?_) _ ()
  exact quiet_installDevice entry.2 entry.1

theorem touches_awaitSourceStopped (d : Deployment) : ∀ polls, Touches input d.source (awaitSourceStopped d polls)
  | 0 => acts_rest
  | polls + 1 => by
    refine (touches_getDeployment d.source).bind fun row => acts_ite (fun _ => ?_) fun _ => ?_
    · exact (quiet_setUpdateTargets).touches.bind fun _ => quiet_persistUpdateProgress.touches
    · refine (quiet_noteOffline d.source).touches.bind fun _ => quiet_waitUpdatePoll.touches.bind fun _ => ?_
      exact touches_awaitSourceStopped d polls

variable (d : Deployment) (row : Row)

theorem touches_stopSource : Touches input d.source (stopSource d row) := by
  refine acts_ite (fun _ => (touches_stop d.source).attempt.bind fun result => ?_) fun _ => (quiet_pure ()).touches
  cases result with
  | ok _ => exact (quiet_pure ()).touches
  | error failure =>
    cases failure with
    | cancelled | other => exact acts_fail
    | state message => exact (quiet_pure ()).touches

theorem touches_stopUpdateSource : Touches input d.source (stopUpdateSource d) := by
  refine (quiet_setUpdateTargets).touches.bind fun _ => (quiet_setPhase _).touches.bind fun _ => ?_
  refine quiet_persistUpdateProgress.touches.bind fun _ => (touches_getDeployment d.source).bind fun row => ?_
  refine (touches_stopSource d row).bind fun _ => quiet_patience.touches.bind fun polls => ?_
  exact touches_awaitSourceStopped d polls

theorem quiet_checkServeRun : Quiet input (checkServeRun row) := by
  unfold checkServeRun
  cases row.runID with
  | none => exact quiet_pure ()
  | some runID =>
    refine quiet_call.bind fun w => ?_
    split
    · exact acts_fail
    · exact acts_fail
    · exact quiet_pure ()

theorem quiet_showReplacement (source : Text) (row : Row) : Quiet input (setUpdateTargets source (showReplacement row)) := by
  refine quiet_setUpdateTargets (fun t => ?_) fun t => ?_
  all_goals
    unfold showReplacement
    split
    · rfl
    · rfl

theorem touches_awaitReplacement (d : Deployment) (id : Text) : ∀ polls, Touches input id (awaitReplacement d id polls)
  | 0 => acts_rest
  | polls + 1 => by
    refine quiet_checkCancelled.touches.bind fun _ => (touches_getDeployment id).bind fun row => ?_
    refine (quiet_showReplacement d.source row).touches.bind fun _ => quiet_state.touches.bind fun s => ?_
    refine (quiet_setPhase _).touches.bind fun _ => quiet_persistUpdateProgress.touches.bind fun _ => ?_
    refine acts_ite (fun _ => (quiet_pure ()).touches) fun _ => acts_ite (fun _ => acts_fail) fun _ => ?_
    refine (quiet_checkServeRun row).touches.bind fun _ => (quiet_noteOffline d.source).touches.bind fun _ => ?_
    exact quiet_waitUpdatePoll.touches.bind fun _ => touches_awaitReplacement d id polls

end Forward

def Down (s : State) (id : Text) : Prop := ∃ row, s.rows id = some row ∧ row.desired = .stopped

def Up (s : State) (id : Text) : Prop := ∃ row, s.rows id = some row ∧ row.desired = .running ∧ row.observed = .healthy

section Back

variable {input : Input}

theorem acts_awaitReplacementStopped (d : Deployment) (id : Text) : ∀ (polls : Nat) (row : Row),
    Acts input {id} (fun s => row.observed = .stopped → Down s id) (awaitReplacementStopped d id polls row)
      fun error s => error = none → Down s id
  | 0, _ => acts_rest
  | polls + 1, row => by
    refine acts_ite (fun hStop => acts_pure fun s hs _ => hs hStop) fun _ => ?_
    refine (quiet_setPhase _).touches.then fun _ => (quiet_setUpdateTargets).touches.then fun _ => ?_
    refine quiet_persistUpdateProgress.touches.then fun _ => quiet_waitUpdatePoll.touches.then fun _ => ?_
    refine acts_bind (acts_attempt (acts_getDeployment id)) fun result => ?_
    cases result with
    | error failure => exact acts_pure fun _ _ h => nomatch h
    | ok row =>
      refine (acts_awaitReplacementStopped d id polls row).weaken (fun s hs hStop => ?_) fun _ _ h => h
      obtain ⟨hRow, hAgree⟩ := hs row rfl
      exact ⟨row, hRow, hAgree.stopped hStop⟩

theorem touches_stopRunning (id : Text) (row : Row) : Touches input id (stopRunning id row) :=
  acts_ite (fun _ => (touches_stop id).attempt.bind fun _ => (quiet_pure ()).touches) fun _ => (quiet_pure ()).touches

theorem acts_stopRunning (id : Text) {row : Row} (hAgree : row.Consistent) :
    Acts input {id} (fun s => s.rows id = some row) (stopRunning id row)
      fun _ s => row.observed = .stopped → Down s id := by
  by_cases hRun : row.desired = .running
  · refine (touches_stopRunning id row).weaken (fun _ _ => trivial) fun _ s _ hStop => ?_
    have hWant := hAgree.stopped hStop
    rw [hRun] at hWant
    cases hWant
  have hPure : stopRunning id row = pure () := if_neg hRun
  rw [hPure]
  exact acts_pure fun s hs hStop => ⟨row, hs, hAgree.stopped hStop⟩

variable (s : State) (d : Deployment)

def replacedBy : Set Text := { id | s.progress.replacementOf d.source = some id }

theorem stopReplacement_spec (s : State) : Spec (FairWorld input) (· = s) (stopReplacement d)
      (fun error t => Moved (replacedBy s d) s t ∧ (error = none → ∀ id ∈ replacedBy s d, Down t id))
      (fun _ => Moved (replacedBy s d) s) (Ends (replacedBy s d) s) := by
  refine spec_bind (Q := fun v t => v = s ∧ t = s) (spec_state fun t ht => ⟨ht, ht⟩) fun v => ?_
  refine spec_of_state fun t ht => ?_
  obtain ⟨rfl, rfl⟩ := ht
  cases hRepl : t.progress.replacementOf d.source with
  | none =>
    refine spec_pure ?_
    rintro _ rfl
    refine ⟨.refl _ _, fun _ id hId => ?_⟩
    rw [replacedBy, hRepl] at hId
    cases hId
  | some id =>
    have hSet : replacedBy t d = {id} := by
      ext other
      rw [replacedBy, Set.mem_ofPred_eq, hRepl, Set.mem_singleton_iff, Option.some_inj]
      exact eq_comm
    rw [hSet]
    have hPost : ∀ {prog : Prog (Option Text)},
        Acts input {id} (fun _ => True) prog (fun error u => error = none → Down u id) →
        Spec (FairWorld input) (· = t) prog
          (fun error u => Moved {id} t u ∧ (error = none → ∀ other ∈ ({id} : Set _), Down u other))
          (fun _ => Moved {id} t) (Ends {id} t) := by
      intro prog hActs
      refine (hActs t trivial).post fun error u hu => ⟨hu.1, fun hError other hOther => ?_⟩
      rw [Set.mem_singleton_iff.mp hOther]
      exact hu.2 hError
    refine hPost (acts_bind (acts_attempt (acts_getDeployment id)) fun result => ?_)
    cases result with
    | error failure => exact acts_pure fun _ _ h => absurd h (Option.some_ne_none _)
    | ok row =>
      intro u hu
      obtain ⟨hRow, hAgree⟩ := hu row rfl
      refine acts_bind (acts_stopRunning id hAgree) (fun _ => acts_bind acts_patience fun polls => ?_) u hRow
      exact acts_awaitReplacementStopped d id polls row

theorem touches_awaitSourceSettled (d : Deployment) : ∀ (polls : Nat) (row : Row),
    Touches input d.source (awaitSourceSettled d polls row)
  | 0, _ => acts_rest
  | polls + 1, row => by
    refine acts_ite (fun _ => ?_) fun _ => (quiet_pure _).touches
    refine quiet_waitUpdatePoll.touches.bind fun _ => (touches_getDeployment d.source).attempt.bind fun result => ?_
    cases result with
    | error failure => exact (quiet_pure _).touches
    | ok row => exact touches_awaitSourceSettled d polls row

theorem touches_startSource (row : Row) : Touches input d.source (startSource d row) := by
  refine quiet_patience.touches.bind fun polls => (touches_awaitSourceSettled d polls row).bind fun result => ?_
  cases result with
  | error message => exact (quiet_pure _).touches
  | ok row =>
    refine acts_ite (fun _ => (touches_start d.source).attempt.bind fun result => ?_) fun _ => (quiet_pure _).touches
    cases result with
    | error | ok => exact (quiet_pure _).touches

theorem acts_awaitSourceHealthy (d : Deployment) : ∀ polls, Acts input {d.source} (fun _ => True)
    (awaitSourceHealthy d polls) fun error s => error = none → Up s d.source
  | 0 => acts_rest
  | polls + 1 => by
    refine acts_bind (acts_attempt (acts_getDeployment d.source)) fun result => ?_
    cases result with
    | error failure => exact acts_pure fun _ _ h => nomatch h
    | ok row =>
      refine acts_ite (fun hHealthy => acts_pure fun s hs _ => ?_) fun _ => ?_
      · obtain ⟨hRow, hAgree⟩ := hs row rfl
        exact ⟨row, hRow, hAgree.healthy hHealthy, hHealthy⟩
      · refine acts_ite (fun _ => acts_pure fun _ _ h => nomatch h) fun _ => ?_
        exact quiet_waitUpdatePoll.touches.then fun _ => acts_awaitSourceHealthy d polls

theorem Up.moved {s t : State} {id : Text} (h : Up s id) (hMoved : Moved ∅ s t) : Up t id := by
  rwa [Up, hMoved.rows id (Set.notMem_empty id)]

theorem acts_restoreSource :
    Acts input {d.source} (fun _ => True) (restoreSource d) fun error s => error = none → Up s d.source := by
  refine (quiet_setPhase _).touches.then fun _ => (quiet_setUpdateTargets).touches.then fun _ => ?_
  refine quiet_persistUpdateProgress.touches.then fun _ => (touches_getDeployment d.source).attempt.then fun result => ?_
  cases result with
  | error failure => exact acts_pure fun _ _ h => nomatch h
  | ok row =>
    refine (touches_startSource d row).then fun error => ?_
    cases error with
    | some message => exact (quiet_setUpdateTargets).touches.then fun _ => acts_pure fun _ _ h => nomatch h
    | none =>
      refine quiet_patience.touches.then fun polls => acts_bind (acts_awaitSourceHealthy d polls) fun error => ?_
      cases error with
      | some message =>
        refine (quiet_setUpdateTargets).touches.then fun _ => quiet_persistUpdateProgress.touches.then fun _ => ?_
        exact acts_pure fun _ _ h => nomatch h
      | none =>
        have hKeep : ∀ s t, Moved ∅ s t → Up s d.source → Up t d.source := fun _ _ hMoved hUp => hUp.moved hMoved
        intro s hs
        refine acts_bind ((quiet_setUpdateTargets).acts hKeep) (fun _ => ?_) s (hs rfl)
        exact acts_bind (quiet_persistUpdateProgress.acts hKeep) fun _ => acts_pure fun t hUp _ => hUp

theorem quiet_leaveSource : Quiet input (leaveSource d) :=
  (quiet_setUpdateTargets).bind fun _ => quiet_persistUpdateProgress.bind fun _ => quiet_pure _

theorem acts_settleSource : Acts input {d.source} (fun _ => True) (settleSource d)
    fun error s => error = none → d.sourceWasStopped = false → Up s d.source := by
  refine acts_ite (fun hStop => ?_) fun _ => ?_
  · refine (quiet_leaveSource d).touches.weaken (fun _ h => h) fun _ s _ _ hRan => ?_
    rw [hStop] at hRan
    cases hRan
  · exact (acts_restoreSource d).weaken (fun _ h => h) fun _ s hs hError _ => hs hError

end Back

end LocalModelWorks.Update
