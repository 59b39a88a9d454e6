import LocalModelWorks.Transition
import LocalModelWorks.Runs.State

/-!
# A job's completion against its cancellation

The goroutine that `start` spawns for a job and one `Registry.Cancel` call on its run, each
cut into its atomic steps: reads and writes of the ledger row, the lease release, and the
signal on the executor's context.
-/

namespace LocalModelWorks.Jobs

open Transition Runs

inductive Return
  | output (accepted : Bool)
  | error
  | contextError
  deriving DecidableEq

inductive Job
  | submitted
  | loadSecrets
  | readRunning
  | writeRunning
  | executing
  | failing
  | readVerifying (accepted : Bool)
  | writeVerifying (accepted : Bool)
  | finish (target : State)
  | release (target : State)
  | readComplete (target : State)
  | writeComplete (target : State)
  | completeRelease
  | returned
  deriving DecidableEq

inductive Cancel
  | signal
  | check
  | read
  | write
  | returned
  deriving DecidableEq

structure Race where
  state : State
  leases : Bool
  ctxDone : Bool
  job : Job
  cancel : Cancel
  deriving DecidableEq

variable (s : Race)

def Race.live : Bool := s.job != .submitted && s.job != .returned

variable (accepted : Bool)

def verdict : State := if accepted then .succeeded else .failed

inductive Event
  | secrets (ok : Bool)
  | executor (ret : Return)
  | job
  | cancel

def Race.stepJob : Race :=
  match s.job with
  | .submitted => { s with job := .loadSecrets }
  | .readRunning => { s with job := if canTransition s.state .running then .writeRunning else .executing }
  | .writeRunning => { s with state := .running, job := .executing }
  | .failing => { s with job := .finish (if s.ctxDone then .cancelled else .failed) }
  | .readVerifying accepted =>
    { s with job := if canTransition s.state .verifying then .writeVerifying accepted else .finish (verdict accepted) }
  | .writeVerifying accepted => { s with state := .verifying, job := .finish (verdict accepted) }
  | .finish target =>
    { s with job := .release (if s.state = .cancelling ∧ target.terminal = false then .cancelled else target) }
  | .release target => { s with leases := false, job := .readComplete target }
  | .readComplete target =>
    { s with job := if canTransition s.state target then .writeComplete target else .returned }
  | .writeComplete target => { s with state := target, job := .completeRelease }
  | .completeRelease => { s with leases := false, job := .returned }
  | .loadSecrets | .executing | .returned => s

def Race.stepCancel : Race :=
  match s.cancel with
  | .signal => { s with ctxDone := s.ctxDone || s.live, cancel := .check }
  | .check => { s with cancel := if s.state.terminal then .returned else .read }
  | .read => { s with cancel := if canTransition s.state .cancelling then .write else .returned }
  | .write => { s with state := .cancelling, cancel := .returned }
  | .returned => s

def Race.next : Event → Race
  | .secrets ok => { s with job := if ok then .readRunning else .release .failed }
  | .executor (.output accepted) => { s with job := .readVerifying accepted }
  | .executor _ => { s with job := .failing }
  | .job => s.stepJob
  | .cancel => s.stepCancel

def system : System Race Event where
  init s := s.state = .queued ∧ s.ctxDone = false ∧ s.job = .submitted ∧ s.cancel = .signal
  enabled s
    | .secrets _ => s.job = .loadSecrets
    | .executor ret => s.job = .executing ∧ (ret = .contextError → s.ctxDone = true)
    | .job | .cancel => True
  next := Race.next

/-- `Complete` reads a state with an edge to its target, and `Cancel` writes over a row that has
not ended. -/
def Lands : Event → Prop
  | .job => ∀ target, s.job = .readComplete target → canTransition s.state target = true
  | .cancel => s.cancel = .write → s.state.terminal = false
  | _ => True

def Job.closed : Job → Bool
  | .completeRelease | .returned => true
  | _ => false

def Job.released : Job → Bool
  | .readComplete _ | .writeComplete _ | .completeRelease | .returned => true
  | _ => false

def Job.target? : Job → Option State
  | .finish target | .release target | .readComplete target | .writeComplete target => some target
  | _ => none

structure Coherent (s : Race) : Prop where
  open_of_not_closed : s.job.closed = false → s.state.terminal = false
  released : s.job.released = true → s.leases = false
  target : ∀ target, s.job.target? = some target → target.terminal = true

theorem verdict_terminal : (verdict accepted).terminal = true := by
  cases accepted <;> rfl

variable {s s₀ : Race} {e : Event}

section

variable (hs : Coherent s) (hOpen : s.job.closed = false)
include hs hOpen

theorem Coherent.goto (j : Job) (hFree : j.released = true → s.leases = false)
    (hTarget : ∀ target, j.target? = some target → target.terminal = true) : Coherent { s with job := j } :=
  ⟨fun _ => hs.open_of_not_closed hOpen, hFree, hTarget⟩

theorem Coherent.goto_running (j : Job) (hFree : j.released = false) (hTarget : j.target? = none) :
    Coherent { s with job := j } :=
  hs.goto hOpen j (fun h => by rw [hFree] at h; cases h) (fun _ h => by rw [hTarget] at h; cases h)

theorem Coherent.goto_finish {target : State} (hEnd : target.terminal = true) :
    Coherent { s with job := .finish target } :=
  hs.goto hOpen _ nofun (fun _ h => by cases h; exact hEnd)

end

theorem Coherent.stepJob (hs : Coherent s) : Coherent s.stepJob := by
  unfold Race.stepJob
  cases hJob : s.job with
  | submitted => exact hs.goto_running (by rw [hJob]; rfl) _ rfl rfl
  | loadSecrets | executing | returned => exact hs
  | readRunning =>
    dsimp only
    split <;> exact hs.goto_running (by rw [hJob]; rfl) _ rfl rfl
  | writeRunning => exact ⟨fun _ => rfl, nofun, fun _ h => (by cases h)⟩
  | failing =>
    refine hs.goto_finish (by rw [hJob]; rfl) ?_
    split <;> rfl
  | readVerifying accepted =>
    dsimp only
    split
    · exact hs.goto_running (by rw [hJob]; rfl) _ rfl rfl
    · exact hs.goto_finish (by rw [hJob]; rfl) (verdict_terminal accepted)
  | writeVerifying accepted =>
    exact ⟨fun _ => rfl, nofun, fun _ h => (by cases h; exact verdict_terminal accepted)⟩
  | finish target =>
    have hEnd : target.terminal = true := hs.target target (by rw [hJob]; rfl)
    refine hs.goto (by rw [hJob]; rfl) _ nofun fun t ht => ?_
    simp only [hEnd, Bool.true_eq_false, and_false] at ht
    cases ht
    exact hEnd
  | release target =>
    exact ⟨fun _ => hs.open_of_not_closed (by rw [hJob]; rfl), fun _ => rfl,
      fun _ h => (by cases h; exact hs.target target (by rw [hJob]; rfl))⟩
  | readComplete target =>
    have hLeases : s.leases = false := hs.released (by rw [hJob]; rfl)
    refine hs.goto (by rw [hJob]; rfl) _ (fun _ => hLeases) fun t ht => ?_
    split at ht
    · cases ht
      exact hs.target target (by rw [hJob]; rfl)
    · cases ht
  | writeComplete target =>
    exact ⟨nofun, fun _ => hs.released (by rw [hJob]; rfl), fun _ h => (by cases h)⟩
  | completeRelease => exact ⟨nofun, fun _ => rfl, fun _ h => (by cases h)⟩

theorem Race.stepCancel_job (s : Race) : s.stepCancel.job = s.job := by
  unfold Race.stepCancel
  split <;> rfl

theorem Race.stepCancel_leases (s : Race) : s.stepCancel.leases = s.leases := by
  unfold Race.stepCancel
  split <;> rfl

theorem Race.stepCancel_state (s : Race) :
    s.stepCancel.state = s.state ∨ (s.cancel = .write ∧ s.stepCancel.state = .cancelling) := by
  unfold Race.stepCancel
  split <;> simp_all

theorem Coherent.stepCancel (hs : Coherent s) : Coherent s.stepCancel := by
  refine ⟨fun hOpen => ?_, ?_, ?_⟩
  · rcases s.stepCancel_state with hState | ⟨_, hState⟩ <;> rw [hState]
    · exact hs.open_of_not_closed (s.stepCancel_job ▸ hOpen)
    · rfl
  · rw [s.stepCancel_job, s.stepCancel_leases]
    exact hs.released
  · rw [s.stepCancel_job]
    exact hs.target

theorem Coherent.next (hs : Coherent s) (hOn : system.enabled s e) : Coherent (s.next e) := by
  cases e with
  | secrets ok =>
    have hJob : s.job = .loadSecrets := hOn
    refine hs.goto (by rw [hJob]; rfl) _ (fun h => ?_) fun t ht => ?_
    · cases ok <;> cases h
    · cases ok <;> cases ht
      rfl
  | executor ret =>
    have hJob : s.job = .executing := hOn.1
    cases ret <;> exact hs.goto_running (by rw [hJob]; rfl) _ rfl rfl
  | job => exact hs.stepJob
  | cancel => exact hs.stepCancel

theorem coherent_of_runs {guard : Race → Event → Prop} (hInit : system.init s₀) (hRun : system.Runs guard s₀ s) :
    Coherent s := by
  obtain ⟨hState, _, hJob, _⟩ := hInit
  refine hRun.preserves (fun _ _ hs hOn _ => hs.next hOn) ⟨fun _ => ?_, ?_, ?_⟩
  · rw [hState]
    rfl
  · rw [hJob]
    intro h
    cases h
  rw [hJob]
  intro _ h
  cases h

theorem Race.stepJob_closed (hOpen : s.job.closed = false) (hClosed : s.stepJob.job.closed = true) :
    (∃ target, s.job = .writeComplete target ∧ s.stepJob.state = target) ∨
      ∃ target, s.job = .readComplete target ∧ canTransition s.state target = false ∧ s.stepJob.state = s.state := by
  cases hJob : s.job with
  | writeComplete target => exact .inl ⟨target, rfl, by simp only [Race.stepJob, hJob]⟩
  | readComplete target =>
    cases hEdge : canTransition s.state target with
    | true => simp [Race.stepJob, hJob, hEdge, Job.closed] at hClosed
    | false => exact .inr ⟨target, rfl, hEdge, by simp only [Race.stepJob, hJob]⟩
  | readRunning | readVerifying accepted =>
    simp only [Race.stepJob, hJob] at hClosed
    split at hClosed <;> cases hClosed
  | _ => simp [Race.stepJob, hJob, Job.closed] at hOpen hClosed

theorem closed_next (hOpen : s.job.closed = false) (hClosed : (s.next e).job.closed = true) :
    e = .job ∧ ((∃ target, s.job = .writeComplete target ∧ (s.next e).state = target) ∨
      ∃ target, s.job = .readComplete target ∧ canTransition s.state target = false ∧ (s.next e).state = s.state) := by
  cases e with
  | secrets ok => cases ok <;> cases hClosed
  | executor ret => cases ret <;> cases hClosed
  | cancel =>
    rw [Race.next, s.stepCancel_job, hOpen] at hClosed
    cases hClosed
  | job => exact ⟨rfl, Race.stepJob_closed hOpen hClosed⟩

theorem state_next_of_closed (hOn : system.enabled s e) (hClosed : s.job.closed = true) : (s.next e).job.closed = true ∧
      ((s.next e).state = s.state ∨ (e = .cancel ∧ s.cancel = .write ∧ (s.next e).state = .cancelling)) := by
  cases e with
  | secrets ok =>
    rw [show s.job = .loadSecrets from hOn] at hClosed
    cases hClosed
  | executor ret =>
    rw [hOn.1] at hClosed
    cases hClosed
  | cancel =>
    refine ⟨(congrArg Job.closed s.stepCancel_job).trans hClosed, ?_⟩
    rcases s.stepCancel_state with hState | ⟨hWrite, hState⟩
    · exact .inl hState
    · exact .inr ⟨rfl, hWrite, hState⟩
  | job =>
    simp only [Race.next, Race.stepJob]
    cases hJob : s.job with
    | completeRelease => exact ⟨rfl, .inl rfl⟩
    | returned => exact ⟨(congrArg Job.closed hJob).trans rfl, .inl rfl⟩
    | _ =>
      rw [hJob] at hClosed
      cases hClosed

theorem ended_of_lands (hInit : system.init s₀) (hRun : system.Runs Lands s₀ s) (hClosed : s.job.closed = true) :
    s.state.terminal = true := by
  induction hRun with
  | refl =>
    rw [hInit.2.2.1] at hClosed
    cases hClosed
  | @step t e hRun hOn hGuard ih =>
    have ht := coherent_of_runs hInit hRun
    cases hOld : t.job.closed with
    | false =>
      obtain ⟨rfl, ⟨target, hJob, hState⟩ | ⟨target, hJob, hEdge, _⟩⟩ := closed_next hOld hClosed
      · exact hState ▸ ht.target target (by rw [hJob]; rfl)
      · rw [hGuard target hJob] at hEdge
        cases hEdge
    | true =>
      obtain ⟨_, hState | ⟨rfl, hWrite, _⟩⟩ := state_next_of_closed hOn hOld
      · exact hState ▸ ih hOld
      · rw [hGuard hWrite] at ih
        cases ih hOld

theorem lands_or_lost (hInit : system.init s₀) (hRun : system.Runs (fun _ _ => True) s₀ s) :
    system.Runs Lands s₀ s ∨ (s.job.closed = true ∧ s.state.terminal = false) := by
  induction hRun with
  | refl => exact .inl .refl
  | @step t e hRun hOn _ ih =>
    rcases ih with ih | ⟨hClosed, hState⟩
    · by_cases hGuard : Lands t e
      · exact .inl (.step e ih hOn hGuard)
      right
      cases e with
      | secrets | executor => exact absurd trivial hGuard
      | job =>
        obtain ⟨target, hRest⟩ := not_forall.mp hGuard
        obtain ⟨hJob, hEdge⟩ := Classical.not_imp.mp hRest
        have hOpen := (coherent_of_runs hInit hRun).open_of_not_closed (by rw [hJob]; rfl)
        simpa [system, Race.next, Race.stepJob, hJob, hEdge, Job.closed] using hOpen
      | cancel =>
        obtain ⟨hWrite, hEnded⟩ := Classical.not_imp.mp hGuard
        have hClosed : t.job.closed = true :=
          by_contra fun h => hEnded ((coherent_of_runs hInit hRun).open_of_not_closed (by simpa using h))
        refine ⟨(congrArg Job.closed t.stepCancel_job).trans hClosed, ?_⟩
        simp [system, Race.next, Race.stepCancel, hWrite, State.terminal]
    obtain ⟨hStays, hSame | ⟨_, _, hCancelling⟩⟩ := state_next_of_closed hOn hClosed
    · exact .inr ⟨hStays, hSame ▸ hState⟩
    · exact .inr ⟨hStays, hCancelling ▸ rfl⟩

/-- When the goroutine is through, with the `Cancel` call finished or still under way, the run has
ended with its leases released exactly when every step so far landed. -/
theorem job_ends_iff_steps_land {s₀ s : Race} (hInit : system.init s₀)
    (hRun : system.Runs (fun _ _ => True) s₀ s) (hJob : s.job = .returned) :
    (s.state.terminal = true ∧ s.leases = false) ↔ system.Runs Lands s₀ s := by
  constructor
  · rintro ⟨hEnd, _⟩
    rcases lands_or_lost hInit hRun with hLands | ⟨_, hState⟩
    · exact hLands
    · rw [hEnd] at hState
      cases hState
  · intro hLands
    exact ⟨ended_of_lands hInit hLands (by rw [hJob]; rfl), (coherent_of_runs hInit hRun).released (by rw [hJob]; rfl)⟩

def submittedJob : Race := ⟨.queued, true, false, .submitted, .signal⟩

def startJob : List Event := [.job, .secrets true, .job, .job]

def stepTimes (n : Nat) (e : Event) : List Event := List.replicate n e

def cancelledJob : List Event := startJob ++ stepTimes 4 .cancel ++ [.executor .contextError] ++ stepTimes 6 .job

theorem job_ends_iff_steps_land_cancelled : (system.exec submittedJob cancelledJob).state = .cancelled ∧
    system.Runs Lands submittedJob (system.exec submittedJob cancelledJob) := by
  have hMay : system.Allowed (fun _ _ => True) submittedJob cancelledJob := by
    simp [System.Allowed, system, cancelledJob, startJob, stepTimes, submittedJob, Race.next, Race.stepJob,
      Race.stepCancel, canTransition, transitions, State.terminal, Race.live]
  exact ⟨by decide, (job_ends_iff_steps_land ⟨rfl, rfl, rfl, rfl⟩ (.of_allowed hMay) (by decide)).mp (by decide)⟩

def outrunCancel : List Event := startJob ++ stepTimes 4 .cancel ++ [.executor (.output true)] ++ stepTimes 5 .job

theorem cancelled_success_never_ends :
    ¬ ∀ s₀ s, system.init s₀ → system.Runs (fun _ _ => True) s₀ s → s.job = .returned → s.cancel = .returned →
      s.state.terminal = true ∧ s.leases = false := by
  intro h
  have hMay : system.Allowed (fun _ _ => True) submittedJob outrunCancel := by
    simp [System.Allowed, system, outrunCancel, startJob, stepTimes, submittedJob, Race.next, Race.stepJob,
      Race.stepCancel, canTransition, transitions, State.terminal]
  have hEnds := h submittedJob _ ⟨rfl, rfl, rfl, rfl⟩ (.of_allowed hMay) (by decide) (by decide)
  exact absurd hEnds.1 (by decide)

end LocalModelWorks.Jobs
