import LocalModelWorks.Transition
import LocalModelWorks.Upstream.Record
import Mathlib.Data.List.Sort

/-!
# Installation completion (`executeUpstreamJob`)

A job installs unless the workspace records a completion for its own inputs. The record is
written after the last install command and is not taken back before the first one, so a
later attempt that is cut short leaves the completion of other inputs standing.
-/

namespace LocalModelWorks.Upstream.Installation

open Transition

variable {γ ρ τ : Type}

structure Inputs (γ : Type) where
  commands : List (List String)
  environment : List String
  configuration : γ

/-- The environment has one value for a name, so its order does not matter. -/
structure Inputs.Same (x y : Inputs γ) : Prop where
  commands : x.commands = y.commands
  environment : x.environment.Perm y.environment
  configuration : x.configuration = y.configuration

structure Digest (γ τ : Type) where
  hash : List (List String) × List String × γ → τ
  injective : Function.Injective hash

variable (digest : Digest γ τ)

def upstreamInstallationInputs (x : Inputs γ) : Option τ :=
  if x.commands = [] then none
  else some (digest.hash (x.commands, x.environment.insertionSort (· ≤ ·), x.configuration))

inductive Phase
  | check
  | install (left : Nat)
  | writeRevision
  | writeInputs
  | ready
  deriving DecidableEq

structure Job (γ ρ : Type) where
  operation : Operation
  revision : ρ
  inputs : Inputs γ
  phase : Phase

/-- The two files, and what is not in any file: the inputs of the last attempt, with the commands it had left. -/
structure State (γ ρ τ : Type) where
  installedRevision : Option ρ := none
  installedInputs : Option τ := none
  job : Option (Job γ ρ) := none
  attempt : Option (Inputs γ × Nat) := none

/-- `abort` ends a job by an error or by a kill; `running` says that an install command was under way. -/
inductive Event (γ ρ : Type)
  | submit (operation : Operation) (revision : ρ) (inputs : Inputs γ)
  | step
  | abort (running : Bool)

variable (s : State γ ρ τ) (job : Job γ ρ)

def State.goto (phase : Phase) : State γ ρ τ :=
  { s with job := some { job with phase := phase } }

def abort (running : Bool) : State γ ρ τ :=
  match running, job.phase with
  | true, .install (left + 1) => { s with job := none, attempt := some (job.inputs, left + 1) }
  | _, _ => { s with job := none }

section Execution

variable [DecidableEq ρ] [DecidableEq τ]

def check : State γ ρ τ :=
  if s.installedRevision ≠ none ∧ s.installedRevision ≠ some job.revision then { s with job := none }
  else if s.installedRevision = none ∨ s.installedInputs ≠ upstreamInstallationInputs digest job.inputs then
    s.goto job (.install job.inputs.commands.length)
  else s.goto job .ready

def advance : State γ ρ τ :=
  match job.phase with
  | .check => check digest s job
  | .install (left + 1) => { s.goto job (.install left) with attempt := some (job.inputs, left) }
  | .install 0 => s.goto job .writeRevision
  | .writeRevision => { s.goto job .writeInputs with installedRevision := some job.revision }
  | .writeInputs => { s.goto job .ready with installedInputs := upstreamInstallationInputs digest job.inputs }
  -- `Start` runs, or the observer returns.
  | .ready => { s with job := none }

def system : System (State γ ρ τ) (Event γ ρ) where
  init s := s = {}
  enabled s
    | .submit operation _ _ => s.job = none ∧ operation ≠ .stop
    | .step => s.job ≠ none
    | .abort running => ∃ job, s.job = some job ∧ (running = true → ∃ left, job.phase = .install (left + 1))
  next s e :=
    match s.job, e with
    | none, .submit operation revision inputs => { s with job := some ⟨operation, revision, inputs, .check⟩ }
    | some job, .step => advance digest s job
    | some job, .abort running => abort s job running
    | _, _ => s

end Execution

def Installed (inputs : Inputs γ) : Prop :=
  inputs.commands = [] ∨ ∃ made, s.attempt = some (made, 0) ∧ made.Same inputs

/-- The commands that are left; all of them where none was run in this job. -/
def Job.left (job : Job γ ρ) : Nat :=
  match job.phase with
  | .install left => left
  | .writeRevision | .writeInputs => 0
  | .check | .ready => job.inputs.commands.length

/-- No job that has come to run an install command ends before its inputs are recorded, unless nothing is recorded. -/
def Completes : Event γ ρ → Prop
  | .abort running => ∀ job, s.job = some job →
      running = true ∨ job.left < job.inputs.commands.length → s.installedInputs = none
  | _ => True

def Recorded : Prop :=
  ∀ t, s.installedInputs = some t →
    ∃ made, s.attempt = some (made, 0) ∧ upstreamInstallationInputs digest made = some t

structure Sound (digest : Digest γ τ) (s : State γ ρ τ) : Prop where
  bound : ∀ job, s.job = some job → job.left ≤ job.inputs.commands.length
  attempt : ∀ job, s.job = some job → job.left < job.inputs.commands.length → s.attempt = some (job.inputs, job.left)
  recorded : (∀ job, s.job = some job → job.inputs.commands.length ≤ job.left) → Recorded digest s
  ready : ∀ job, s.job = some job → job.phase = .ready → Installed s job.inputs

variable {digest : Digest γ τ} {s : State γ ρ τ} {job : Job γ ρ}

theorem same_of_inputs_eq {x y : Inputs γ} {t : τ} (hx : upstreamInstallationInputs digest x = some t)
    (hy : upstreamInstallationInputs digest y = some t) : x.Same y := by
  unfold upstreamInstallationInputs at hx hy
  rw [Option.ite_none_left_eq_some] at hx hy
  have hHash := digest.injective (Option.some.inj (hx.2.trans hy.2.symm))
  simp only [Prod.mk.injEq] at hHash
  obtain ⟨hCommands, hEnv, hConf⟩ := hHash
  refine ⟨hCommands, ?_, hConf⟩
  have hSort := List.perm_insertionSort (· ≤ ·) y.environment
  rw [← hEnv] at hSort
  exact (List.perm_insertionSort (· ≤ ·) x.environment).symm.trans hSort

theorem Inputs.Same.refl (x : Inputs γ) : x.Same x := ⟨rfl, .refl _, rfl⟩

theorem sound_none (h : Recorded digest s) (hJob : s.job = none) : Sound digest s := by
  refine ⟨fun job h => ?_, fun job h => ?_, fun _ => h, fun job h => ?_⟩ <;> rw [hJob] at h <;> cases h

theorem sound_whole (h : Recorded digest s) (hJob : s.job = some job) (hLeft : job.left = job.inputs.commands.length)
    (hReady : job.phase = .ready → Installed s job.inputs) : Sound digest s := by
  refine ⟨fun other hOther => ?_, fun other hOther hLess => ?_, fun _ => h, fun other hOther => ?_⟩ <;>
    rw [hJob] at hOther <;> cases hOther
  · exact hLeft.le
  · omega
  · exact hReady

section

variable (h : Sound digest s) (hJob : s.job = some job)
include h hJob

theorem Sound.recorded_of_left (hLeft : job.inputs.commands.length ≤ job.left) : Recorded digest s := by
  refine h.recorded fun other hOther => ?_
  rw [hJob] at hOther
  cases hOther
  exact hLeft

theorem Sound.goto {t : State γ ρ τ} {next : Job γ ρ} (hNext : t.job = some next) (hInputs : next.inputs = job.inputs)
    (hLeft : next.left = job.left) (hPhase : next.phase ≠ .ready) (hTry : t.attempt = s.attempt)
    (hRecord : t.installedInputs = s.installedInputs) :
    Sound digest t := by
  refine ⟨fun other hOther => ?_, fun other hOther => ?_, fun hAll => ?_, fun other hOther hReady => ?_⟩
  · rw [hNext] at hOther
    cases hOther
    rw [hLeft, hInputs]
    exact h.bound job hJob
  · rw [hNext] at hOther
    cases hOther
    rw [hLeft, hInputs, hTry]
    exact h.attempt job hJob
  · have hWhole := hAll next hNext
    rw [hLeft, hInputs] at hWhole
    have hKept := h.recorded_of_left hJob hWhole
    unfold Recorded at hKept ⊢
    rw [hRecord, hTry]
    exact hKept
  rw [hNext] at hOther
  cases hOther
  exact absurd hReady hPhase

theorem Sound.abort {running : Bool} (hGuard : Completes s (.abort running)) : Sound digest (abort s job running) := by
  have hNothing {t : State γ ρ τ} (hRecord : t.installedInputs = none) : Recorded digest t := fun x hx => by
    rw [hRecord] at hx
    cases hx
  unfold Installation.abort
  split
  next left hPhase => exact sound_none (hNothing (hGuard job hJob (.inl rfl))) rfl
  refine sound_none ?_ rfl
  by_cases hLeft : job.left < job.inputs.commands.length
  · exact hNothing (hGuard job hJob (.inr hLeft))
  · exact h.recorded_of_left hJob (Nat.not_lt.mp hLeft)

end

variable [DecidableEq ρ] [DecidableEq τ]

theorem sound_check (h : Recorded digest s) : Sound digest (check digest s job) := by
  unfold check
  split
  · exact sound_none h rfl
  split
  · exact sound_whole h rfl rfl nofun
  rename_i hInputs
  refine sound_whole h rfl rfl fun _ => ?_
  simp only [not_or, not_not] at hInputs
  by_cases hCommands : job.inputs.commands = []
  · exact .inl hCommands
  obtain ⟨t, hDigest⟩ : ∃ t, upstreamInstallationInputs digest job.inputs = some t := ⟨_, if_neg hCommands⟩
  obtain ⟨made, hMade, hSame⟩ := h t (hInputs.2.trans hDigest)
  exact .inr ⟨made, hMade, same_of_inputs_eq hSame hDigest⟩

theorem Sound.advance (h : Sound digest s) (hJob : s.job = some job) : Sound digest (advance digest s job) := by
  have hLeftOf phase (hPhase : job.phase = phase) : job.left = Job.left { job with phase := phase } := by
    rw [← hPhase]
  unfold Installation.advance
  split
  next hPhase => exact sound_check (h.recorded_of_left hJob (hLeftOf _ hPhase).ge)
  next left hPhase =>
    have hLeft : job.left = left + 1 := hLeftOf _ hPhase
    have hBound := h.bound job hJob
    rw [hLeft] at hBound
    refine ⟨fun other hOther => ?_, fun other hOther _ => ?_, fun hAll => ?_, fun other hOther hReady => ?_⟩
    · cases hOther
      exact (Nat.lt_of_succ_le hBound).le
    · cases hOther
      rfl
    · exact absurd (hAll _ rfl) (Nat.not_le.mpr hBound)
    · cases hOther
      cases hReady
  next hPhase => exact h.goto hJob rfl rfl (hLeftOf _ hPhase).symm nofun rfl rfl
  next hPhase => exact h.goto hJob rfl rfl (hLeftOf _ hPhase).symm nofun rfl rfl
  next hPhase =>
    have hZero : job.left = 0 := hLeftOf _ hPhase
    by_cases hCommands : job.inputs.commands = []
    · refine sound_whole (fun t hRecord => ?_) rfl rfl fun _ => .inl hCommands
      rw [show upstreamInstallationInputs digest job.inputs = none from if_pos hCommands] at hRecord
      cases hRecord
    have hTry := h.attempt job hJob (hZero ▸ List.length_pos_of_ne_nil hCommands)
    rw [hZero] at hTry
    exact sound_whole (fun t hRecord => ⟨job.inputs, hTry, hRecord⟩) rfl rfl
      fun _ => .inr ⟨job.inputs, hTry, .refl _⟩
  next hPhase => exact sound_none (h.recorded_of_left hJob (hLeftOf _ hPhase).ge) rfl

theorem sound_next (e : Event γ ρ) (h : Sound digest s) (hGuard : Completes s e) :
    Sound digest ((system digest).next s e) := by
  unfold system
  dsimp only
  split
  next hJob =>
    exact sound_whole (h.recorded fun job hSome => by rw [hJob] at hSome; cases hSome) rfl rfl nofun
  next hJob => exact h.advance hJob
  next hJob => exact h.abort hJob hGuard
  · exact h

/-- Where no attempt is cut short over the completion of other inputs, a job that comes to its `Start` command
finds its own inputs installed. -/
theorem start_finds_installed (digest : Digest γ τ) (s : State γ ρ τ) (hReach : (system digest).Reachable Completes s)
    (job : Job γ ρ) (hJob : s.job = some job) (hReady : job.phase = .ready) :
    Installed s job.inputs := by
  refine (hReach.invariant ?_ fun _ e h _ hGuard => sound_next e h hGuard).ready job hJob hReady
  rintro _ rfl
  exact sound_none (fun t h => by cases h) rfl

def plain : Digest Unit (List (List String) × List String × Unit) := ⟨id, Function.injective_id⟩

def modelled (model : String) : Inputs Unit := ⟨[["make", "image"]], ["MODEL=" ++ model], ()⟩

def installA : List (Event Unit Unit) := .submit .start () (modelled "a") :: List.replicate 5 .step

theorem start_finds_installed_first : Installed ((system plain).exec {} installA) (modelled "a") :=
  start_finds_installed plain _ (.of_allowed rfl (by
    simp [installA, System.Allowed, system, Completes, advance, check, State.goto, modelled]))
    ⟨.start, (), modelled "a", .ready⟩ rfl rfl

/-- The install command for the inputs b fails, and a is started again without an installation. -/
theorem start_over_failed_installation : ∃ s : State Unit Unit _, (system plain).Reachable (fun _ _ => True) s ∧
    s.job = some ⟨.start, (), modelled "a", .ready⟩ ∧ s.attempt = some (modelled "b", 1) := by
  refine ⟨(system plain).exec {} (installA ++ [.step, .submit .start () (modelled "b"), .step, .abort true,
    .submit .start () (modelled "a"), .step]), .of_allowed rfl ?_, rfl, rfl⟩
  simp [installA, System.Allowed, system, advance, abort, check, State.goto, modelled,
    upstreamInstallationInputs, plain]

end LocalModelWorks.Upstream.Installation
