import LocalModelWorks.Deploy.Handlers

/-!
# Agent sessions of one node (`agent.go`, `nodes.go`)

The registry holds one session per node.
-/

namespace LocalModelWorks.Server.Sessions

open Transition

inductive Status
  | pending
  | online
  | offline
  deriving DecidableEq

inductive Marking
  | idle
  | read
  | write
  | deployments
  deriving DecidableEq

inductive Stage
  | connected (status : Status)
  | registered (status : Status)
  | serving
  | beatRead
  | beatWrite
  | closing
  | checking
  | tearing (m : Marking)
  | ended
  deriving DecidableEq

structure Session where
  stage : Stage
  lastHB : Nat
  watching : Bool
  watchdog : Marking
  deriving DecidableEq

structure State where
  now : Nat
  status : Status
  registry : Option Nat
  sessions : List Session
  deployments : List Deploy.Deployment

structure Config where
  nodeID : Deploy.NodeID
  heartbeatTimeout : Nat

structure Answer where
  ok : Bool
  env : Deploy.Env

inductive Step
  | connect
  | run (i : Nat) (a : Answer)
  | beat (i : Nat)
  | hangUp (i : Nat)
  | tick (i : Nat)
  | watch (i : Nat) (a : Answer)
  | retire (i : Nat)
  | approve
  | wait (elapsed : Nat)
  | deploy (deployments : List Deploy.Deployment)

variable (cfg : Config)

section

variable (s : State)

def State.mark (a : Answer) : Marking → State × Marking
  | .idle => (s, .idle)
  | .read => if a.ok ∧ s.status = .online then (s, .write) else (s, .idle)
  | .write => if a.ok then ({ s with status := .offline }, .deployments) else (s, .idle)
  | .deployments =>
    if a.ok then
      ({ s with deployments := s.deployments.map fun d => d.markNodeOffline a.env cfg.nodeID }, .idle)
    else (s, .idle)

variable (i : Nat) (x : Session)

def State.put : State := { s with sessions := s.sessions.set i x }

def State.advance (a : Answer) : State :=
  match x.stage with
  | .connected status => { s.put i { x with stage := .registered status, lastHB := s.now } with registry := some i }
  | .registered .pending => s.put i { x with stage := .serving, lastHB := s.now, watching := true }
  | .registered _ =>
    if a.ok then { s.put i { x with stage := .serving, lastHB := s.now, watching := true } with status := .online }
    else s.put i { x with stage := .closing }
  | .serving => s
  | .beatRead =>
    if a.ok ∧ s.status ≠ .pending then s.put i { x with stage := .beatWrite } else s.put i { x with stage := .serving }
  | .beatWrite =>
    if a.ok then { s.put i { x with stage := .serving } with status := .online } else s.put i { x with stage := .serving }
  | .closing =>
    { s.put i { x with stage := .checking } with registry := if s.registry = some i then none else s.registry }
  | .checking => s.put i { x with stage := if s.registry.isSome then .ended else .tearing .read }
  | .tearing m =>
    let (t, m') := s.mark cfg a m
    t.put i { x with stage := if m' = .idle then .ended else .tearing m' }
  | .ended => s

def State.guardStep (a : Answer) : State :=
  let (t, m') := s.mark cfg a x.watchdog
  t.put i { x with watchdog := m' }

def State.update (f : Session → State) : State :=
  match s.sessions[i]? with
  | none => s
  | some x => f x

def State.next : Step → State
  | .connect => { s with sessions := s.sessions ++ [⟨.connected s.status, s.now, false, .idle⟩] }
  | .run i a => s.update i fun x => s.advance cfg i x a
  | .beat i => s.update i fun x => s.put i { x with stage := .beatRead, lastHB := s.now }
  | .hangUp i => s.update i fun x => s.put i { x with stage := .closing }
  | .tick i => s.update i fun x => s.put i { x with watchdog := .read }
  | .watch i a => s.update i fun x => s.guardStep cfg i x a
  | .retire i => s.update i fun x => s.put i { x with watching := false }
  | .approve => if s.status = .pending then { s with status := .online } else s
  | .wait elapsed => { s with now := s.now + elapsed }
  | .deploy deployments => { s with deployments := deployments }

def Stage.stopped : Stage → Bool
  | .closing | .checking | .tearing _ | .ended => true
  | .connected _ | .registered _ | .serving | .beatRead | .beatWrite => false

def Session.idleFor (now : Nat) : Nat := now - x.lastHB

def State.enabled : Step → Bool
  | .connect | .approve | .wait _ | .deploy _ => true
  | .run i _ => (s.sessions[i]?).any fun x => x.stage ≠ .serving && x.stage ≠ .ended
  | .beat i => (s.sessions[i]?).any fun x => x.stage = .serving
  | .hangUp i => (s.sessions[i]?).any fun x => x.stage = .serving
  | .tick i => (s.sessions[i]?).any fun x =>
      x.watching && x.watchdog = .idle && cfg.heartbeatTimeout < x.idleFor s.now
  | .watch i _ => (s.sessions[i]?).any fun x => x.watchdog ≠ .idle
  | .retire i => (s.sessions[i]?).any fun x => x.watching && x.stage.stopped && x.watchdog = .idle

def system : System State Step where
  init s := s.registry = none ∧ s.sessions = []
  enabled s st := s.enabled cfg st = true
  next := State.next cfg

def Stage.registers : Stage → Bool
  | .connected _ => true
  | .registered _ | .serving | .beatRead | .beatWrite | .closing | .checking | .tearing _ | .ended => false

def Stage.tears : Stage → Bool
  | .tearing _ => true
  | .connected _ | .registered _ | .serving | .beatRead | .beatWrite | .closing | .checking | .ended => false

def Session.marks : Bool := x.watchdog ≠ .idle || x.stage.tears

end

theorem Session.marks_eq_false {x : Session} : x.marks = false ↔ x.watchdog = .idle ∧ x.stage.tears = false := by
  simp [marks]

variable {cfg} {s : State} {i : Nat} {x y : Session} {a : Answer}

theorem mark_frame (cfg : Config) (s : State) (a : Answer) (m : Marking) :
    (s.mark cfg a m).1.registry = s.registry ∧ (s.mark cfg a m).1.sessions = s.sessions := by
  unfold State.mark
  split
  · exact ⟨rfl, rfl⟩
  · split <;> exact ⟨rfl, rfl⟩
  · split <;> exact ⟨rfl, rfl⟩
  · split <;> exact ⟨rfl, rfl⟩

structure Quiet (s : State) : Prop where
  calm : ∀ {n j : Nat} {y : Session}, s.registry = some n → j ≠ n → s.sessions[j]? = some y → y.marks = false

/-- No watchdog expires for a session while another one is registered, and no session registers while another one is
inside `markOffline`. -/
def Orderly (s : State) : Step → Prop
  | .tick i => ∀ n ∈ s.registry, n = i
  | .run i _ => (s.sessions[i]?).any (fun x => x.stage.registers) = true → ∀ y ∈ s.sessions, y.marks = false
  | .connect | .beat _ | .hangUp _ | .watch _ _ | .retire _ | .approve | .wait _ | .deploy _ => True

theorem Quiet.put {t : State} (h : Quiet s) (hReg : t.registry = s.registry) (hSessions : t.sessions = s.sessions)
    (hMarks : ∀ n, s.registry = some n → i ≠ n → x.marks = false) : Quiet (t.put i x) where
  calm := by
    intro n j y hn hj hy
    change t.registry = some n at hn
    rw [hReg] at hn
    change (t.sessions.set i x)[j]? = some y at hy
    rw [hSessions, List.getElem?_set] at hy
    split at hy
    · next hij =>
      split at hy
      · rw [← Option.some.inj hy]
        exact hMarks n hn (hij ▸ hj)
      · cases hy
    · exact h.calm hn hj hy

theorem Quiet.of_eq {t : State} (h : Quiet s) (hReg : t.registry = s.registry) (hSessions : t.sessions = s.sessions) :
    Quiet t :=
  ⟨fun hn hj hy => h.calm (hReg ▸ hn) hj (hSessions ▸ hy)⟩

theorem Quiet.unregistered (hNone : s.registry = none) : Quiet s := ⟨fun hn => absurd (hNone.symm.trans hn) (by simp)⟩

theorem Quiet.move {t : State} (h : Quiet s) (hSess : s.sessions[i]? = some x) (hReg : t.registry = s.registry)
    (hSessions : t.sessions = s.sessions) (y : Session) (hMarks : x.marks = false → y.marks = false) : Quiet (t.put i y) :=
  h.put hReg hSessions fun _ hn hi => hMarks (h.calm hn hi hSess)

theorem Quiet.moved {t : State} {stage : Stage} {lastHB : Nat} {watching : Bool} (h : Quiet s)
    (hSess : s.sessions[i]? = some x) (hReg : t.registry = s.registry) (hSessions : t.sessions = s.sessions)
    (hStage : stage.tears = false) : Quiet (t.put i ⟨stage, lastHB, watching, x.watchdog⟩) :=
  h.move hSess hReg hSessions _ fun hMarks =>
    Session.marks_eq_false.mpr ⟨(Session.marks_eq_false.mp hMarks).1, hStage⟩

theorem Quiet.advance (h : Quiet s) (hSess : s.sessions[i]? = some x) (hGuard : Orderly s (.run i a)) :
    Quiet (s.advance cfg i x a) := by
  unfold State.advance
  split
  · next status hStage =>
    refine ⟨fun {n j y} hn hj hy => ?_⟩
    obtain rfl : i = n := Option.some.inj hn
    change (s.sessions.set i _)[j]? = some y at hy
    rw [List.getElem?_set_ne (Ne.symm hj)] at hy
    exact hGuard (by simp [hSess, hStage, Stage.registers]) y (List.mem_of_getElem? hy)
  · exact h.moved hSess rfl rfl rfl
  · split
    · exact (h.moved hSess rfl rfl (rfl : Stage.serving.tears = false)).of_eq rfl rfl
    · exact h.moved hSess rfl rfl rfl
  · exact h
  · split
    · exact h.moved hSess rfl rfl rfl
    · exact h.moved hSess rfl rfl rfl
  · split
    · exact (h.moved hSess rfl rfl (rfl : Stage.serving.tears = false)).of_eq rfl rfl
    · exact h.moved hSess rfl rfl rfl
  · by_cases hOwn : s.registry = some i
    · exact Quiet.unregistered (by simp [hOwn])
    · refine (h.moved hSess rfl rfl (rfl : Stage.checking.tears = false)).of_eq ?_ rfl
      simp [hOwn, State.put]
  · cases hReg : s.registry with
    | none => exact Quiet.unregistered hReg
    | some n => exact h.moved hSess rfl rfl rfl
  · next m hStage =>
    obtain ⟨hReg, hSessions⟩ := mark_frame cfg s a m
    refine h.move hSess hReg hSessions _ fun hMarks => ?_
    have hTears := (Session.marks_eq_false.mp hMarks).2
    rw [hStage] at hTears
    cases hTears
  · exact h

theorem update_keeps {P : State → Prop} (h : P s) {f : Session → State}
    (hSome : ∀ x, s.sessions[i]? = some x → P (f x)) : P (s.update i f) := by
  cases hSess : s.sessions[i]? with
  | none => simpa [State.update, hSess] using h
  | some x => simpa [State.update, hSess] using hSome x hSess

theorem Quiet.guardStep (h : Quiet s) (hSess : s.sessions[i]? = some x) : Quiet (s.guardStep cfg i x a) := by
  obtain ⟨hReg, hSessions⟩ := mark_frame cfg s a x.watchdog
  refine h.move hSess hReg hSessions _ fun hMarks => ?_
  obtain ⟨hIdle, hTears⟩ := Session.marks_eq_false.mp hMarks
  have hMarked : (s.mark cfg a x.watchdog).2 = .idle := by rw [hIdle, State.mark]
  exact Session.marks_eq_false.mpr ⟨hMarked, hTears⟩

theorem Quiet.next (h : Quiet s) {st : Step} (hGuard : Orderly s st) : Quiet (s.next cfg st) := by
  cases st with
  | connect =>
    refine ⟨fun {n j y} hn hj hy => ?_⟩
    change (s.sessions ++ [_])[j]? = some y at hy
    rcases Nat.lt_or_ge j s.sessions.length with hLt | hGe
    · rw [List.getElem?_append_left hLt] at hy
      exact h.calm hn hj hy
    rw [List.getElem?_append_right hGe] at hy
    rw [List.mem_singleton.mp (List.mem_of_getElem? hy)]
    rfl
  | approve =>
    change Quiet (if s.status = .pending then { s with status := .online } else s)
    split
    · exact h.of_eq rfl rfl
    · exact h
  | wait | deploy => exact h.of_eq rfl rfl
  | run i a => exact update_keeps h fun x hSess => h.advance hSess hGuard
  | beat | hangUp => exact update_keeps h fun x hSess => h.moved hSess rfl rfl rfl
  | tick i => exact update_keeps h fun x hSess => h.put rfl rfl fun n hn hi => absurd (hGuard n hn).symm hi
  | watch i a => exact update_keeps h fun x hSess => h.guardStep hSess
  | retire i => exact update_keeps h fun x hSess => h.move hSess rfl rfl _ fun hMarks => hMarks

theorem quiet_of_reachable (hReach : (system cfg).Reachable Orderly s) : Quiet s := by
  refine hReach.invariant ?_ fun _ _ hs _ hGuard => hs.next hGuard
  rintro t ⟨hReg, -⟩
  exact Quiet.unregistered hReg

def StepOf (s : State) (i : Nat) : Step → Prop
  | .tick j | .watch j _ => j = i
  | .run j _ => j = i ∧ ∀ x ∈ s.sessions[i]?, x.stage.stopped = true
  | .connect | .beat _ | .hangUp _ | .retire _ | .approve | .wait _ | .deploy _ => False

structure Spared (s t : State) : Prop where
  status : ¬ (s.status = .online ∧ t.status = .offline)
  deployments : t.deployments = s.deployments
  registry : t.registry = s.registry

def Kept (cfg : Config) (s : State) : Prop :=
  ∀ {n i : Nat} {x : Session} {st : Step}, s.registry = some n → s.sessions[n]? = some x →
    x.idleFor s.now ≤ cfg.heartbeatTimeout → i ≠ n → StepOf s i st → s.enabled cfg st = true → Spared s (s.next cfg st)

theorem Spared.refl (s : State) : Spared s s := ⟨fun h => absurd (h.1.symm.trans h.2) (by decide), rfl, rfl⟩

theorem Spared.put (s : State) (i : Nat) (x : Session) : Spared s (s.put i x) :=
  ⟨fun h => absurd (h.1.symm.trans h.2) (by decide), rfl, rfl⟩

theorem spared_advance {n : Nat} (hn : s.registry = some n) (hi : i ≠ n) (hStop : x.stage.stopped = true)
    (hMarks : x.marks = false) : Spared s (s.advance cfg i x a) := by
  have hTears := (Session.marks_eq_false.mp hMarks).2
  cases hStage : x.stage with
  | closing =>
    have hOther : s.registry ≠ some i := fun hOwn => hi (Option.some.inj (hOwn.symm.trans hn))
    have hAdvance : s.advance cfg i x a = s.put i { x with stage := .checking } := by
      simp [State.advance, hStage, hOther, State.put]
    rw [hAdvance]
    exact Spared.put s i _
  | checking =>
    have hAdvance : s.advance cfg i x a = s.put i { x with stage := .ended } := by simp [State.advance, hStage, hn]
    rw [hAdvance]
    exact Spared.put s i _
  | ended =>
    have hAdvance : s.advance cfg i x a = s := by simp [State.advance, hStage]
    rw [hAdvance]
    exact Spared.refl s
  | tearing m => simp [hStage, Stage.tears] at hTears
  | connected | registered | serving | beatRead | beatWrite => simp [hStage, Stage.stopped] at hStop

theorem Quiet.kept (h : Quiet s) : Kept cfg s := by
  intro n i x st hn _ _ hi hStep hOn
  cases st with
  | tick j => exact update_keeps (Spared.refl s) fun y _ => Spared.put s j _
  | watch j a =>
    obtain rfl : j = i := hStep
    cases hSess : s.sessions[j]? with
    | none => simp [State.enabled, hSess] at hOn
    | some y =>
      have hIdle := (Session.marks_eq_false.mp (h.calm hn hi hSess)).1
      simp [State.enabled, hSess, hIdle] at hOn
  | run j a =>
    obtain ⟨rfl, hStop⟩ := hStep
    exact update_keeps (Spared.refl s) fun y hSess =>
      spared_advance hn hi (hStop y hSess) (h.calm hn hi hSess)
  | connect | beat | hangUp | retire | approve | wait | deploy => cases hStep

theorem replacement_kept (hReach : (system cfg).Reachable Orderly s) : Kept cfg s := (quiet_of_reachable hReach).kept

instance (cfg : Config) (s : State) (st : Step) : Decidable ((system cfg).enabled s st) :=
  inferInstanceAs (Decidable (s.enabled cfg st = true))

instance (s : State) : ∀ st, Decidable (Orderly s st)
  | .tick i => inferInstanceAs (Decidable (∀ n ∈ s.registry, n = i))
  | .run i _ => inferInstanceAs
      (Decidable ((s.sessions[i]?).any (fun x => x.stage.registers) = true → ∀ y ∈ s.sessions, y.marks = false))
  | .connect | .beat _ | .hangUp _ | .watch _ _ | .retire _ | .approve | .wait _ | .deploy _ =>
    inferInstanceAs (Decidable True)

def thirty : Config := ⟨"node", 30⟩

def approved : State := ⟨0, .online, none, [], []⟩

def done (i : Nat) : Step := .run i ⟨true, Deploy.Env.calm⟩

def watched (i : Nat) : Step := .watch i ⟨true, Deploy.Env.calm⟩

def serve (i : Nat) : List Step := [.connect, done i, done i]

theorem replacement_kept_after_hangUp :
    Kept thirty ((system thirty).exec approved (serve 0 ++ [.hangUp 0, done 0, done 0, done 0, done 0, done 0] ++ serve 1)) :=
  replacement_kept (.of_allowed ⟨rfl, rfl⟩ (by decide +kernel))

def silent : List Step := serve 0 ++ serve 1 ++ [.wait 31, .beat 1, done 1, done 1, .tick 0, watched 0]

def overtaken : List Step := serve 0 ++ [.hangUp 0, done 0, done 0, done 0] ++ serve 1

theorem replacement_knocked_offline : (∃ s, (system thirty).Reachable (fun _ _ => True) s ∧ s.registry = some 1 ∧
      (s.sessions[1]?).any (fun x => x.idleFor s.now ≤ thirty.heartbeatTimeout) = true ∧ StepOf s 0 (watched 0) ∧
      s.enabled thirty (watched 0) = true ∧ s.status = .online ∧ (s.next thirty (watched 0)).status = .offline) ∧
    ∃ s, (system thirty).Reachable (fun _ _ => True) s ∧ s.registry = some 1 ∧
      (s.sessions[1]?).any (fun x => x.idleFor s.now ≤ thirty.heartbeatTimeout) = true ∧ StepOf s 0 (done 0) ∧
      s.enabled thirty (done 0) = true ∧ s.status = .online ∧ (s.next thirty (done 0)).status = .offline := by
  constructor
  · exact ⟨(system thirty).exec approved silent, .of_allowed ⟨rfl, rfl⟩ (by decide +kernel), by decide +kernel,
      by decide +kernel, rfl, by decide +kernel, by decide +kernel, by decide +kernel⟩
  · exact ⟨(system thirty).exec approved overtaken, .of_allowed ⟨rfl, rfl⟩ (by decide +kernel), by decide +kernel,
      by decide +kernel, ⟨rfl, by decide +kernel⟩, by decide +kernel, by decide +kernel, by decide +kernel⟩

end LocalModelWorks.Server.Sessions
