import LocalModelWorks.Downloads.Resource
import LocalModelWorks.Transition

/-!
# What a session follows (`reconcile`)

A session starts the container monitor unless a monitor context is set, and the tailer of a
running container unless the table has one for it. Both outlive the session they come from.
-/

namespace LocalModelWorks.Agent

open Transition
open Recipe (Text)

namespace Monitor

/-- Sessions are numbered as they start; a running `monitorLoop` is the number of its session. -/
structure State where
  session : Nat
  monitorCtx : Option Nat
  loops : List Nat

def State.startMonitor (s : State) : State :=
  if s.monitorCtx.isSome then s else { s with monitorCtx := some s.session, loops := s.session :: s.loops }

inductive Event
  | start
  | startMonitor
  | exit (loop : Nat)

def system : System State Event where
  init s := s.monitorCtx = none ∧ s.loops = []
  enabled s
    | .start | .startMonitor => True
    | .exit i => i ∈ s.loops ∧ i ≠ s.session
  next s
    | .start => { s with session := s.session + 1 }
    | .startMonitor => s.startMonitor
    -- the deferred function clears the field whatever context it holds
    | .exit i => { s with monitorCtx := none, loops := s.loops.erase i }

def Exits (_ : State) : Event → Prop
  | .exit _ => True
  | _ => False

variable {s t : State}

theorem startMonitor_eq (h : s.loops = s.monitorCtx.toList) :
    ∃ i, s.startMonitor = { s with monitorCtx := some i, loops := [i] } ∧
      (i = s.session ↔ ∀ j ∈ s.loops, j = s.session) := by
  obtain ⟨session, monitorCtx, loops⟩ := s
  cases monitorCtx with
  | none => exact ⟨session, by simp_all [State.startMonitor]⟩
  | some i => exact ⟨i, by simp_all [State.startMonitor]⟩

theorem loops_of_reachable (hReach : system.Reachable (fun _ _ => True) s) : s.loops = s.monitorCtx.toList := by
  refine hReach.invariant (I := fun s => s.loops = s.monitorCtx.toList) ?_ ?_
  · rintro s ⟨hCtx, hLoops⟩
    rw [hCtx, hLoops]
    rfl
  intro s e hLoops hOn _
  cases e with
  | start => exact hLoops
  | startMonitor =>
    obtain ⟨i, hStarted, -⟩ := startMonitor_eq hLoops
    simp [system, hStarted]
  | exit i =>
    obtain ⟨hMem, -⟩ := hOn
    rw [hLoops, Option.mem_toList] at hMem
    simp [system, hLoops, Option.mem_def.mp hMem]

/-- Whatever the loops do after the call, a session has its monitor exactly if no loop of a session before it was
left when `startMonitor` was called. -/
theorem session_monitored_iff (hReach : system.Reachable (fun _ _ => True) s)
    (hRun : system.Runs Exits s.startMonitor t) : t.loops = [t.session] ↔ ∀ i ∈ s.loops, i = s.session := by
  obtain ⟨i, hStarted, hOld⟩ := startMonitor_eq (loops_of_reachable hReach)
  have hAfter : t.session = s.session ∧ (t.loops = [i] ∨ i ≠ s.session ∧ t.loops = []) := by
    refine hRun.preserves (I := fun t => t.session = s.session ∧ (t.loops = [i] ∨ _ ∧ t.loops = [])) ?_ ?_
    · rintro u e ⟨hSess, hLoops⟩ hOn hGuard
      cases e with
      | start | startMonitor => cases hGuard
      | exit j =>
        obtain ⟨hMem, hPast⟩ := hOn
        rcases hLoops with hOne | ⟨-, hNone⟩
        · obtain rfl : j = i := by simpa [hOne] using hMem
          exact ⟨hSess, .inr ⟨hSess ▸ hPast, by simp [system, hOne]⟩⟩
        · simp [hNone] at hMem
    · rw [hStarted]
      exact ⟨rfl, .inl rfl⟩
  obtain ⟨hSess, hLoops⟩ := hAfter
  rw [← hOld, hSess]
  rcases hLoops with hOne | ⟨hOther, hNone⟩
  · rw [hOne, List.cons.injEq, and_iff_left rfl]
  · exact iff_of_false (by simp [hNone]) hOther

def first : State := ⟨0, none, []⟩

/-- The loop of the first session leaves before the second session calls `startMonitor`. -/
theorem session_monitored_second : let s := system.exec first [.startMonitor, .start, .exit 0]
    s.session = 1 ∧ s.loops = [] ∧ (s.startMonitor.loops = [1] ↔ ∀ i ∈ s.loops, i = 1) ∧ s.startMonitor.loops = [1] := by
  have hRun : system.Allowed (fun _ _ => True) first [.startMonitor, .start, .exit 0] :=
    ⟨⟨trivial, trivial⟩, ⟨trivial, trivial⟩, ⟨⟨List.mem_cons_self, by decide⟩, trivial⟩, trivial⟩
  have hMonitored := session_monitored_iff (.of_allowed ⟨rfl, rfl⟩ hRun) .refl
  exact ⟨rfl, rfl, hMonitored, hMonitored.mpr fun _ h => by cases h⟩

/-- The second session calls `startMonitor` before the loop of the first has seen its context done. -/
theorem session_left_unmonitored : ∃ s t, system.Reachable (fun _ _ => True) s ∧
    system.Runs Exits s.startMonitor t ∧ t.loops = [] := by
  have hStart : system.Allowed (fun _ _ => True) first [.startMonitor, .start] :=
    ⟨⟨trivial, trivial⟩, ⟨trivial, trivial⟩, trivial⟩
  have hLate : system.Allowed Exits (system.exec first [.startMonitor, .start]).startMonitor [.exit 0] :=
    ⟨⟨⟨List.mem_cons_self, by decide⟩, trivial⟩, trivial⟩
  exact ⟨_, _, .of_allowed ⟨rfl, rfl⟩ hStart, .of_allowed hLate, rfl⟩

end Monitor

namespace Tailers

/-- `tailKey` -/
structure Key where
  runID : Text
  deploymentID : Text
  rank : Int
  deriving DecidableEq

/-- `^[A-Za-z0-9][A-Za-z0-9._-]{0,127}$` -/
def workloadID (text : Text) : Bool := Downloads.isRepoName text && text.length ≤ 128

variable (k : Key)

def validateWorkloadIdentity : Except String Unit :=
  if k.deploymentID = [] ∧ k.runID = [] ∨ k.deploymentID ≠ [] ∧ workloadID k.deploymentID = false ∨
      k.runID ≠ [] ∧ workloadID k.runID = false ∨ k.rank < 0 then .error "workload.identity_invalid"
  else .ok ()

/-- A managed container, with what `labelsOf` reads from its labels. -/
structure Container where
  module : String
  state : String
  labels : Key
  id : Text

/-- The containers of a list that `reconcile` tails under a key. -/
def Key.tailed (list : List Container) : List Container :=
  list.filter fun c => c.module != "host-preparation" &&
    ["running", "starting", "installing", "observing"].contains c.state && c.labels = k

/-- The container that a tailer follows, the session of its context, and whether `run` has returned. -/
structure Tailer where
  id : Text
  session : Nat
  ended : Bool
  deriving DecidableEq

/-- The table at one key. -/
structure State where
  session : Nat
  tailer : Option Tailer
  /-- `startTailer` has waited for a goroutine with the mutex held, or does so for ever. -/
  waited : Bool
  blocked : Bool

variable (s : State) (session : Nat) (id : Text)

def State.put : State := { s with tailer := some ⟨id, session, false⟩ }

def State.startTailer : State :=
  match validateWorkloadIdentity k with
  | .error _ => s
  | .ok () =>
    match s.tailer with
    | none => s.put session id
    | some t =>
      if t.id = id then s
      -- The channel has no buffer: the send returns once `run` receives, and `run` may have returned.
      else if t.ended then { s with waited := true, blocked := true }
      else { s.put session id with waited := true }

def State.startTailers (list : List Container) : State :=
  list.foldl (fun s c => if s.blocked then s else s.startTailer k s.session c.id) s

inductive Event
  | start
  | reconcile (list : List Container)
  /-- `handleWorkload` has started a container. It has the context of the session that called it. -/
  | started (session : Nat) (id : Text)
  | stopTailer
  /-- `run` returns: its session or its container has ended, or the engine gives no logs. -/
  | exit

def system : System State Event where
  init s := s.tailer = none ∧ s.waited = false
  enabled s _ := s.blocked = false
  next s
    | .start => { s with session := s.session + 1 }
    | .reconcile list => s.startTailers k (k.tailed list)
    | .started session id => s.startTailer k session id
    | .stopTailer => { s with tailer := none }
    | .exit => { s with tailer := s.tailer.map ({ · with ended := true }) }

def State.Follows : Prop := s.tailer = some ⟨id, s.session, false⟩

def Fit : Event → Prop
  | .reconcile list => ∀ c ∈ k.tailed list, validateWorkloadIdentity k = .ok () ∧
      (s.tailer = none ∨ s.Follows c.id) ∧ ∀ d ∈ k.tailed list, d.id = c.id
  | .started _ id => ∀ t ∈ s.tailer, t.id = id
  | _ => True

variable {k : Key} {s : State} {session : Nat} {id : Text}

theorem startTailer_waited (h : ∀ t ∈ s.tailer, t.id = id) : (s.startTailer k session id).waited = s.waited := by
  unfold State.startTailer
  split
  · rfl
  split
  · rfl
  next t hTailer => rw [if_pos (h t hTailer)]

theorem startTailer_fresh (hValid : validateWorkloadIdentity k = .ok ()) (h : s.tailer = none ∨ s.Follows id) :
    s.startTailer k s.session id = s.put s.session id := by
  obtain ⟨session, tailer, waited, blocked⟩ := s
  unfold State.startTailer
  rw [hValid]
  rcases h with rfl | hFollows
  · rfl
  · obtain rfl : tailer = some ⟨id, session, false⟩ := hFollows
    exact if_pos rfl

theorem startTailers_fresh {list : List Container} (hValid : validateWorkloadIdentity k = .ok ())
    (hIDs : ∀ c ∈ list, c.id = id) (hBlocked : s.blocked = false) (h : s.tailer = none ∨ s.Follows id) :
    s.startTailers k list = if list = [] then s else s.put s.session id := by
  induction list generalizing s with
  | nil => rfl
  | cons c rest ih =>
    have hHead : s.startTailers k (c :: rest) = (s.put s.session id).startTailers k rest := by
      rw [State.startTailers, List.foldl_cons, hBlocked, hIDs c List.mem_cons_self, ← startTailer_fresh hValid h]
      rfl
    rw [hHead, @ih (s.put s.session id) (fun d hd => hIDs d (List.mem_cons_of_mem c hd)) hBlocked (.inr rfl)]
    exact (ite_self _).trans (if_neg (List.cons_ne_nil c rest)).symm

theorem reconcile_fit {list : List Container} (hBlocked : s.blocked = false) (hFit : Fit k s (.reconcile list)) :
    (s.startTailers k (k.tailed list)).waited = s.waited ∧
      ∀ c ∈ k.tailed list, (s.startTailers k (k.tailed list)).Follows c.id := by
  cases hList : k.tailed list with
  | nil => exact ⟨rfl, fun _ h => by cases h⟩
  | cons c rest =>
    rw [Fit, hList] at hFit
    obtain ⟨hValid, hFresh, hIDs⟩ := hFit c List.mem_cons_self
    rw [startTailers_fresh hValid hIDs hBlocked hFresh, if_neg (List.cons_ne_nil c rest)]
    exact ⟨rfl, fun d hd => hIDs d hd ▸ rfl⟩

/-- As long as what a reconcile lists under a key is one container of a valid identity, without a tailer or with one
that runs for this session, the container is followed. -/
theorem tailers_follow (hReach : (system k).Reachable (Fit k) s) : s.waited = false ∧
    ∀ list, s.blocked = false → Fit k s (.reconcile list) →
      ∀ c ∈ k.tailed list, ((system k).next s (.reconcile list)).Follows c.id := by
  refine ⟨?_, fun list hBlocked hFit => (reconcile_fit hBlocked hFit).2⟩
  refine hReach.invariant (fun _ h => And.right h) fun s e hWaited hOn hFit => ?_
  cases e with
  | start | stopTailer | exit => exact hWaited
  | started session id => exact (startTailer_waited hFit).trans hWaited
  | reconcile list => exact (reconcile_fit hOn hFit).1.trans hWaited

def idle : State := ⟨0, none, false, false⟩

def served (id : Text) : Container := ⟨"workload", "running", ⟨['r'], ['d'], 0⟩, id⟩

theorem fit_served (h : s.tailer = none ∨ s.Follows id) : Fit (served []).labels s (.reconcile [served id]) := by
  intro c hc
  obtain rfl := List.mem_singleton.mp (List.mem_filter.mp hc).1
  refine ⟨by decide +kernel, h, fun d hd => ?_⟩
  rw [List.mem_singleton.mp (List.mem_filter.mp hd).1]

/-- A container is removed and created again; its start and the next reconcile are of a new session. -/
def createdAgain : List Event := [.reconcile [served ['a']], .exit, .stopTailer, .start, .started 1 ['b']]

theorem tailers_follow_created_again : let s := (system (served []).labels).exec idle createdAgain
    s.session = 1 ∧ s.Follows ['b'] ∧ s.waited = false ∧
      ((system (served []).labels).next s (.reconcile [served ['b']])).Follows ['b'] := by
  have hMay : (system (served []).labels).Allowed (Fit (served []).labels) idle createdAgain :=
    ⟨⟨rfl, fit_served (.inl rfl)⟩, ⟨rfl, trivial⟩, ⟨rfl, trivial⟩, ⟨rfl, trivial⟩, ⟨rfl, fun _ h => by cases h⟩, trivial⟩
  obtain ⟨hWaited, hFollow⟩ := tailers_follow (.of_allowed ⟨rfl, rfl⟩ hMay)
  exact ⟨rfl, rfl, hWaited, hFollow [served ['b']] rfl (fit_served (.inr rfl)) (served ['b']) (by simp [Key.tailed, served])⟩

/-- A new session finds the tailer of the one before in the table, which has ended, and starts none; for a container
that was created again it waits for it. -/
theorem tailers_left_behind : ∃ s, (system (served []).labels).Reachable (fun _ _ => True) s ∧ s.blocked = false ∧
    s.session = 1 ∧ ((system (served []).labels).next s (.reconcile [served ['a']])).tailer = some ⟨['a'], 0, true⟩ ∧
    ((system (served []).labels).next s (.reconcile [served ['b']])).blocked = true := by
  have hRun : (system (served []).labels).Allowed (fun _ _ => True) idle [.reconcile [served ['a']], .exit, .start] :=
    ⟨⟨rfl, trivial⟩, ⟨rfl, trivial⟩, ⟨rfl, trivial⟩, trivial⟩
  exact ⟨_, .of_allowed ⟨rfl, rfl⟩ hRun, rfl, rfl, rfl, rfl⟩

end Tailers

end LocalModelWorks.Agent
