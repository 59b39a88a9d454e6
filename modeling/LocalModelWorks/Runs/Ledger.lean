import LocalModelWorks.Runs.Lease

/-!
# The run ledger and the leases runs hold

The ledger rows with the calls that move them, over the lease table. A lease
acquired for a run is released by `Complete` and by `ReleaseLeasesFor`; the
start-up pass `MarkInterrupted` ends runs through `SetState` alone.
-/

namespace LocalModelWorks.Runs.Ledger

open Transition Lease

structure Run where
  id : String
  kind : String
  state : State
  deploymentID : Option String
  startedAt : Option String
  finishedAt : Option String
  errorCode : Option String
  errorMessage : Option String
  deriving DecidableEq

structure Store where
  runs : List Run
  leases : Table
  deriving DecidableEq

inductive Error
  | unknown
  | invalidTransition (old new : State)
  | isTerminal (state : State)
  deriving DecidableEq

def Error.text : Error → String
  | .unknown => "unknown run"
  | .invalidTransition old new => s!"invalid run transition: " ++ old.text ++ " -> " ++ new.text
  | .isTerminal state => "invalid run transition: " ++ state.text ++ " is terminal"

variable (s : Store) (rid : String)

def Store.getRun : Option Run := s.runs.find? (·.id = rid)

def nonempty (text : String) : Option String := if text = "" then none else some text

variable (row : Run) (now : String)

def Run.moved (new : State) (code message : String) : Run :=
  { row with
    state := new
    startedAt := (if row.state = .queued ∧ row.startedAt = none ∧ ¬ new.terminal then some now else none).or
      row.startedAt
    finishedAt := (if new.terminal then some now else none).or row.finishedAt
    errorCode := (nonempty code).or row.errorCode
    errorMessage := (nonempty message).or row.errorMessage }

def Store.updateRun (f : Run → Run) : Store :=
  { s with runs := s.runs.map fun row => if row.id = rid then f row else row }

def create (rid kind : String) (deploymentID : Option String) : Store :=
  { s with runs := s.runs ++ [⟨rid, kind, .queued, deploymentID, none, none, none, none⟩] }

variable (now rid : String) (new : State) (code message : String)

def setState : Except Error Store :=
  match s.getRun rid with
  | none => .error .unknown
  | some row =>
    if canTransition row.state new then .ok (s.updateRun rid (·.moved now new code message))
    else .error (.invalidTransition row.state new)

def cancel : Except Error Store :=
  match s.getRun rid with
  | none => .error .unknown
  | some row => if row.state.terminal then .error (.isTerminal row.state) else setState s now rid .cancelling "" ""

def Run.leaseOwner : Owner :=
  match row.deploymentID with
  | some deploymentID => ⟨.deployment, deploymentID⟩
  | none => ⟨.run, row.id⟩

def complete : Except Error Store := do
  let moved ← setState s now rid new code message
  match moved.getRun rid with
  | none => .error .unknown
  | some row => .ok { moved with leases := releaseLeases moved.leases row.leaseOwner }

def interruptRows (now : String) : List Run → Store → Nat → Store × Nat × Option Error
  | [], s, n => (s, n, none)
  | row :: rest, s, n =>
    if isOneShot row.kind then
      match setState s now row.id .interrupted "run.interrupted" "controller restart" with
      | .ok s' => interruptRows now rest s' (n + 1)
      | .error e => (s, n, some e)
    else interruptRows now rest s n

def markInterrupted : Store × Nat × Option Error :=
  interruptRows now (s.runs.filter (!·.state.terminal)) s 0

inductive Call
  | create (rid kind : String) (deploymentID : Option String)
  | acquire (owner : Owner) (resources : List Text)
  | release (owner : Owner)
  | setState (now rid : String) (new : State) (code message : String)
  | cancel (now rid : String)
  | complete (now rid : String) (new : State) (code message : String)
  | restart (now : String)

def Store.keep : Except Error Store → Store
  | .ok s' => s'
  | .error _ => s

def apply : Call → Store
  | .create rid kind deploymentID => create s rid kind deploymentID
  | .acquire owner resources => { s with leases := Lease.apply s.leases (.acquire owner resources) }
  | .release owner => { s with leases := releaseLeases s.leases owner }
  | .setState now rid new code message => s.keep (setState s now rid new code message)
  | .cancel now rid => s.keep (cancel s now rid)
  | .complete now rid new code message => s.keep (complete s now rid new code message)
  | .restart now => (markInterrupted s now).1

def Store.Live : Prop := ∃ row, s.getRun rid = some row ∧ row.state.terminal = false

def system : System Store Call where
  init s := s = ⟨[], []⟩
  enabled s
    | .create rid _ _ => s.getRun rid = none
    | .acquire owner _ => owner.kind = .run → s.Live owner.id
    | _ => True
  next := apply

def NoOrphans : Prop := ∀ row ∈ s.leases, row.active = true → row.owner.kind = .run → s.Live row.owner.id

/-- No run is ended over leases of its own: not by `SetState`, not by the start-up pass, and
not by `Complete` on a run that releases its deployment's leases instead. -/
def EndsReleased : Call → Prop
  | .setState _ rid new _ _ => new.terminal = true → ¬ holds s.leases ⟨.run, rid⟩
  | .complete _ rid _ _ _ => ∀ row, s.getRun rid = some row → row.deploymentID.isSome → ¬ holds s.leases ⟨.run, rid⟩
  | .restart _ => ∀ row ∈ s.runs, row.state.terminal = false → isOneShot row.kind = true →
      ¬ holds s.leases ⟨.run, row.id⟩
  | _ => True

variable {s s' : Store} {rid other now code message : String} {row : Run} {new : State}

theorem getRun_id (h : s.getRun rid = some row) : row.id = rid := by
  simpa using List.find?_some h

theorem getRun_updateRun (s : Store) (rid other : String) {f : Run → Run} (hId : ∀ row, (f row).id = row.id) :
    (s.updateRun rid f).getRun other = (s.getRun other).map fun row => if row.id = rid then f row else row := by
  have hKeepsId row : (if row.id = rid then f row else row).id = row.id := by
    split
    · exact hId row
    · rfl
  simp only [Store.getRun, Store.updateRun, List.find?_map, Function.comp_def, hKeepsId]

section

variable (h : setState s now rid new code message = .ok s')
include h

theorem setState_ok : ∃ row, s.getRun rid = some row ∧ canTransition row.state new = true ∧
      s' = s.updateRun rid (·.moved now new code message) := by
  unfold setState at h
  split at h
  · cases h
  rename_i row hRow
  split at h
  next hEdge =>
    cases h
    exact ⟨row, hRow, hEdge, rfl⟩
  · cases h

theorem leases_setState : s'.leases = s.leases := by
  obtain ⟨_, _, _, rfl⟩ := setState_ok h
  rfl

theorem getRun_setState (hRow : s.getRun other = some row) :
    s'.getRun other = some (if row.id = rid then row.moved now new code message else row) := by
  obtain ⟨_, _, _, rfl⟩ := setState_ok h
  have hId (r : Run) : (r.moved now new code message).id = r.id := rfl
  rw [getRun_updateRun s rid other hId, hRow, Option.map_some]

end

theorem Store.Live.moved (hLive : s.Live other) (h : setState s now rid new code message = .ok s')
    (hEnds : new.terminal = true → other ≠ rid) : s'.Live other := by
  obtain ⟨row, hRow, hState⟩ := hLive
  refine ⟨_, getRun_setState h hRow, ?_⟩
  split
  next hId =>
    have hOther : other = rid := (getRun_id hRow).symm.trans hId
    exact Bool.eq_false_iff.mpr fun hEnd => hEnds hEnd hOther
  · exact hState

theorem NoOrphans.moved (hs : NoOrphans s) (h : setState s now rid new code message = .ok s') {leases : Table}
    (hKept : ∀ row ∈ leases, row.active = true → row ∈ s.leases ∧ (new.terminal = true → row.owner ≠ ⟨.run, rid⟩)) :
    NoOrphans { s' with leases := leases } := by
  intro row hRow hActive hKind
  obtain ⟨hOld, hOwner⟩ := hKept row hRow hActive
  have hLive : s'.Live row.owner.id := by
    refine (hs row hOld hActive hKind).moved h fun hEnd hId => hOwner hEnd ?_
    rw [← hKind, ← hId]
  exact hLive

theorem NoOrphans.moved_of_not_holds (hs : NoOrphans s) (h : setState s now rid new code message = .ok s')
    (hFree : new.terminal = true → ¬ holds s.leases ⟨.run, rid⟩) : NoOrphans s' := by
  refine hs.moved h fun row hRow hActive => ?_
  rw [leases_setState h] at hRow
  exact ⟨hRow, fun hEnd hOwner => hFree hEnd ⟨row, hRow, hActive, hOwner⟩⟩

theorem complete_ok (h : complete s now rid new code message = .ok s') :
    ∃ moved row, setState s now rid new code message = .ok moved ∧ s.getRun rid = some row ∧
      s' = { moved with leases := releaseLeases s.leases row.leaseOwner } := by
  unfold complete at h
  cases hMoved : setState s now rid new code message with
  | error e =>
    rw [hMoved] at h
    cases h
  | ok moved =>
    obtain ⟨row, hRow, _, _⟩ := setState_ok hMoved
    have hNew := getRun_setState hMoved hRow
    rw [if_pos (getRun_id hRow)] at hNew
    rw [hMoved] at h
    simp only [bind, Except.bind, hNew, leases_setState hMoved] at h
    cases h
    exact ⟨moved, row, rfl, hRow, rfl⟩

namespace NoOrphans

theorem complete (hs : NoOrphans s) (h : complete s now rid new code message = .ok s')
    (hFree : ∀ row, s.getRun rid = some row → row.deploymentID.isSome → ¬ holds s.leases ⟨.run, rid⟩) :
    NoOrphans s' := by
  obtain ⟨moved, row, hMoved, hRow, rfl⟩ := complete_ok h
  refine hs.moved hMoved fun lease hLease hActive => ?_
  obtain ⟨hOld, hOwner⟩ := mem_releaseLeases hLease hActive
  refine ⟨hOld, fun _ hRun => ?_⟩
  cases hDep : row.deploymentID with
  | some deploymentID => exact hFree row hRow (by rw [hDep]; rfl) ⟨lease, hOld, hActive, hRun⟩
  | none =>
    have hSelf : row.leaseOwner = ⟨.run, rid⟩ := by rw [Run.leaseOwner, hDep, getRun_id hRow]
    exact hOwner (hRun.trans hSelf.symm)

theorem interruptRows {rows : List Run} (now : String) (n : Nat) (hs : NoOrphans s)
    (hFree : ∀ row ∈ rows, isOneShot row.kind = true → ¬ holds s.leases ⟨.run, row.id⟩) :
    NoOrphans (interruptRows now rows s n).1 := by
  induction rows generalizing s n with
  | nil => exact hs
  | cons row rest ih =>
    have hRest := fun r hr => hFree r (List.mem_cons_of_mem row hr)
    unfold Ledger.interruptRows
    split
    next hOneShot =>
      split
      next s' hMoved =>
        refine ih (n + 1) (hs.moved_of_not_holds hMoved fun _ => hFree row List.mem_cons_self hOneShot) ?_
        rw [leases_setState hMoved]
        exact hRest
      · exact hs
    · exact ih n hs hRest

theorem cancel (hs : NoOrphans s) (h : cancel s now rid = .ok s') : NoOrphans s' := by
  unfold Ledger.cancel at h
  split at h
  · cases h
  split at h
  · cases h
  · exact hs.moved_of_not_holds h nofun

theorem keep {r : Except Error Store} (hs : NoOrphans s) (h : ∀ s', r = .ok s' → NoOrphans s') :
    NoOrphans (s.keep r) := by
  cases r with
  | ok s' => exact h s' rfl
  | error e => exact hs

theorem acquire (hs : NoOrphans s) {owner : Owner} (resources : List Text)
    (hLive : owner.kind = .run → s.Live owner.id) :
    NoOrphans { s with leases := Lease.apply s.leases (.acquire owner resources) } := by
  simp only [Lease.apply]
  split
  next leases hGot =>
    intro row hRow hActive hKind
    rcases (acquireLeases_ok hGot).1 row hRow with hOld | ⟨hOwner, _, _⟩
    · exact hs row hOld hActive hKind
    · exact hOwner ▸ hLive (hOwner ▸ hKind)
  · exact hs

theorem step {call : Call} (hs : NoOrphans s) (hOn : system.enabled s call)
    (hGuard : EndsReleased s call) : NoOrphans (apply s call) := by
  cases call with
  | create rid kind deploymentID =>
    intro row hRow hActive hKind
    obtain ⟨run, hRun, hState⟩ := hs row hRow hActive hKind
    refine ⟨run, ?_, hState⟩
    simp only [apply, Store.getRun, create, List.find?_append] at hRun ⊢
    rw [hRun, Option.some_or]
  | acquire owner resources => exact hs.acquire resources hOn
  | release owner =>
    intro row hRow hActive hKind
    exact hs row (mem_releaseLeases hRow hActive).1 hActive hKind
  | setState now rid new code message => exact hs.keep fun s' h => hs.moved_of_not_holds h hGuard
  | cancel now rid => exact hs.keep fun s' h => hs.cancel h
  | complete now rid new code message => exact hs.keep fun s' h => hs.complete h hGuard
  | restart now =>
    refine hs.interruptRows now 0 fun row hRow => ?_
    obtain ⟨hMem, hState⟩ := List.mem_filter.mp hRow
    exact hGuard row hMem (by simpa using hState)

end NoOrphans

theorem run_leases_not_orphaned {s : Store} (hReach : system.Reachable EndsReleased s) : NoOrphans s := by
  apply hReach.invariant
  · rintro s rfl row hRow
    cases hRow
  · intro s call hs hOn hGuard
    exact hs.step hOn hGuard

def benchmark : Owner := ⟨.run, "r"⟩

def submitted : List Call :=
  [.create "r" "benchmark" none, .acquire benchmark ["benchmarks:harbor-coordinator".toList],
    .setState "t1" "r" .running "" ""]

def finished : List Call :=
  submitted ++ [.setState "t2" "r" .verifying "" "", .complete "t3" "r" .succeeded "" "", .restart "t4"]

theorem run_leases_not_orphaned_finished :
    (system.exec ⟨[], []⟩ submitted).leases = [⟨"benchmarks:harbor-coordinator".toList, benchmark, true⟩] ∧
    NoOrphans (system.exec ⟨[], []⟩ finished) := by
  have hMay : system.Allowed EndsReleased ⟨[], []⟩ finished := by
    refine ⟨⟨rfl, trivial⟩, ⟨fun _ => ⟨_, rfl, rfl⟩, trivial⟩, ⟨trivial, nofun⟩,
      ⟨trivial, nofun⟩, ⟨trivial, ?_⟩, ⟨trivial, ?_⟩, trivial⟩
    · rintro row hRow hDep
      cases hRow
      cases hDep
    intro row hRow hState
    have hRows : ∀ r ∈ (system.exec ⟨[], []⟩ (finished.dropLast)).runs, r.state.terminal = true := by decide
    rw [hRows row hRow] at hState
    cases hState
  exact ⟨by decide, run_leases_not_orphaned (.of_allowed rfl hMay)⟩

theorem restart_orphans_run_lease : ¬ ∀ s, system.Reachable (fun _ _ => True) s → NoOrphans s := by
  intro h
  have hMay : system.Allowed (fun _ _ => True) ⟨[], []⟩ (submitted ++ [.restart "t2"]) :=
    ⟨⟨rfl, trivial⟩, ⟨fun _ => ⟨_, rfl, rfl⟩, trivial⟩, ⟨trivial, trivial⟩, ⟨trivial, trivial⟩, trivial⟩
  obtain ⟨row, hRow, hState⟩ := h _ (.of_allowed rfl hMay)
    ⟨"benchmarks:harbor-coordinator".toList, benchmark, true⟩ (by decide) rfl rfl
  cases hRow
  cases hState

end LocalModelWorks.Runs.Ledger
