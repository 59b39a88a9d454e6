import LocalModelWorks.Fabric.Validate
import LocalModelWorks.Transition
import Mathlib.Data.Fin.VecNotation

/-!
# Updates and deletions of one fabric

Any number of `Update` and `Delete` calls with the same If-Match version. Each statement on
the database is a step, so that the calls interleave between the read of a row, its check
and the write. A write repeats the version in its condition, but nobody looks at the number
of rows that it changed: a call whose write finds another version succeeds all the same.
-/

namespace LocalModelWorks.Fabric

open Diag (Diagnostic)
open Transition

structure Row where
  id : String
  name : String
  transport : String
  members : List String
  bindings : List MemberBinding
  state : FabricState
  diagnostics : List Diagnostic
  version : String
  createdAt : String
  updatedAt : String
  deriving DecidableEq

inductive Failure
  | ifMatchRequired
  | unknown
  | versionMismatch
  | inUse (refs : Nat)
  | nameImmutable
  | validation (message : String)
  | database
  deriving DecidableEq

def Failure.text : Failure → String
  | ifMatchRequired => "If-Match is required"
  | unknown => "unknown fabric"
  | versionMismatch => "fabric version mismatch"
  | inUse refs => "fabric in use: " ++ toString refs ++ " running deployment(s) reference this fabric"
  | nameImmutable => "fabric validation failed: name is immutable"
  | validation message => "fabric validation failed: " ++ message
  | database => "sql: database error"

inductive Call
  | update (req : CreateRequest)
  | delete
  deriving DecidableEq

inductive Phase
  | start
  | read (cur : Row)
  | validated (cur : Row) (state : FabricState) (diagnostics : List Diagnostic)
  | counted (cur : Row)
  | written
  | updated (view : Row)
  | deleted
  | failed (failure : Failure)
  deriving DecidableEq

inductive Action
  | read
  | validate (around : Surroundings)
  | count (refs : Nat)
  | write (version now : String)
  | get
  | fail

/-- `GetFabricByIfMatch` and the check of the name, or `GetFabric` and the check of the version. -/
def readRow (ifMatch : String) (row : Option Row) : Call → Phase
  | .update req =>
    if ifMatch = "" then .failed .ifMatchRequired
    else match row with
      | none => .failed .versionMismatch
      | some cur =>
        if cur.version ≠ ifMatch then .failed .versionMismatch
        else if req.name ≠ cur.name then .failed .nameImmutable
        else .read cur
  | .delete =>
    match row with
    | none => .failed .unknown
    | some cur => if ifMatch ≠ "" ∧ ifMatch ≠ cur.version then .failed .versionMismatch else .read cur

def validateRequest (fid : String) (around : Surroundings) (req : CreateRequest) (cur : Row) : Phase :=
  if Diag.hasError (validate around fid req).2 then
    .failed (.validation (((validate around fid req).2.head?.map (·.message)).getD ""))
  else .validated cur (validate around fid req).1 (validate around fid req).2

def assign (req : CreateRequest) (state : FabricState) (ds : List Diagnostic) (version now : String) (row : Row) : Row :=
  { row with
    transport := req.transport, members := req.members, bindings := req.bindings
    state := state, diagnostics := ds, version := version, updatedAt := now }

def updateFabric (ifMatch : String) (change : Row → Row) : Option Row → Option Row
  | some row => if row.version = ifMatch then some (change row) else some row
  | none => none

def deleteFabric (version : String) : Option Row → Option Row
  | some row => if row.version = version then none else some row
  | none => none

def Phase.isOver : Phase → Bool
  | .updated _ => true
  | .deleted => true
  | .failed _ => true
  | _ => false

def move (fid ifMatch : String) (row : Option Row) : Call → Phase → Action → Option (Option Row × Phase)
  | call, .start, .read => some (row, readRow ifMatch row call)
  | .update req, .read cur, .validate around => some (row, validateRequest fid around req cur)
  | .update req, .validated _ state ds, .write version now =>
    some (updateFabric ifMatch (assign req state ds version now) row, .written)
  | .update _, .written, .get =>
    match row with
    | none => some (row, .failed .unknown)
    | some view => some (row, .updated view)
  | .delete, .read cur, .count refs =>
    if 0 < refs then some (row, .failed (.inUse refs)) else some (row, .counted cur)
  | .delete, .counted cur, .write _ _ => some (deleteFabric cur.version row, .deleted)
  | _, phase, .fail => if phase.isOver then none else some (row, .failed .database)
  | _, _, _ => none

structure State (ι : Type) where
  row : Option Row
  phase : ι → Phase

def State.goto {ι : Type} [DecidableEq ι] (s : State ι) (row : Option Row) (i : ι) (phase : Phase) : State ι :=
  ⟨row, Function.update s.phase i phase⟩

theorem State.goto_self {ι : Type} [DecidableEq ι] (s : State ι) (row : Option Row) (i : ι) (phase : Phase) :
    (s.goto row i phase).phase i = phase := by
  simp [State.goto]

theorem State.goto_other {ι : Type} [DecidableEq ι] (s : State ι) (row : Option Row) {i j : ι} (phase : Phase)
    (h : j ≠ i) : (s.goto row i phase).phase j = s.phase j := by
  simp [State.goto, h]

section System

variable {ι : Type} [DecidableEq ι] (fid ifMatch : String) (calls : ι → Call)

def Action.draws (ifMatch : String) : Action → Bool
  | .write version _ => version != ifMatch
  | _ => true

def system : System (State ι) (ι × Action) where
  init s := (∀ row, s.row = some row → row.id = fid) ∧ ∀ i, s.phase i = .start
  enabled s e := (move fid ifMatch s.row (calls e.1) (s.phase e.1) e.2).isSome ∧ e.2.draws ifMatch
  next s e :=
    match move fid ifMatch s.row (calls e.1) (s.phase e.1) e.2 with
    | some (row, phase) => s.goto row e.1 phase
    | none => s

def expected : Call → Phase → Option String
  | .update _, .validated _ _ _ => some ifMatch
  | .delete, .counted cur => some cur.version
  | _, _ => none

def UpToDate (s : State ι) (e : ι × Action) : Prop :=
  match e.2 with
  | .write _ _ => s.row.map (·.version) = expected ifMatch (calls e.1) (s.phase e.1)
  | _ => True

instance (s : State ι) (e : ι × Action) : Decidable ((system fid ifMatch calls).enabled s e) :=
  inferInstanceAs (Decidable (_ ∧ _))

instance (s : State ι) (e : ι × Action) : Decidable (UpToDate ifMatch calls s e) := by
  unfold UpToDate
  split
  · infer_instance
  · infer_instance

end System

def Phase.wrote : Phase → Bool
  | .written => true
  | .updated _ => true
  | .deleted => true
  | _ => false

structure Carries (fid : String) (req : CreateRequest) (row : Row) : Prop where
  id : row.id = fid
  name : row.name = req.name
  transport : row.transport = req.transport
  members : row.members = req.members
  bindings : row.bindings = req.bindings
  validated : ∃ around, validate around fid req = (row.state, row.diagnostics)
  sound : Diag.hasError row.diagnostics = false

def Knows (fid ifMatch name : String) : Call → Phase → Prop
  | .update req, .read _ => ifMatch ≠ "" ∧ name = req.name
  | .update req, .validated _ state ds =>
    (ifMatch ≠ "" ∧ name = req.name) ∧ (∃ around, validate around fid req = (state, ds)) ∧ Diag.hasError ds = false
  | .update _, .counted _ => False
  | .update _, .deleted => False
  | .delete, .read cur => ifMatch ≠ "" → cur.version = ifMatch
  | .delete, .counted cur => ifMatch ≠ "" → cur.version = ifMatch
  | .delete, .validated _ _ _ => False
  | .delete, .written => False
  | .delete, .updated _ => False
  | _, _ => True

section Moves

variable {fid ifMatch name : String} {row row' : Option Row} {call : Call} {phase phase' : Phase} {a : Action}

theorem knows_failed (failure : Failure) : Knows fid ifMatch name call (.failed failure) := by
  cases call with
  | update | delete => trivial

theorem wrote_readRow : (readRow ifMatch row call).wrote = false := by
  unfold readRow
  split
  · split
    · rfl
    split
    · rfl
    split
    · rfl
    split
    · rfl
    · rfl
  split
  · rfl
  split
  · rfl
  · rfl

theorem knows_readRow (hRow : ∀ r, row = some r → r.name = name) : Knows fid ifMatch name call (readRow ifMatch row call) := by
  unfold readRow
  split
  · split
    · trivial
    rename_i hMatch
    split
    · trivial
    split
    · trivial
    split
    · trivial
    next hName => exact ⟨hMatch, (hRow _ rfl).symm.trans (not_not.mp hName).symm⟩
  split
  · trivial
  split
  · trivial
  rename_i cur hVer
  intro hMatch
  by_contra hOther
  exact hVer ⟨hMatch, fun h => hOther h.symm⟩

variable {around : Surroundings} {req : CreateRequest} {cur : Row}

theorem wrote_validateRequest : (validateRequest fid around req cur).wrote = false := by
  unfold validateRequest
  split
  · rfl
  · rfl

inductive Moved (ifMatch : String) (row : Option Row) : Call → Phase → Action → Option Row → Phase → Prop
  | quiet {c p b p'} (hWrote : p'.wrote = false) (hAction : ∀ version now, b ≠ .write version now) :
      Moved ifMatch row c p b row p'
  | got {req view} (hView : row = some view) : Moved ifMatch row (.update req) .written .get row (.updated view)
  | update {req cur state ds version now} :
      Moved ifMatch row (.update req) (.validated cur state ds) (.write version now)
        (updateFabric ifMatch (assign req state ds version now) row) .written
  | delete {cur version now} :
      Moved ifMatch row .delete (.counted cur) (.write version now) (deleteFabric cur.version row) .deleted

section

variable (h : move fid ifMatch row call phase a = some (row', phase'))
include h

theorem moved : Moved ifMatch row call phase a row' phase' := by
  unfold move at h
  split at h
  · cases h
    exact .quiet wrote_readRow (by simp)
  · cases h
    exact .quiet wrote_validateRequest (by simp)
  · cases h
    exact .update
  · split at h
    · cases h
      exact .quiet rfl (by simp)
    · cases h
      exact .got rfl
  · split at h
    · cases h
      exact .quiet rfl (by simp)
    · cases h
      exact .quiet rfl (by simp)
  · cases h
    exact .delete
  · split at h
    · cases h
    · cases h
      exact .quiet rfl (by simp)
  · cases h

theorem move_knows (hRow : ∀ r, row = some r → r.name = name) (hKnows : Knows fid ifMatch name call phase) :
    Knows fid ifMatch name call phase' := by
  unfold move at h
  split at h
  · cases h
    exact knows_readRow hRow
  · cases h
    unfold validateRequest
    split
    · trivial
    next hError => exact ⟨hKnows, ⟨_, rfl⟩, Bool.eq_false_iff.mpr hError⟩
  · cases h
    trivial
  · split at h
    · cases h
      trivial
    · cases h
      trivial
  · split at h
    · cases h
      trivial
    · cases h
      exact hKnows
  · cases h
    trivial
  · split at h
    · cases h
    · cases h
      exact knows_failed _
  · cases h

theorem move_row (hRow : ∀ r, row = some r → r.id = fid ∧ r.name = name) :
    ∀ r, row' = some r → r.id = fid ∧ r.name = name := by
  cases moved h with
  | quiet | got => exact hRow
  | update =>
    intro r hr
    cases row with
    | none => cases hr
    | some old =>
      rw [updateFabric] at hr
      split at hr
      · cases hr
        exact hRow old rfl
      · exact hRow r hr
  | delete =>
    intro r hr
    cases row with
    | none => cases hr
    | some old =>
      rw [deleteFabric] at hr
      split at hr
      · cases hr
      · exact hRow r hr

end

end Moves

section Runs

variable {ι : Type} [DecidableEq ι] {fid ifMatch name : String} {calls : ι → Call} {s : State ι} {w i : ι}

def Effect (fid ifMatch : String) (s : State ι) (phase : Phase) : Call → Prop
  | .update req => ifMatch ≠ "" ∧ ∃ row, s.row = some row ∧ Carries fid req row ∧ row.version ≠ ifMatch ∧
      ∀ view, phase = .updated view → view = row
  | .delete => s.row = none

structure Won (fid ifMatch : String) (calls : ι → Call) (s : State ι) (w : ι) : Prop where
  only : ∀ i, (s.phase i).wrote = true → i = w
  effect : Effect fid ifMatch s (s.phase w) (calls w)

structure Sound (fid ifMatch name : String) (calls : ι → Call) (s : State ι) : Prop where
  row : ∀ row, s.row = some row → row.id = fid ∧ row.name = name
  knows : ∀ i, Knows fid ifMatch name (calls i) (s.phase i)
  winner : (∀ i, (s.phase i).wrote = false) ∨ ∃ w, Won fid ifMatch calls s w

omit [DecidableEq ι] in
theorem Won.version_ne (hWon : Won fid ifMatch calls s w) {v : String} (hv : ifMatch ≠ "" → v = ifMatch) :
    s.row.map (·.version) ≠ some v := by
  have hEffect := hWon.effect
  intro hVer
  cases hCall : calls w with
  | update req =>
    rw [hCall] at hEffect
    obtain ⟨hMatch, row, hRow, _, hOther, _⟩ := hEffect
    rw [hRow] at hVer
    exact hOther ((Option.some.inj hVer).trans (hv hMatch))
  | delete =>
    rw [hCall] at hEffect
    rw [show s.row = none from hEffect] at hVer
    cases hVer

theorem sound_init (h : (system fid ifMatch calls).init s) : ∃ name, Sound fid ifMatch name calls s := by
  obtain ⟨hRow, hPhase⟩ := h
  refine ⟨(s.row.map (·.name)).getD "", fun row hr => ⟨hRow row hr, by rw [hr]; rfl⟩, fun i => ?_, .inl fun i => ?_⟩
  · rw [hPhase i]
    cases calls i with
    | update | delete => trivial
  · rw [hPhase i]
    rfl

theorem wrote_goto {row : Option Row} {phase : Phase} {j : ι} (h : ((s.goto row i phase).phase j).wrote = true) :
    (j = i ∧ phase.wrote = true) ∨ (s.phase j).wrote = true := by
  by_cases hSame : j = i
  · subst hSame
    rw [State.goto_self] at h
    exact .inl ⟨rfl, h⟩
  · rw [State.goto_other _ _ _ hSame] at h
    exact .inr h

theorem Won.goto (hWon : Won fid ifMatch calls s w) {phase : Phase} (hOnly : phase.wrote = true → i = w)
    (hHeld : ∀ view, phase = .updated view → s.row = some view) : Won fid ifMatch calls (s.goto s.row i phase) w := by
  refine ⟨fun j hj => ?_, ?_⟩
  · rcases wrote_goto hj with ⟨rfl, hOwn⟩ | hOther
    · exact hOnly hOwn
    · exact hWon.only j hOther
  have hEffect := hWon.effect
  cases hCall : calls w with
  | delete =>
    rw [hCall] at hEffect
    exact hEffect
  | update req =>
    rw [hCall] at hEffect
    obtain ⟨hMatch, row, hRow, hCarries, hOther, hView⟩ := hEffect
    refine ⟨hMatch, row, hRow, hCarries, hOther, fun view hPhase => ?_⟩
    by_cases hSame : w = i
    · subst hSame
      rw [State.goto_self] at hPhase
      exact Option.some.inj ((hHeld view hPhase).symm.trans hRow)
    · exact hView view (State.goto_other _ _ _ hSame ▸ hPhase)

theorem knows_goto {row' : Option Row} {phase' : Phase} {a : Action}
    (h : move fid ifMatch s.row (calls i) (s.phase i) a = some (row', phase'))
    (hRow : ∀ row, s.row = some row → row.id = fid ∧ row.name = name)
    (hKnows : ∀ j, Knows fid ifMatch name (calls j) (s.phase j)) (j : ι) :
    Knows fid ifMatch name (calls j) ((s.goto row' i phase').phase j) := by
  by_cases hSame : j = i
  · subst hSame
    rw [State.goto_self]
    exact move_knows h (fun r hr => (hRow r hr).2) (hKnows j)
  · rw [State.goto_other _ _ _ hSame]
    exact hKnows j

theorem sound_step {e : ι × Action} (hSound : Sound fid ifMatch name calls s)
    (hOn : (system fid ifMatch calls).enabled s e) (hGuard : UpToDate ifMatch calls s e) :
    Sound fid ifMatch name calls ((system fid ifMatch calls).next s e) := by
  obtain ⟨i, a⟩ := e
  obtain ⟨hMove, hFresh⟩ := hOn
  obtain ⟨⟨row', phase'⟩, hMove⟩ := Option.isSome_iff_exists.mp hMove
  have hNext : (system fid ifMatch calls).next s (i, a) = s.goto row' i phase' := by
    simp only [system, hMove]
  rw [hNext]
  refine ⟨move_row hMove hSound.row, knows_goto hMove hSound.row hSound.knows, ?_⟩
  · have hFirst (hNone : ∀ j, (s.phase j).wrote = false) {j : ι} (hj : ((s.goto row' i phase').phase j).wrote = true) :
        j = i ∧ phase'.wrote = true :=
      (wrote_goto hj).resolve_right (by simp [hNone j])
    have hMoved := moved hMove
    have hKnows := hSound.knows i
    generalize hCall : calls i = call at hMoved hKnows
    generalize hPhase : s.phase i = phase at hMoved hKnows
    cases hMoved with
    | quiet hWrote _ =>
      rcases hSound.winner with hNone | ⟨w, hWon⟩
      · refine .inl fun j => ?_
        by_contra hj
        rw [(hFirst hNone (Bool.eq_true_of_not_eq_false hj)).2] at hWrote
        cases hWrote
      · exact .inr ⟨w, hWon.goto (by simp [hWrote]) fun view h => by rw [h] at hWrote; cases hWrote⟩
    | got hView =>
      have hWrote : (s.phase i).wrote = true := by rw [hPhase]; rfl
      rcases hSound.winner with hNone | ⟨w, hWon⟩
      · rw [hNone i] at hWrote
        cases hWrote
      · exact .inr ⟨w, hWon.goto (fun _ => hWon.only i hWrote) fun view h => by cases h; exact hView⟩
    | @update req cur state ds version now =>
      have hVer : s.row.map (·.version) = some ifMatch := by
        simpa only [UpToDate, hCall, hPhase, expected] using hGuard
      rcases hSound.winner with hNone | ⟨w, hWon⟩
      · refine .inr ⟨i, fun j hj => (hFirst hNone hj).1, ?_⟩
        · obtain ⟨row, hRow, hMatch⟩ := Option.map_eq_some_iff.mp hVer
          obtain ⟨⟨hGiven, hName⟩, hValidated, hErrors⟩ := hKnows
          obtain ⟨hId, hRowName⟩ := hSound.row row hRow
          rw [hCall]
          refine ⟨hGiven, assign req state ds version now row, ?_, ?_, ?_, ?_⟩
          · change updateFabric ifMatch _ s.row = _
            rw [hRow, updateFabric, if_pos hMatch]
          · exact ⟨hId, hRowName.trans hName, rfl, rfl, rfl, hValidated, hErrors⟩
          · simpa [Action.draws, assign] using hFresh
          intro view hWritten
          rw [State.goto_self] at hWritten
          cases hWritten
      · exact absurd hVer (hWon.version_ne fun _ => rfl)
    | @delete cur version now =>
      have hVer : s.row.map (·.version) = some cur.version := by
        simpa only [UpToDate, hCall, hPhase, expected] using hGuard
      rcases hSound.winner with hNone | ⟨w, hWon⟩
      · refine .inr ⟨i, fun j hj => (hFirst hNone hj).1, ?_⟩
        · obtain ⟨row, hRow, hMatch⟩ := Option.map_eq_some_iff.mp hVer
          rw [hCall]
          change deleteFabric cur.version s.row = none
          rw [hRow, deleteFabric, if_pos hMatch]
      · exact absurd hVer (hWon.version_ne hKnows)

theorem sound_of_reachable (h : (system fid ifMatch calls).Reachable (UpToDate ifMatch calls) s) :
    ∃ name, Sound fid ifMatch name calls s :=
  h.invariant (fun _ => sound_init) fun _ _ ⟨name, hSound⟩ hOn hGuard => ⟨name, sound_step hSound hOn hGuard⟩

def Phase.Succeeded (phase : Phase) : Prop := (∃ view, phase = .updated view) ∨ phase = .deleted

theorem Phase.Succeeded.wrote {phase : Phase} (h : phase.Succeeded) : phase.wrote = true := by
  rcases h with ⟨view, rfl⟩ | rfl
  · rfl
  · rfl

/-- While every write finds the version it expects, one call succeeds, and an update that does
leaves and reports what its caller asked for. -/
theorem fabric_writes_exclusive (h : (system fid ifMatch calls).Reachable (UpToDate ifMatch calls) s) :
    (∀ i j, (s.phase i).Succeeded → (s.phase j).Succeeded → i = j) ∧
      ∀ i req view, calls i = .update req → s.phase i = .updated view → s.row = some view ∧ Carries fid req view := by
  obtain ⟨name, hSound⟩ := sound_of_reachable h
  rcases hSound.winner with hNone | ⟨w, hWon⟩
  · refine ⟨fun i j hi _ => ?_, fun i req view _ hPhase => ?_⟩
    · have hWrote := hi.wrote
      rw [hNone i] at hWrote
      cases hWrote
    have hWrote := hNone i
    rw [hPhase] at hWrote
    cases hWrote
  refine ⟨fun i j hi hj => (hWon.only i hi.wrote).trans (hWon.only j hj.wrote).symm, ?_⟩
  intro i req view hCall hPhase
  have hWinner := hWon.only i (by rw [hPhase]; rfl)
  subst hWinner
  have hEffect := hWon.effect
  rw [hCall] at hEffect
  obtain ⟨_, row, hRow, hCarries, _, hView⟩ := hEffect
  rw [hView view hPhase]
  exact ⟨hRow, hCarries⟩

end Runs

def sampleNode : NodeInfo := ⟨.online, .parsed ⟨[⟨"eth0", ["10.0.0.1", "10.0.0.2"]⟩], []⟩⟩

def sampleSurroundings : Surroundings := ⟨[("f", "pair")], fun _ => some sampleNode⟩

def sampleBinding (nodeID address : String) : MemberBinding := ⟨nodeID, "eth0", address, "", none⟩

def sampleRequest (first second : String) : CreateRequest :=
  ⟨"pair", "tcp", [first, second], [sampleBinding first "10.0.0.1", sampleBinding second "10.0.0.2"]⟩

def sampleCalls : Fin 2 → Call := ![.update (sampleRequest "a" "b"), .update (sampleRequest "b" "a")]

def sampleStart : State (Fin 2) := ⟨some ⟨"f", "pair", "tcp", ["a", "b"], [], .incomplete, [], "1", "t0", "t0"⟩, fun _ => .start⟩

theorem sampleStart_init : (system "f" "1" sampleCalls).init sampleStart := by
  refine ⟨?_, fun _ => rfl⟩
  rintro _ ⟨⟩
  rfl

/-- The second call comes after the first one and finds another version. -/
def sampleAlone : List (Fin 2 × Action) :=
  [(0, .read), (0, .validate sampleSurroundings), (0, .write "2" "t1"), (0, .get), (1, .read)]

def sampleOverlap : List (Fin 2 × Action) :=
  [(0, .read), (1, .read), (0, .validate sampleSurroundings), (1, .validate sampleSurroundings),
    (0, .write "2" "t1"), (1, .write "3" "t2"), (0, .get), (1, .get)]

theorem fabric_writes_exclusive_alone : let s := (system "f" "1" sampleCalls).exec sampleStart sampleAlone
    (s.phase 0).Succeeded ∧ (∀ i j, (s.phase i).Succeeded → (s.phase j).Succeeded → i = j) ∧
      ∃ view, s.row = some view ∧ Carries "f" (sampleRequest "a" "b") view := by
  have hMay : (system "f" "1" sampleCalls).Allowed (UpToDate "1" sampleCalls) sampleStart sampleAlone := by
    decide +kernel
  have hPhase : ((system "f" "1" sampleCalls).exec sampleStart sampleAlone).phase 0 = .updated
      ⟨"f", "pair", "tcp", ["a", "b"], [sampleBinding "a" "10.0.0.1", sampleBinding "b" "10.0.0.2"], .ok, [], "2", "t0",
        "t1"⟩ := by
    decide +kernel
  obtain ⟨hOnce, hUpdate⟩ := fabric_writes_exclusive (System.Reachable.of_allowed sampleStart_init hMay)
  exact ⟨.inl ⟨_, hPhase⟩, hOnce, _, hUpdate 0 _ _ rfl hPhase⟩

theorem fabric_update_lost : ∃ s : State (Fin 2), (system "f" "1" sampleCalls).Reachable (fun _ _ => True) s ∧
      ∃ view, s.phase 0 = .updated view ∧ s.phase 1 = .updated view ∧ view.members = ["a", "b"] ∧
        sampleCalls 1 = .update (sampleRequest "b" "a") := by
  have hMay : (system "f" "1" sampleCalls).Allowed (fun _ _ => True) sampleStart sampleOverlap := by
    decide +kernel
  refine ⟨_, System.Reachable.of_allowed sampleStart_init hMay, ⟨"f", "pair", "tcp", ["a", "b"],
    [sampleBinding "a" "10.0.0.1", sampleBinding "b" "10.0.0.2"], .ok, [], "2", "t0", "t1"⟩, ?_, ?_, rfl, rfl⟩
  · decide +kernel
  · decide +kernel

end LocalModelWorks.Fabric
