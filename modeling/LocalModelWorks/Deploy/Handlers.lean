import Mathlib.Data.List.Infix
import LocalModelWorks.Transition
import LocalModelWorks.Deploy.Dispatch

/-!
# Handlers of the deployment service

Command results, state reports, stop, start, reconnect and disconnect, and the acquisition
gate between the phases of a running rank.
-/

namespace LocalModelWorks.Deploy

open Runs Transition Diag
open String (ofList)

def isContainerExists (msg : Text) : Bool := "exists".toList <:+: msg

def isAlreadyRunning (msg : Text) : Bool := "already running".toList <:+: msg || "already started".toList <:+: msg

def isContainerMissing (msg : Text) : Bool := "missing".toList <:+: msg || "no such".toList <:+: msg

def workloadFailure (su : StateUpdate) : String × String :=
  let rank := su.rank
  let container := su.containerID
  let state := su.state.text
  let exitCode := su.exitCode
  let oomKilled := su.oomKilled
  let detail := ofList su.diagnosticMessage
  (if su.oomKilled then "workload.oom_killed" else s!"workload.{state}",
    "; ".intercalate ([s!"rank {rank}"] ++ (if container = "" then [] else [s!"container {container}"]) ++
      [s!"state={state}"] ++ (if su.state = .exited ∨ su.state = .dead then [s!"exit_code={exitCode}"] else []) ++
      [s!"oom_killed={oomKilled}"] ++ (if su.diagnosticMessage = [] then [] else [s!"error={detail}"])))

def mapObserved (state : RankState) (diagnostic : Text) : Diagnostic :=
  match state with
  | .running =>
    if diagnostic = [] then info "workload.healthy" "container running"
    else error "workload.degraded" (ofList diagnostic)
  | .paused => error "workload.paused" "container paused"
  | .exited => error "workload.exited" "container exited"
  | .restarting => info "workload.restarting" "container restarting"
  | .installing | .starting | .observing =>
    if diagnostic = [] then info "upstream.starting" "upstream lifecycle is still preparing the service"
    else info "upstream.starting" (ofList diagnostic)
  | .created => info "workload.created" "container created, awaiting start"
  | .removing => info "workload.removing" "container removing"
  | .dead => error "workload.dead" "container in dead state"
  | .missing => error "workload.missing" "container no longer exists"
  | _ => info "workload.unknown_state" state.text

namespace Deployment

variable (env : Env) (s : Deployment)

def aggregateRankState : Observed :=
  let count (p : RankState → Bool) := s.placement.entries.countP fun pl => p (s.rankStates pl.rank)
  let ready := count (· = .ready)
  let active := count (· = .running) + ready
  let offline := count (· = .offline)
  let preparing := count ([.created, .installing, .starting, .observing, .restarting, .unset].contains ·)
  let failed := count ([.degraded, .exited, .dead, .missing].contains ·)
  if s.placement.entries = [] then .unknown
  else if 0 < ready ∧ active = s.placement.entries.length then .healthy
  else if 0 < failed ∨ (0 < active ∧ 0 < offline) then .degraded
  else if 0 < active ∨ 0 < preparing then .starting
  else .unknown

variable (su : StateUpdate)

def failWorkload : Deployment :=
  let (code, message) := workloadFailure su
  let rank := su.rank
  let stopping := s.setStopping (upsert s.diagnostics ((error code message).res s!"rank:{rank}"))
  let down := (stopping.setRankState su.rank su.state).setPhase su.rank .stopped
  let ended := if (down.runs down.runID).terminal then down else down.setRun .failed
  (dispatchRanks env ended (s.placement.allRanks.filter (· ≠ su.rank))).checkStopComplete

def observation : RankState × Diagnostic :=
  if su.diagnosticMessage ≠ [] then (.degraded, mapObserved su.state su.diagnosticMessage)
  else if su.state = .running ∧ su.rank = 0 then
    if env.ready then (.ready, info "workload.healthy" "readiness probe passed")
    else (.created, info "workload.readiness_pending" env.readyDetail)
  else (su.state, mapObserved su.state su.diagnosticMessage)

def observe : Deployment :=
  let rank := su.rank
  let (rankState, d) := observation env su
  let seen := s.setRankState su.rank rankState
  let observed := seen.aggregateRankState
  let noted := { seen with observed := observed, diagnostics := upsert s.diagnostics (d.res s!"rank:{rank}") }
  let woken := if su.state = .observing ∨ su.state = .running then wakeWorkerFirstHead env noted else noted
  if observed = .healthy ∧ s.placement.upstream then woken.setRun .running else woken

def onStateUpdate : Deployment :=
  if s.runID ≠ su.runID then s
  else match s.desired with
    | .stopped =>
      if terminalWorkloadState su.state then
        ((s.setRankState su.rank su.state).setPhase su.rank .stopped).checkStopComplete
      else if s.dispatch su.rank = .stopped ∧ ¬ [RankState.running, .paused, .restarting].contains su.state then s
      else
        let stopping := ((s.setRankState su.rank .stopping).setPhase su.rank .stopping).setStopping s.diagnostics
        dispatchNext env stopping su.rank (s.placement.entryFor su.rank)
    | .running => if terminalWorkloadState su.state then failWorkload env s su else observe env s su

variable (rank : Rank)

def advance (target : Phase) : Deployment :=
  dispatchNext env (s.setPhase rank target) rank (s.placement.entryFor rank)

def settleStopped : Deployment := (s.setPhase rank .stopped).checkStopComplete

variable (cr : CommandResult)

def onCreateResult : Deployment :=
  if !cr.ok && !isContainerExists cr.error then
    match s.desired with
    | .stopped => s.settleStopped rank
    | .running => s.failDispatch rank "workload.create_failed" (ofList cr.error)
  else match s.desired with
    | .stopped => advance env s rank .stopping
    | .running => advance env s rank .created

def onHostPrepareResult : Deployment :=
  match s.desired with
  | .stopped => advance env s rank .stopping
  | .running =>
    if cr.ok then advance env s rank .hostPrepared
    else s.failDispatch rank "host.prepare_failed" (ofList cr.error)

def startAccepted : Bool := cr.ok || isContainerExists cr.error || isAlreadyRunning cr.error

def onStartResult : Deployment :=
  match s.desired with
  | .stopped => advance env s rank .stopping
  | .running =>
    if startAccepted cr then
      match env.manifestErr with
      | some e => s.failDispatch rank "recipe.manifest" e
      | none =>
        if s.recipe.verify then advance env s rank .verifying
        else
          let started := s.setPhase rank .started
          let running := if s.placement.upstream then started else started.setRun .running
          wakeWorkerFirstHead env (dispatchNext env running rank (s.placement.entryFor rank))
    else s.failDispatch rank "workload.start_failed" (ofList cr.error)

def onVerifyResult : Deployment :=
  if cr.ok then
    let running := (s.setPhase rank .started).setRun .running
    wakeWorkerFirstHead env (dispatchNext env running rank (s.placement.entryFor rank))
  else s.failDispatch rank "extension.verify_failed" (ofList cr.error)

def onInspectResult : Deployment :=
  if cr.ok then
    onStateUpdate env s ⟨s.runID, rank, cr.containerState, cr.containerID, cr.error, cr.exitCode, cr.oomKilled⟩
  else if isContainerMissing cr.error then
    onStateUpdate env s ⟨s.runID, rank, .missing, "", cr.error, 0, false⟩
  else s

def onStopResult : Deployment :=
  let msg := ofList cr.error
  if cr.ok || isContainerMissing cr.error then s.settleStopped rank
  else s.noteDispatch ((error "workload.stop_failed" s!"rank {rank}: {msg}").res s!"rank:{rank}")

def settle (op : Op) (cr : CommandResult) : Deployment :=
  match op with
  | .prepare =>
    if cr.ok then advance env s rank .prepared
    else s.failDispatch rank "extension.prepare_failed" (ofList cr.error)
  | .stopPrepare =>
    if cr.ok then s.settleStopped rank else s.failDispatch rank "extension.stop_failed" (ofList cr.error)
  | .stopVerify =>
    if cr.ok then advance env s rank .started
    else s.failDispatch rank "extension.stop_failed" (ofList cr.error)
  | .verify => onVerifyResult env s rank cr
  | .create => onCreateResult env s rank cr
  | .hostPrepare => onHostPrepareResult env s rank cr
  | .start => onStartResult env s rank cr
  | .inspect => onInspectResult env s rank cr
  | .stop => onStopResult s rank cr

/-- Results are matched through the in-flight table; a rank whose stop is confirmed ignores them. -/
def onCommandResult (id : CommandID) (cr : CommandResult) : Deployment :=
  match s.inflight.find? (·.id = id) with
  | none => s
  | some command =>
    if s.dispatch command.rank = .stopped ∧ s.desired = .stopped then s.inflightTake id
    else settle env (s.inflightTake id) command.rank command.op cr

def driveStop : Deployment := (dispatchRanks env s s.placement.allRanks).checkStopComplete

/-- A cancel that the run's state refuses ends the call with the deployment marked stopping. -/
def stop : Deployment :=
  if s.desired = .stopped ∧ s.observed = .stopped then s
  else
    let stopping := s.setStopping s.diagnostics
    if s.desired = .running ∧ (s.runs s.runID).terminal = false then
      if canTransition (s.runs s.runID) .cancelling then driveStop env (stopping.setRun .cancelling) else stopping
    else driveStop env stopping

variable (plan : PlacementSet)

def launch : Deployment :=
  plan.entries.foldl (fun t pl => dispatchNext env t pl.rank (some pl)) ((s.setRun .planning).setRun .waiting)

/-- The transaction of `Start`: the phases are reset, the in-memory tables are not. -/
def restartRow : Deployment :=
  { s with
    placement := plan
    desired := .running
    observed := .unknown
    dispatch := fun _ => .none
    diagnostics := []
    runID := s.runID + 1
    runs := Function.update s.runs (s.runID + 1) .queued
    leases := true }

def start : Deployment :=
  if s.desired = .stopped ∧ s.observed = .stopped then launch env (s.restartRow plan) plan else s

variable (nodeID : NodeID)

def converge : Deployment :=
  if s.observed = .stopped ∧ s.desired = .stopped then { s with diagnostics := compact s.diagnostics }
  else if s.placement.ranksOnNode nodeID = [] then s
  else
    let driven := dispatchRanks env s (s.placement.ranksOnNode nodeID)
    if s.desired = .stopped then driven.checkStopComplete else driven

def markNodeOffline : Deployment :=
  let ranks := s.placement.ranksOnNode nodeID
  let listed := " ".intercalate (ranks.map toString)
  if s.desired = .stopped ∨ ranks = [] then s
  else
    let otherOnline := s.placement.entries.any fun pl => pl.nodeID ≠ nodeID && env.online pl.nodeID
    let offline := ranks.foldl (fun t rank => t.setRankState rank .offline) s
    { offline with
      observed := if otherOnline then .degraded else .unknown
      diagnostics := upsert s.diagnostics
        ((error "agent.offline" s!"node {nodeID} offline; ranks [{listed}] unresolved").res nodeID) }

variable (gate : Gate)

def authorizes : Bool := s.desired = .running && s.runID = gate.runID

def gateEnter : Deployment :=
  match s.gates rank with
  | none => s
  | some gate =>
    let stage : Stage :=
      if s.authorizes gate then
        match s.dispatch rank with
        | .started | .stopped | .prepared => .acquired
        | _ => .acquiring
      else .skipped
    s.setGate rank (some { gate with stage := stage })

variable (err : Option String)

def gateDispatch : Deployment :=
  if gate.stage ≠ .skipped ∧ s.authorizes gate then
    match err with
    | some e => stop env (s.failDispatch rank "acquisition.unavailable" e)
    | none => dispatchReady env s rank gate.placement
  else s

def gateClose : Deployment :=
  match s.gates rank with
  | none => s
  | some gate =>
    if gate.pending ∧ err = none then s.setGate rank (some { gate with pending := false, stage := .reading })
    else s.setGate rank none

def gateLeave : Deployment :=
  match s.gates rank with
  | none => s
  | some gate => (gateDispatch env s rank gate err).gateClose rank err

def restart : Deployment :=
  { s with inflight := [], rankStates := fun _ => .unset, gates := fun _ => none }

variable (recipe : Recipe)

def plannedRow (plan : PlacementSet) : Deployment where
  recipe := recipe
  placement := plan
  desired := .running
  observed := .unknown
  dispatch _ := .none
  diagnostics := []
  runID := 0
  runs _ := .queued
  leases := true
  rankStates _ := .unset
  inflight := []
  gates _ := none
  nextID := 0
  history := []

def createPlanned (plan : PlacementSet) : Deployment := launch env (plannedRow recipe plan) plan

end Deployment

inductive Event
  | result (env : Env) (c : Command) (cr : CommandResult)
  | report (env : Env) (su : StateUpdate)
  | stop (env : Env)
  | start (env : Env) (plan : PlacementSet)
  | converge (env : Env) (nodeID : NodeID)
  | markNodeOffline (env : Env) (nodeID : NodeID)
  | gateEnter (rank : Rank)
  | gateLeave (env : Env) (rank : Rank) (err : Option String)
  | restart

open Deployment in
def next (s : Deployment) : Event → Deployment
  | .result env c cr => onCommandResult env (s.record (.answered c cr)) c.id cr
  | .report env su => onStateUpdate env (s.record (.reported su.runID su.rank su.state)) su
  | .stop env => stop env s
  | .start env plan => start env s plan
  | .converge env nodeID => converge env s nodeID
  | .markNodeOffline env nodeID => markNodeOffline env s nodeID
  | .gateEnter rank => s.gateEnter rank
  | .gateLeave env rank err => gateLeave env s rank err
  | .restart => s.restart

/-- Results answer commands an agent accepted, any number of times and in any order. Only a gate that
acquires can fail to. -/
def system : System Deployment Event where
  init s := ∃ env recipe plan, s = Deployment.createPlanned env recipe plan
  enabled s
    | .result _ c _ => Fact.sent c ∈ s.history
    | .gateEnter rank => ∃ gate ∈ s.gates rank, gate.stage = .reading
    | .gateLeave _ rank err => ∃ gate ∈ s.gates rank, gate.stage = .acquiring ∨ (gate.stage ≠ .reading ∧ err = none)
    | _ => True
  next := next

instance (s : Deployment) (e : Event) : Decidable (system.enabled s e) :=
  match e with
  | .result _ c _ => inferInstanceAs (Decidable (Fact.sent c ∈ s.history))
  | .gateEnter rank => inferInstanceAs (Decidable (∃ gate ∈ s.gates rank, gate.stage = .reading))
  | .gateLeave _ rank err => inferInstanceAs (Decidable
      (∃ gate ∈ s.gates rank, gate.stage = .acquiring ∨ (gate.stage ≠ .reading ∧ err = none)))
  | .report .. | .stop .. | .start .. | .converge .. | .markNodeOffline .. | .restart => inferInstanceAs (Decidable True)

abbrev DeploymentID := String

def service : System (DeploymentID → Deployment) (System.FamilyEvent DeploymentID Event) := system.family DeploymentID

end LocalModelWorks.Deploy
