import LocalModelWorks.Deploy.State

/-!
# Driving one rank

The per-rank state machine: what is sent in each phase while the deployment should run and
while it should stop, and how a failure or a completed stop is settled.
-/

namespace LocalModelWorks.Deploy

structure Env where
  manifestErr : Option String
  workloadErr : Option String
  specErr : Option String
  extensionErr : Option String
  send : CommandID → Bool
  ready : Bool
  readyDetail : String
  online : NodeID → Bool

def Env.calm : Env := ⟨none, none, none, none, fun _ => true, true, "", fun _ => true⟩

def Env.accepts (env : Env) (pl : Option Placement) (id : CommandID) : Bool := pl.isSome && env.send id

def nodeOf (pl : Option Placement) : NodeID := (pl.map (·.nodeID)).getD ""

namespace Deployment

variable (env : Env) (s : Deployment)

def releaseIfTerminal : Deployment := if (s.runs s.runID).terminal then s.releaseLeases else s

variable (rank : Rank)

def failDispatch (code message : String) : Deployment :=
  (((s.noteDispatch ((Diag.error code s!"rank {rank}: {message}").res s!"rank:{rank}")).setObserved .failed).setRun
    .failed).releaseIfTerminal

variable (pl : Option Placement) (op : Op)

def sendWorkload : Deployment :=
  if env.accepts pl s.nextID then (s.inflightMark rank op).record (.sent ⟨s.nextID, s.runID, rank, op⟩)
  else s.inflightMark rank op

def enterExtension : Deployment :=
  if op = .prepare then s.setPhase rank .preparing else (s.setPhase rank .verifying).setRun .verifying

def sendExtension : Deployment × Option String :=
  if s.inflightHas rank op then (s, none)
  else match env.extensionErr with
    | some e => (s, some e)
    | none =>
      let node := nodeOf pl
      (sendWorkload env (s.enterExtension rank op) rank pl op,
        if env.accepts pl s.nextID then none else some s!"node {node} is offline")

def stopExtension : Deployment :=
  if s.inflightHas rank op then s
  else
    let node := nodeOf pl
    let sent := sendWorkload env (s.inflightDrop rank [.prepare, .verify]) rank pl op
    if env.accepts pl s.nextID then sent
    else sent.noteDispatch (Diag.error "workload.node_offline" s!"node {node} offline; extension stop paused")

def checkStopComplete : Deployment :=
  if s.placement.allRanks.all (fun rank => s.dispatch rank = .stopped) then
    let ended := if (s.runs s.runID).terminal then s else s.setRun .cancelled
    ((ended.setStopping (Diag.compact s.diagnostics)).releaseLeases).setObserved .stopped
  else s

def dispatchStopped : Deployment :=
  match s.dispatch rank with
  | .preparing => stopExtension env s rank pl .stopPrepare
  | .prepared | .none => (s.setPhase rank .stopped).checkStopComplete
  | .verifying => stopExtension env s rank pl .stopVerify
  | .hostPreparing => if s.inflightHas rank .hostPrepare then s else sendWorkload env s rank pl .stop
  | .pulled | .created | .hostPrepared | .stopping => sendWorkload env s rank pl .stop
  | .started => sendWorkload env (s.setPhase rank .stopping) rank pl .stop
  | .stopped => s

def wake : Deployment :=
  match s.gates rank with
  | some gate => s.setGate rank (some { gate with pending := true })
  | none => s.setGate rank (some ⟨false, s.runID, pl, .reading⟩)

def dispatchNext : Deployment :=
  match s.desired with
  | .running => s.wake rank pl
  | .stopped => dispatchStopped env s rank pl

def startReady : Bool :=
  match s.recipe.coordinatorRank with
  | some coordinator =>
    rank ≠ coordinator || s.placement.entries.all fun pl =>
      pl.rank = rank || (s.dispatch pl.rank = .started && (s.rankStates pl.rank).armed)
  | none =>
    rank ≠ 0 || s.recipe.startOrder ≠ .workersFirst || s.placement.entries.all fun pl =>
      !(0 < pl.rank && s.dispatch pl.rank ≠ .started)

def workerStartReady : Except String Bool :=
  match env.workloadErr with
  | some e => .error e
  | none => .ok (s.startReady rank)

def dispatchNone : Deployment :=
  match env.manifestErr with
  | some e => s.failDispatch rank "recipe.manifest" e
  | none =>
    if s.recipe.prepare then
      match sendExtension env s rank pl .prepare with
      | (sent, some e) => sent.failDispatch rank "extension.prepare_failed" e
      | (sent, none) => sent
    else dispatchNext env (s.setPhase rank .prepared) rank pl

def resumeExtension (declared : Bool) (code unavailable : String) : Deployment :=
  if env.manifestErr.isSome || !declared then s.failDispatch rank code unavailable
  else match sendExtension env s rank pl op with
    | (sent, some e) => sent.noteDispatch (Diag.error code e)
    | (sent, none) => sent

def dispatchPulled : Deployment :=
  match env.specErr with
  | some e => s.noteDispatch (Diag.error "artifact.mount_missing" e)
  | none => sendWorkload env s rank pl .create

def dispatchCreated : Deployment :=
  if s.inflightHas rank .hostPrepare then s
  else match env.specErr with
    | some e => s.failDispatch rank "host.prepare_spec" e
    | none =>
      if s.recipe.hostPreparation then
        let node := nodeOf pl
        let sent := sendWorkload env (s.setPhase rank .hostPreparing) rank pl .hostPrepare
        if env.accepts pl s.nextID then sent
        else sent.noteDispatch (Diag.error "workload.node_offline"
          s!"node {node} offline; host preparation paused until reconnect")
      else dispatchNext env (s.setPhase rank .hostPrepared) rank pl

def dispatchHostPrepared : Deployment :=
  match workerStartReady env s rank with
  | .error e => s.failDispatch rank "workload.start_order" e
  | .ok false => s
  | .ok true => match env.specErr with
    | some e => s.failDispatch rank "workload.start_spec" e
    | none => sendWorkload env s rank pl .start

def dispatchRunning : Deployment :=
  match s.dispatch rank with
  | .none => dispatchNone env s rank pl
  | .preparing => resumeExtension env s rank pl .prepare s.recipe.prepare "extension.prepare_failed"
      "prepare extension is unavailable"
  | .prepared => dispatchNext env (s.setPhase rank .pulled) rank pl
  | .pulled => dispatchPulled env s rank pl
  | .created | .hostPreparing => dispatchCreated env s rank pl
  | .hostPrepared => dispatchHostPrepared env s rank pl
  | .started => sendWorkload env s rank pl .inspect
  | .verifying => resumeExtension env s rank pl .verify s.recipe.verify "extension.verify_failed"
      "verify extension is unavailable"
  | .stopping | .stopped => s

def dispatchReady : Deployment :=
  match s.desired with
  | .running => dispatchRunning env s rank pl
  | .stopped => dispatchStopped env s rank pl

def dispatchRank : Deployment :=
  match s.placement.entryFor rank with
  | some pl => dispatchNext env s rank (some pl)
  | none => s

def dispatchRanks (ranks : List Rank) : Deployment := ranks.foldl (dispatchRank env) s

def wakeWorkerFirstHead : Deployment :=
  if s.dispatch 0 = .hostPrepared then dispatchRank env s 0 else s

end Deployment

end LocalModelWorks.Deploy
