import Mathlib.Data.List.Sort
import LocalModelWorks.Diag
import LocalModelWorks.Runs.State

/-!
# The state of one deployment

The deployment row (desired and observed state, dispatch phases, run, placement,
diagnostics), its leases, and the service's in-memory tables for it: commands in flight,
reported rank states and acquisition gates. `history` is not part of the service: the
commands the agents accepted and the messages they sent back, newest first.
-/

namespace LocalModelWorks.Deploy

open Runs

abbrev Rank := Nat

abbrev RunID := Nat

abbrev CommandID := Nat

abbrev NodeID := String

/-- Error texts of the agents, searched for substrings. -/
abbrev Text := List Char

inductive Phase
  | none
  | preparing
  | prepared
  | pulled
  | created
  | hostPreparing
  | hostPrepared
  | verifying
  | started
  | stopping
  | stopped
  deriving DecidableEq

def Phase.order : Phase → Nat
  | .none => 0
  | .preparing => 1
  | .prepared => 2
  | .pulled => 3
  | .created => 4
  | .hostPreparing => 5
  | .hostPrepared => 6
  | .verifying => 7
  | .started => 8
  | .stopping => 9
  | .stopped => 10

inductive Op
  | prepare
  | stopPrepare
  | verify
  | stopVerify
  | create
  | hostPrepare
  | start
  | inspect
  | stop
  deriving DecidableEq

inductive Desired
  | running
  | stopped
  deriving DecidableEq

inductive Observed
  | unknown
  | starting
  | healthy
  | degraded
  | failed
  | stopping
  | stopped
  deriving DecidableEq

inductive RankState
  | unset
  | created
  | installing
  | starting
  | observing
  | running
  | ready
  | restarting
  | paused
  | removing
  | stopping
  | degraded
  | offline
  | exited
  | dead
  | missing
  | other (text : String)
  deriving DecidableEq

def RankState.text : RankState → String
  | .unset => ""
  | .created => "created"
  | .installing => "installing"
  | .starting => "starting"
  | .observing => "observing"
  | .running => "running"
  | .ready => "ready"
  | .restarting => "restarting"
  | .paused => "paused"
  | .removing => "removing"
  | .stopping => "stopping"
  | .degraded => "degraded"
  | .offline => "offline"
  | .exited => "exited"
  | .dead => "dead"
  | .missing => "missing"
  | .other text => text

def terminalWorkloadState : RankState → Bool
  | .exited | .dead | .missing => true
  | _ => false

def RankState.armed : RankState → Bool
  | .observing | .running | .ready => true
  | _ => false

structure Placement where
  nodeID : NodeID
  rank : Rank
  deriving DecidableEq

structure PlacementSet where
  entries : List Placement
  ranks : List (NodeID × Rank)
  upstream : Bool
  deriving DecidableEq

def sortRanks (ranks : List Rank) : List Rank := ranks.insertionSort (· ≤ ·)

variable (ps : PlacementSet)

def PlacementSet.allRanks : List Rank :=
  sortRanks (if ps.entries = [] then ps.ranks.map (·.2) else ps.entries.map (·.rank))

def PlacementSet.ranksOnNode (nodeID : NodeID) : List Rank :=
  sortRanks (if ps.entries = [] then (ps.ranks.filter (·.1 = nodeID)).map (·.2)
    else (ps.entries.filter (·.nodeID = nodeID)).map (·.rank))

def PlacementSet.entryFor (rank : Rank) : Option Placement := ps.entries.find? (·.rank = rank)

inductive StartOrder
  | parallel
  | workersFirst
  deriving DecidableEq

structure Recipe where
  prepare : Bool
  verify : Bool
  hostPreparation : Bool
  startOrder : StartOrder
  coordinatorRank : Option Rank
  deriving DecidableEq

structure InflightCmd where
  id : CommandID
  rank : Rank
  op : Op
  deriving DecidableEq

structure Command where
  id : CommandID
  run : RunID
  rank : Rank
  op : Op
  deriving DecidableEq

def Command.entry (c : Command) : InflightCmd := ⟨c.id, c.rank, c.op⟩

structure CommandResult where
  ok : Bool
  error : Text
  containerID : String
  containerState : RankState
  exitCode : Int
  oomKilled : Bool
  deriving DecidableEq

structure StateUpdate where
  runID : RunID
  rank : Rank
  state : RankState
  containerID : String
  diagnosticMessage : Text
  exitCode : Int
  oomKilled : Bool
  deriving DecidableEq

inductive Fact
  | sent (c : Command)
  | answered (c : Command) (cr : CommandResult)
  | reported (run : RunID) (rank : Rank) (state : RankState)
  deriving DecidableEq

inductive Stage
  | reading
  | acquiring
  | acquired
  | skipped
  deriving DecidableEq

structure Gate where
  pending : Bool
  runID : RunID
  placement : Option Placement
  stage : Stage
  deriving DecidableEq

structure Deployment where
  recipe : Recipe
  placement : PlacementSet
  desired : Desired
  observed : Observed
  dispatch : Rank → Phase
  diagnostics : List Diag.Diagnostic
  runID : RunID
  runs : RunID → State
  leases : Bool
  rankStates : Rank → RankState
  inflight : List InflightCmd
  gates : Rank → Option Gate
  nextID : CommandID
  history : List Fact

namespace Deployment

variable (s : Deployment) (rank : Rank)

def setPhase (target : Phase) : Deployment :=
  { s with dispatch := Function.update s.dispatch rank target }

def setRankState (state : RankState) : Deployment :=
  { s with rankStates := Function.update s.rankStates rank state }

/-- `SetState` on the current run; its error is dropped by every caller here. -/
def setRun (new : State) : Deployment :=
  if canTransition (s.runs s.runID) new then { s with runs := Function.update s.runs s.runID new } else s

def setStopping (diagnostics : List Diag.Diagnostic) : Deployment :=
  { s with desired := .stopped, observed := .stopping, diagnostics := diagnostics }

def releaseLeases : Deployment := { s with leases := false }

def inflightMark (op : Op) : Deployment :=
  { s with inflight := ⟨s.nextID, rank, op⟩ :: s.inflight, nextID := s.nextID + 1 }

def inflightHas (op : Op) : Bool :=
  s.inflight.any fun command => command.rank = rank && command.op = op

def inflightDrop (ops : List Op) : Deployment :=
  { s with inflight := s.inflight.filter fun command => !(command.rank = rank && ops.contains command.op) }

def inflightTake (id : CommandID) : Deployment :=
  { s with inflight := s.inflight.filter (·.id ≠ id) }

def record (fact : Fact) : Deployment := { s with history := fact :: s.history }

def noteDispatch (d : Diag.Diagnostic) : Deployment :=
  { s with diagnostics := Diag.upsert s.diagnostics d }

def setObserved (observed : Observed) : Deployment := { s with observed := observed }

def setGate (gate : Option Gate) : Deployment :=
  { s with gates := Function.update s.gates rank gate }

end Deployment

end LocalModelWorks.Deploy
