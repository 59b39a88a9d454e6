import Mathlib.Data.List.Basic

/-!
# Run states and the transition graph

The states of one ledger row and the graph that `SetState` checks. Terminal
states have no outgoing edge, and every other state can fail or be interrupted.
-/

namespace LocalModelWorks.Runs

inductive State
  | queued
  | planning
  | waiting
  | running
  | verifying
  | succeeded
  | failed
  | cancelling
  | cancelled
  | interrupted
  deriving DecidableEq

def State.text : State → String
  | .queued => "queued"
  | .planning => "planning"
  | .waiting => "waiting"
  | .running => "running"
  | .verifying => "verifying"
  | .succeeded => "succeeded"
  | .failed => "failed"
  | .cancelling => "cancelling"
  | .cancelled => "cancelled"
  | .interrupted => "interrupted"

def State.terminal : State → Bool
  | .succeeded | .failed | .cancelled | .interrupted => true
  | _ => false

def transitions : State → List State
  | .queued => [.planning, .waiting, .running, .cancelling, .failed, .interrupted]
  | .planning => [.waiting, .running, .verifying, .cancelling, .failed, .interrupted]
  | .waiting => [.running, .cancelling, .failed, .interrupted]
  | .running => [.verifying, .cancelling, .failed, .interrupted]
  | .verifying => [.succeeded, .failed, .cancelling, .interrupted]
  | .cancelling => [.cancelled, .failed, .interrupted]
  | _ => []

def canTransition (old new : State) : Bool := (transitions old).any (· == new)

/-- A run kind that cannot outlive its work: on controller restart its nonterminal runs
become interrupted. -/
def isOneShot (kind : String) : Bool := kind != "serve" && kind != "recipe-update"

theorem canTransition_of_terminal {old : State} (hEnd : old.terminal = true) (new : State) :
    canTransition old new = false := by
  cases old <;> first | rfl | cases hEnd

end LocalModelWorks.Runs
