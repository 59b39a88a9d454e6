import Mathlib.Data.List.Chain
import LocalModelWorks.Transition
import LocalModelWorks.Runs.State

/-!
# Interleaved state changes of one run

`SetState` reads the row, checks the transition graph and then writes, in two separate
database statements.
-/

namespace LocalModelWorks.Runs.Interleaving

open Transition

inductive Call
  | setState (target : State)
  | cancel
  | complete (target : State)
  | markInterrupted

inductive Pending
  | list
  | check
  | read (target : State)
  | write (old target : State)
  | returned
  deriving DecidableEq

structure Ledger where
  oneShot : Bool
  state : State
  persisted : List State
  calls : Nat → Pending

def Call.entry : Call → Pending
  | .setState target => .read target
  | .cancel => .check
  | .complete target => .read target
  | .markInterrupted => .list

inductive Event
  | begin (id : Nat) (call : Call)
  | resume (id : Nat)
  | abort (id : Nat)

variable (s : Ledger) (id : Nat)

def Ledger.setCall (p : Pending) : Ledger := { s with calls := Function.update s.calls id p }

def Ledger.resume : Ledger :=
  match s.calls id with
  | .returned => s
  -- ListNonTerminalRuns returns the row, and IsOneShot keeps it
  | .list => s.setCall id (if !s.state.terminal && s.oneShot then .read .interrupted else .returned)
  -- Cancel refuses a terminal row and goes on to SetState(Cancelling)
  | .check => s.setCall id (if s.state.terminal then .returned else .read .cancelling)
  | .read target => s.setCall id (if canTransition s.state target then .write s.state target else .returned)
  | .write _ target => { s.setCall id .returned with state := target, persisted := target :: s.persisted }

def Ledger.next : Event → Ledger
  | .begin id call => s.setCall id call.entry
  | .resume id => s.resume id
  -- a statement that errors ends its call without a write
  | .abort id => s.setCall id .returned

def system : System Ledger Event where
  init s := s.persisted = [s.state] ∧ ∀ id, s.calls id = .returned
  enabled s
    | .begin id _ => s.calls id = .returned
    | .resume _ | .abort _ => True
  next := Ledger.next

/-- A write finds the row as its own call read it: no other call wrote in between. -/
def Undisturbed : Event → Prop
  | .begin _ _ | .abort _ => True
  | .resume id => ∀ old target, s.calls id = .write old target → s.state = old

/-- Consecutive persisted states follow an edge or repeat, and nothing follows a terminal state
but that state. -/
def FollowsGraph (persisted : List State) : Prop :=
  persisted.IsChain (fun new old => old = new ∨ canTransition old new = true) ∧
  ∀ later old earlier, persisted = later ++ old :: earlier → old.terminal = true → ∀ s ∈ later, s = old

structure Consistent (s : Ledger) : Prop where
  current : s.persisted.head? = some s.state
  checked : ∀ id old target, s.calls id = .write old target → canTransition old target = true
  follows : FollowsGraph s.persisted

theorem FollowsGraph.singleton (s : State) : FollowsGraph [s] := by
  refine ⟨.singleton s, ?_⟩
  intro later old earlier hEq hEnd x hx
  cases later with
  | nil => cases hx
  | cons y ys => simp at hEq

theorem FollowsGraph.cons {persisted : List State} {old new : State} (hFollows : FollowsGraph persisted)
    (hHead : persisted.head? = some old) (hEdge : canTransition old new = true) :
    FollowsGraph (new :: persisted) := by
  cases persisted with
  | nil => cases hHead
  | cons x rest =>
    cases hHead
    refine ⟨.cons_cons (.inr hEdge) hFollows.1, ?_⟩
    intro later y earlier hEq hEnd z hz
    cases later with
    | nil => cases hz
    | cons w later =>
      -- a terminal state below the head would force the head to repeat it
      simp only [List.cons_append, List.cons.injEq] at hEq
      obtain ⟨rfl, hEq⟩ := hEq
      have hRest := hFollows.2 later y earlier hEq hEnd
      have hOld : old = y := by
        cases later with
        | nil => exact (List.cons.inj hEq).1
        | cons v later => exact hRest old ((List.cons.inj hEq).1 ▸ List.mem_cons_self)
      rw [canTransition_of_terminal (hOld ▸ hEnd)] at hEdge
      cases hEdge

theorem Consistent.setCall {s : Ledger} (hs : Consistent s) (id : Nat) (p : Pending)
    (hChecked : ∀ old target, p = .write old target → canTransition old target = true) : Consistent (s.setCall id p) where
  current := hs.current
  checked j old target hCall := by
    by_cases hj : j = id
    · subst hj
      exact hChecked old target (by simpa [Ledger.setCall] using hCall)
    · exact hs.checked j old target (by simpa [Ledger.setCall, Function.update_of_ne hj] using hCall)
  follows := hs.follows

theorem Consistent.resume {s : Ledger} (hs : Consistent s) (id : Nat)
    (hGuard : Undisturbed s (.resume id)) : Consistent (s.resume id) := by
  unfold Ledger.resume
  split
  · exact hs
  · apply hs.setCall
    intro old target hEq
    split at hEq <;> cases hEq
  · apply hs.setCall
    intro old target hEq
    split at hEq <;> cases hEq
  next target hCall =>
    apply hs.setCall
    intro old target' hEq
    split at hEq
    next hEdge =>
      cases hEq
      exact hEdge
    · cases hEq
  next old target hCall =>
    have hEdge := hs.checked id old target hCall
    have hOld := hGuard old target hCall
    have hReturned : Consistent (s.setCall id .returned) := hs.setCall id .returned (fun _ _ h => by cases h)
    exact ⟨rfl, hReturned.checked, hs.follows.cons (hOld ▸ hs.current) hEdge⟩

theorem consistent_of_reachable {s : Ledger} (hReach : system.Reachable Undisturbed s) : Consistent s := by
  apply hReach.invariant
  · rintro s ⟨hPersisted, hCalls⟩
    refine ⟨by rw [hPersisted]; rfl, ?_, hPersisted ▸ FollowsGraph.singleton _⟩
    intro id old target hCall
    rw [hCalls id] at hCall
    cases hCall
  intro s e hs _ hGuard
  cases e with
  | begin id call =>
    apply hs.setCall
    intro old target hEq
    cases call <;> cases hEq
  | resume id => exact hs.resume id hGuard
  | abort id => exact hs.setCall id .returned (fun _ _ hEq => by cases hEq)

/-- As long as no write lands between another call's read and write, the persisted states
follow the transition graph and a terminal state is never left. -/
theorem persisted_follows_graph {s : Ledger} (hReach : system.Reachable Undisturbed s) : FollowsGraph s.persisted :=
  (consistent_of_reachable hReach).follows

def runningJob : Ledger := ⟨true, .running, [.running], fun _ => .returned⟩

def serialCalls : List Event :=
  [.begin 0 (.complete .failed), .begin 1 .cancel, .resume 0, .resume 0, .resume 1, .resume 1]

theorem persisted_follows_graph_serial : (system.exec runningJob serialCalls).persisted = [.failed, .running] ∧
    FollowsGraph (system.exec runningJob serialCalls).persisted :=
  ⟨by decide, persisted_follows_graph (.of_allowed ⟨rfl, fun _ => rfl⟩ (by
    simp [System.Allowed, system, serialCalls, Undisturbed, Ledger.next, Ledger.resume, Ledger.setCall,
      runningJob, Call.entry, State.terminal, canTransition, transitions]))⟩

def racingCalls : List Event :=
  [.begin 0 (.setState .verifying), .begin 1 (.complete .failed), .resume 0, .resume 1, .resume 1, .resume 0]

theorem racing_calls_leave_terminal_state : ¬ ∀ s, system.Reachable (fun _ _ => True) s → FollowsGraph s.persisted := by
  intro h
  have hReach : system.Reachable (fun _ _ => True) (system.exec runningJob racingCalls) := by
    refine .of_allowed ⟨rfl, fun _ => rfl⟩ ?_
    simp [System.Allowed, system, racingCalls, Ledger.next, Ledger.setCall, runningJob]
  have hFollows := h _ hReach
  exact absurd (hFollows.2 [.verifying] .failed [.running] rfl rfl .verifying List.mem_cons_self) (by decide)

end LocalModelWorks.Runs.Interleaving
