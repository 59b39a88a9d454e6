import LocalModelWorks.Deploy.Calls

/-!
# Run isolation

The in-flight table names a deployment, a rank and an operation, but no run.
-/

namespace LocalModelWorks.Deploy

open Transition Deployment

def StartsDrained (s : Deployment) (e : Event) : Prop := ¬ startsUndrained s e

structure SameRun (s t : Deployment) : Prop where
  dispatch : t.dispatch = s.dispatch
  runs : t.runs = s.runs
  desired : t.desired = s.desired
  observed : t.observed = s.observed
  leases : t.leases = s.leases

instance (s : Deployment) (e : Event) : Decidable (StartsDrained s e) := inferInstanceAs (Decidable (¬ _))

theorem base_of_reachable {s : Deployment} (hReach : system.Reachable StartsDrained s) : Base s :=
  (invariant_of_effects (fun P => ¬ P.undrained) (fun _ => True) (fun h => h) (fun _ h => h)
    (fun _ _ => trivial) (fun _ _ _ _ _ _ _ => trivial) hReach).1

theorem next_result_of_earlier_run {s : Deployment} (hBase : Base s) (env : Env) {c : Command} (cr : CommandResult)
    (hSent : Fact.sent c ∈ s.history) (hEarlier : c.run ≠ s.runID) :
    next s (.result env c cr) = s.record (.answered c cr) := by
  have hFind : (s.record (.answered c cr)).inflight.find? (·.id = c.id) = none := by
    refine List.find?_eq_none.mpr fun command hMem hID => hEarlier ?_
    exact (hBase.matched c hSent command hMem (by simpa using hID)).2
  simp only [next, onCommandResult, hFind]

theorem earlier_run_result_changes_nothing {f : DeploymentID → Deployment}
    (hReach : service.Reachable (System.familyGuard StartsDrained) f) (id : DeploymentID) (env : Env) {c : Command}
    (cr : CommandResult) (hSent : Fact.sent c ∈ (f id).history) (hEarlier : c.run ≠ (f id).runID) :
    SameRun (f id) (service.next f (.one id (.result env c cr)) id) := by
  have hOwn : service.next f (.one id (.result env c cr)) id = next (f id) (.result env c cr) :=
    Function.update_self ..
  rw [hOwn, next_result_of_earlier_run (base_of_reachable (hReach.component id)) env cr hSent hEarlier]
  exact ⟨rfl, rfl, rfl, rfl, rfl⟩

def plainRecipe : Recipe := ⟨false, false, false, .parallel, none⟩

def oneRank : PlacementSet := ⟨[⟨"a", 0⟩], [("a", 0)], false⟩

def planned : Deployment := createPlanned .calm plainRecipe oneRank

theorem init_planned : system.init planned := ⟨_, _, _, rfl⟩

def accepted : CommandResult := ⟨true, [], "", .unset, 0, false⟩

def pass (rank : Rank) : List Event := [.gateEnter rank, .gateLeave .calm rank none]

def createSent : List Event := pass 0 ++ pass 0 ++ pass 0

def stopAndStart : List Event := [.stop .calm, .result .calm ⟨1, 0, 0, .stop⟩ accepted, .start .calm oneRank]

def drainedRestart : List Event := createSent ++ [.result .calm ⟨0, 0, 0, .create⟩ accepted] ++ stopAndStart

theorem earlier_run_result_changes_nothing_duplicate :
    let f : DeploymentID → Deployment := Function.update (fun _ => planned) "d" (system.exec planned drainedRestart)
    (f "d").runID = 1 ∧
      SameRun (f "d") (service.next f (.one "d" (.result .calm ⟨0, 0, 0, .create⟩ accepted)) "d") := by
  have hMay : system.Allowed StartsDrained planned drainedRestart := by decide +kernel
  have hReach := System.Reachable.lift init_planned hMay "d"
  exact ⟨by decide +kernel, earlier_run_result_changes_nothing hReach "d" .calm accepted (by decide +kernel) (by decide +kernel)⟩

theorem late_create_result_moves_new_run :
    ¬ ∀ (f : DeploymentID → Deployment) (id : DeploymentID) (env : Env) (c : Command) (cr : CommandResult),
      service.Reachable (System.familyGuard fun _ _ => True) f → Fact.sent c ∈ (f id).history →
      c.run ≠ (f id).runID → SameRun (f id) (service.next f (.one id (.result env c cr)) id) := by
  intro h
  have hMay : system.Allowed (fun _ _ => True) planned (createSent ++ stopAndStart) := by decide +kernel
  have hReach := System.Reachable.lift init_planned hMay "d"
  have hSame := h _ "d" .calm ⟨0, 0, 0, .create⟩ accepted hReach (by decide +kernel) (by decide +kernel)
  exact absurd (congrFun hSame.dispatch 0) (by decide +kernel)

end LocalModelWorks.Deploy
