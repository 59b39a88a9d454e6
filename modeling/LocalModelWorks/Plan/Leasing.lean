import LocalModelWorks.Plan.Soundness

/-!
# A ready plan and its leases

The planner looks at devices, ports and whole nodes one kind at a time; acquisition scans
the flat list of `leaseResources` with one conflict relation.
-/

namespace LocalModelWorks.Plan

open List
open Recipe (Text Manifest Workload Port)
open Runs Selection

def placementLeases (pl : Placement) : List Text :=
  if pl.accelerators ≠ [] then pl.accelerators.map (gpuLease pl.nodeID)
  else if pl.acceleratorUUID ≠ [] then [gpuLease pl.nodeID pl.acceleratorUUID]
  else []

def fabricLeases : Option Text → List Text
  | none => []
  | some id => if id ≠ [] then [fabricLease id] else []

def leaseResources (p : DeploymentPlan) : List Text :=
  sortText (p.upstream.map (fun u => nodeLease u.nodeID) ++ p.placements.flatMap placementLeases ++
    fabricLeases p.fabric ++ p.ports.map fun port => portLease port.nodeID port.hostPort).dedup

section

variable {world : World} {m : Manifest} {req : Request} {ignored : List String} {s : Selection}
  {values : Recipe.Settings} {p : DeploymentPlan}

end

section

variable {world : World} {m : Manifest} {req : Request} {s : Selection} {values : Recipe.Settings} {p : DeploymentPlan}

end

/-- A fabric that meets a recipe's requirement for some nodes. -/
def Fabric.Meets (required : Recipe.FabricCompat) (f : Fabric) : Prop :=
  f.ok = true ∧ (required.transport = "" ∨ f.transport = required.transport)

section

variable {world : World} {name : Text} {m : Manifest} {req : Request} {w : Workload}

variable {held : List Lease.Row} {id : Text} {holder : Lease.Owner}

end

end LocalModelWorks.Plan
