import LocalModelWorks.Plan.Leasing

/-!
# Host ports

A port's host port is its base plus the rank, and the preview, the endpoint and the
container specification each compute it.
-/

namespace LocalModelWorks.Plan

open List
open Recipe (Text Manifest Workload Port)
open Selection

def specPorts (w : Workload) (rank : Int) : List PortSpec := if w.upstream.isSome then [] else renderPorts w rank

variable {env : Env} {m : Manifest} {w : Workload} {row : Row} {pl : Placement} {rank : Int} {runID : Text}
  {spec : ContainerSpec}

/-- The previews of different pairs of rank and container port do not share a host port of a node, each rank's
specification has the ports of its previews, and the endpoint is a published port of the first placement. -/
structure Agreement (w : Workload) (p : DeploymentPlan) : Prop where
  previews : p.ports = p.placements.flatMap (portPreviews w)
  apart : ∀ pl ∈ p.placements, ∀ pl' ∈ p.placements, ∀ x ∈ portPreviews w pl, ∀ y ∈ portPreviews w pl',
    (pl.rank, x.containerPort) ≠ (pl'.rank, y.containerPort) → ¬(x.nodeID = y.nodeID ∧ x.hostPort = y.hostPort)
  rendered : ∀ pl ∈ p.placements, (specPorts w pl.rank).map (fun q => (q.host, q.container, q.protocol)) =
    (portPreviews w pl).map fun x => (x.hostPort, x.containerPort, x.protocol)
  endpoint : w.ports ≠ [] →
    ∃ pl, p.placements.head? = some pl ∧ p.endpoint.port ∈ (portPreviews w pl).map (·.hostPort)

/-- A rank takes all devices of its node, or those at given indices, so that the node has no second one. -/
def Demand.Exclusive (d : Demand) : Prop := d.required = true ∧ (d.devAll = true ∨ d.devIndices ≠ [])

namespace Pool

variable {d : Demand} {s s' : Pool} {c : Candidate} {rank : Int} {placement : Placement}

/-- The candidate has given a rank what every rank asks for. -/
def Spent (d : Demand) (s : Pool) (c : Candidate) : Prop :=
  if d.devAll then c.nodeID ∈ s.usedAll else ∃ index ∈ d.devIndices, s.atIndex c index = []

theorem Spent.refuses (h : s.Spent d c) (hMust : d.required = true) : s.allocOne d c rank ≠ .ok (placement, s') := by
  intro hAlloc
  rw [allocOne, if_pos hMust] at hAlloc
  split at hAlloc
  · cases hAlloc
  rename_i devices hPick
  unfold Spent at h
  split at h
  next hAll =>
    rw [pick, if_pos hAll, if_pos h] at hPick
    cases hPick
  next hAll =>
    obtain ⟨index, hIndex, hGone⟩ := h
    rw [pick, if_neg hAll, if_pos (ne_nil_of_mem hIndex)] at hPick
    exact (pickIndices_ok hPick).2 index hIndex hGone

theorem Spent.mono (h : s.Spent d c) (hTaken : s.taken ⊆ s'.taken) (hUsed : s.usedAll ⊆ s'.usedAll) : s'.Spent d c := by
  unfold Spent at h ⊢
  split at h
  next hAll => exact (if_pos hAll).mpr (hUsed h)
  next hAll =>
    obtain ⟨index, hIndex, hGone⟩ := h
    refine (if_neg hAll).mpr ⟨index, hIndex, ?_⟩
    rw [atIndex, filter_eq_nil_iff] at hGone ⊢
    intro a ha
    obtain ⟨hFree, hNot⟩ := mem_freeAfter.mp ha
    exact hGone a (mem_freeAfter.mpr ⟨hFree, fun hOld => hNot (hTaken hOld)⟩)

end Pool

section

variable {w : Workload} {pl : Placement}

end

/-- An upstream workload with ports never agrees: its specifications have none, and without a preview on the first
placement its endpoint is not published. -/
theorem Agreement.owned {w : Workload} {p : DeploymentPlan} (hAgree : Agreement w p) (hPorts : w.ports ≠ []) :
    w.upstream = none := by
  by_contra hUp
  have hSome : w.upstream.isSome = true := Option.isSome_iff_ne_none.mpr hUp
  obtain ⟨pl, hHead, hEndpoint⟩ := hAgree.endpoint hPorts
  have hRendered := hAgree.rendered pl (mem_of_mem_head? hHead)
  rw [specPorts, if_pos hSome, map_nil, eq_comm, map_eq_nil_iff] at hRendered
  rw [hRendered] at hEndpoint
  cases hEndpoint

section

variable {world : World} {m : Manifest} {req : Request} {ignored : List String} {s : Selection}
  {values : Recipe.Settings} {p : DeploymentPlan}

end

end LocalModelWorks.Plan
