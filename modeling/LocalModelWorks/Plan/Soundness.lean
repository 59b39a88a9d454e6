import LocalModelWorks.Plan.Service

/-!
# Ready plans are sound

Each rank once, on an online node, with devices of that node that suit and that nobody
holds.
-/

namespace LocalModelWorks.Plan

open List
open Recipe (Text Manifest Workload)
open Runs Selection

theorem candidateOf_node {m : Manifest} {w : Workload} {held : List Lease.Row} {n : Node} {c : Candidate}
    (h : candidateOf m w held n = some c) : c.nodeID = n.id.text := by
  unfold candidateOf at h
  dsimp only at h
  split at h
  · cases h
  split at h
  · split at h
    · cases h
    split at h
    · cases h
      rfl
    · cases h
  · cases h
    rfl

theorem candidates_nodup (m : Manifest) (w : Workload) (held : List Lease.Row) {nodes : List Node}
    (h : (nodes.map fun n => n.id.text).Nodup) : ((candidates m w held nodes).map (·.nodeID)).Nodup := by
  have hSub : ((candidates m w held nodes).map (·.nodeID)).Sublist (nodes.map fun n => n.id.text) := by
    clear h
    induction nodes with
    | nil => exact List.Sublist.refl _
    | cons n rest ih =>
      unfold candidates at ih ⊢
      rw [filterMap_cons]
      split
      · exact ih.cons _
      next c hCand =>
        rw [map_cons, candidateOf_node hCand]
        exact ih.cons_cons _
  exact h.sublist hSub

namespace Selection

variable {s : Selection}

theorem placements_perm : s.placements.Perm s.placing.placements := perm_insertionSort _ _

theorem good_placing : s.placing.Good (demand s.m s.w) s.candidates := good_place (accelRequirement_count s.m)

theorem placements_ranks (hAll : s.placements.length = s.ranks.length) : (s.placements.map (·.rank)).Perm s.ranks := by
  have hLen : s.placing.placements.length = s.ranks.length := placements_perm.length_eq ▸ hAll
  exact (placements_perm.map _).trans (place_ranks (accelRequirement_count s.m) hLen)

theorem placements_hosted {pl : Placement} (hPlace : pl ∈ s.placements) :
    Hosted (demand s.m s.w) s.candidates s.placing.pool pl :=
  good_placing.hosted pl (placements_perm.mem_iff.mp hPlace)

theorem placements_apart : s.placements.Pairwise Apart := by
  refine (placements_perm.pairwise_iff ?_).mpr good_placing.apart
  intro p q hApart hNode u hu hAgain
  exact hApart hNode.symm u hAgain hu

theorem placements_node {pl : Placement} (hPlace : pl ∈ s.placements) :
    ∃ n ∈ s.world.nodes, n.online = true ∧ n.id.text = pl.nodeID ∧ ∀ u ∈ pl.accelerators,
      (∃ inv a, n.inventory = some inv ∧ a ∈ inv.accelerators ∧ a.uuid = u ∧ suits s.m s.w a = true) ∧
        leaseOf s.held (gpuLease n.id.text u) = none := by
  obtain ⟨c, hCand, hNode, _, hDevs⟩ := (placements_hosted hPlace).host
  obtain ⟨n, hMem, hOnline, hID, _, hFree, _⟩ := mem_candidates hCand
  refine ⟨n, hMem, hOnline, (hNode.trans hID).symm, fun u hu => ?_⟩
  obtain ⟨a, ha, rfl⟩ := hDevs u hu
  obtain ⟨inv, hInv, hDevice, hSuits, hLease⟩ := hFree a ha
  exact ⟨⟨inv, a, hInv, hDevice, rfl, hSuits⟩, hLease⟩

theorem ranks_ne_nil : s.ranks ≠ [] := by
  intro hNil
  have hPerm := rankList_perm s.m s.w
  rw [show rankList s.m s.w = [] from hNil, nil_perm, map_eq_nil_iff] at hPerm
  unfold declaredRanks at hPerm
  split at hPerm
  · contradiction
  rename_i hRanks
  have hCount : 0 < workloadNodeCount s.m s.w := by
    unfold workloadNodeCount
    rw [if_neg hRanks]
    split
    · assumption
    · exact Int.one_pos
  rw [map_eq_nil_iff, range_eq_nil] at hPerm
  omega

end Selection

structure Granted (world : World) (m : Manifest) (w : Workload) (ignored : List String) (n : Node) (uuid : Text) :
    Prop where
  device : ∃ inv a, n.inventory = some inv ∧ a ∈ inv.accelerators ∧ a.uuid = uuid ∧
    matchesAcc (accelRequirement m) a = true ∧ matchesWorkloadAccelerator w (workloadNodeCount m w) a = true
  free : ∀ row ∈ world.leases, row.active = true → (row.owner.kind = .deployment → row.owner.id ∉ ignored) →
    Lease.resourcesConflict (gpuLease n.id.text uuid) row.resource = false

structure Sound (world : World) (m : Manifest) (w : Workload) (ignored : List String) (placements : List Placement) :
    Prop where
  once : ∀ r ∈ declaredRanks m w, (placements.map (·.rank)).count r = 1
  node : ∀ pl ∈ placements, ∃ n ∈ world.nodes, n.id.text = pl.nodeID ∧ n.online = true ∧
    ∀ u ∈ pl.accelerators, Granted world m w ignored n u
  apart : placements.Pairwise Apart

def CountMatches (m : Manifest) (w : Workload) : Prop :=
  ∀ p, w.match = some p → p.nodeCount = 0 ∨ p.nodeCount = workloadNodeCount m w

theorem count_int32_iff {ranks : List Int} : (∀ r ∈ ranks, (ranks.map int32).count r = 1) ↔
    ranks.Nodup ∧ ∀ r ∈ ranks, int32 r = r := by
  have hSame : (∀ r ∈ ranks, int32 r = r) → ranks.map int32 = ranks := fun h =>
    (map_congr_left h).trans (map_id ranks)
  constructor
  · intro hOnce
    have hFits : ∀ r ∈ ranks, int32 r = r := by
      intro r hr
      have hMem : r ∈ ranks.map int32 := count_pos_iff.mp (by rw [hOnce r hr]; exact Nat.one_pos)
      obtain ⟨r', _, rfl⟩ := mem_map.mp hMem
      exact Int.bmod_bmod
    rw [hSame hFits] at hOnce
    exact ⟨nodup_iff_count_eq_one.mpr hOnce, hFits⟩
  rintro ⟨hNodup, hFits⟩ r hr
  rw [hSame hFits]
  exact count_eq_one_of_mem hNodup hr

theorem satisfiedBy_iff {w : Workload} {nodeCount : Int} {a : Accelerator} :
    matchesWorkloadAccelerator w nodeCount a = true ↔
      (∀ p, w.match = some p → p.nodeCount = 0 ∨ p.nodeCount = nodeCount) ∧
      (matchAccelerator w = none ∨ matchesWorkloadAccelerator w nodeCount a = true) := by
  unfold matchesWorkloadAccelerator matchAccelerator satisfiedBy
  cases w.match with
  | none => simp
  | some p =>
    cases hAcc : p.accelerator with
    | none => simp [hAcc]
    | some acc =>
      simp only [Option.bind_some, hAcc, Bool.and_eq_true, Bool.or_eq_true, decide_eq_true_eq,
        Option.some.injEq, forall_eq']
      tauto

section

variable {world : World} {m : Manifest} {req : Request} {ignored : List String} {s : Selection}
  {values : Recipe.Settings} {p : DeploymentPlan}

section

variable (h : Ready world m req ignored s values p)
include h

theorem Ready.node_clear {pl : Placement} (hPlace : pl ∈ s.placements) {row : Lease.Row} (hRow : row ∈ s.held) :
    row.resource ≠ nodeLease pl.nodeID ∧
      (s.w.upstream.isSome = true → Lease.resourcesConflict (nodeLease pl.nodeID) row.resource = false) := by
  have hNone : s.nodeConflicts = [] := (append_eq_nil_iff.mp h.clear).2
  rw [nodeConflicts, flatMap_eq_nil_iff] at hNone
  have hRows := hNone pl hPlace
  rw [map_eq_nil_iff, filter_eq_nil_iff] at hRows
  have hOwn := hRows row hRow
  rw [Bool.or_eq_true, decide_eq_true_eq, Bool.and_eq_true, not_or, not_and, Bool.not_eq_true] at hOwn
  exact hOwn

theorem Ready.gpu_free {pl : Placement} (hPlace : pl ∈ s.placements) {n : Lease.NodeID}
    (hNode : n.text = pl.nodeID) {uuid : Text} (hFree : leaseOf s.held (gpuLease n.text uuid) = none)
    {row : Lease.Row} (hRow : row ∈ s.held) :
    Lease.resourcesConflict (gpuLease n.text uuid) row.resource = false := by
  rw [← Bool.not_eq_true, resourcesConflict_gpu]
  rintro (hSame | hWhole)
  · exact leaseOf_eq_none.mp hFree row hRow hSame
  · exact (h.node_clear hPlace hRow).1 (hNode ▸ hWhole)

theorem Ready.sound (hOnce : (declaredRanks s.m s.w).Nodup ∧ ∀ r ∈ declaredRanks s.m s.w, int32 r = r)
    (hMatch : (accelRequirement s.m).required = true → CountMatches s.m s.w) :
    Sound s.world s.m s.w ignored s.placements := by
  refine ⟨fun r hr => ?_, fun pl hPlace => ?_, placements_apart⟩
  · rw [((placements_ranks h.all).trans (rankList_perm s.m s.w)).count_eq]
    exact count_int32_iff.mpr hOnce r hr
  obtain ⟨n, hMem, hOnline, hID, hDevs⟩ := placements_node hPlace
  refine ⟨n, hMem, hID, hOnline, fun u hu => ?_⟩
  obtain ⟨⟨inv, a, hInv, hDevice, hUuid, hSuits⟩, hLease⟩ := hDevs u hu
  have hMust : (accelRequirement s.m).required = true := by
    by_contra hNot
    rw [Bool.not_eq_true] at hNot
    rw [(placements_hosted hPlace).none hNot] at hu
    cases hu
  simp only [suits, Bool.and_eq_true, Bool.or_eq_true, decide_eq_true_eq] at hSuits
  refine ⟨⟨inv, a, hInv, hDevice, hUuid, hSuits.1, satisfiedBy_iff.mpr ⟨hMatch hMust, hSuits.2⟩⟩, ?_⟩
  intro row hRow hActive hOther
  refine h.gpu_free hPlace hID hLease ?_
  rw [h.held, ← h.fleet]
  exact mem_leased.mpr ⟨hRow, hActive, hOther⟩

theorem Ready.placements_cons : ∃ r0 rest, s.placements = r0 :: rest := by
  refine exists_cons_of_ne_nil fun hNil => ?_
  have hLen := h.all
  rw [hNil, length_nil, eq_comm, length_eq_zero_iff] at hLen
  exact ranks_ne_nil hLen

theorem Ready.countMatches (hSound : Sound s.world s.m s.w ignored s.placements)
    (hMust : (accelRequirement s.m).required = true) :
    CountMatches s.m s.w := by
  obtain ⟨pl, rest, hCons⟩ := h.placements_cons
  have hPlace : pl ∈ s.placements := hCons ▸ mem_cons_self
  obtain ⟨u, hu⟩ := exists_mem_of_ne_nil _ ((placements_hosted hPlace).some hMust)
  obtain ⟨n, _, _, _, hGranted⟩ := hSound.node pl hPlace
  obtain ⟨inv, a, _, _, _, _, hMatch⟩ := (hGranted u hu).device
  exact (satisfiedBy_iff.mp hMatch).1

end

end

/-- A ready plan is sound exactly when the workload's ranks are all different and survive the conversion to 32
bits, and the accelerators that it needs are not asked for at another node count. -/
theorem ready_plan_sound_iff {world : World} {name : Text} {m : Manifest} {req : Request} {ignored : List String}
    {p : DeploymentPlan} {index : Nat} {w : Workload} (hPlan : plan world name m req ignored = .ok p)
    (hReady : p.ready = true) (hChosen : chooseWorkload m world.nodes req.workloadIndex req.placements = .ok (index, w)) :
    Sound world m w ignored p.placements ↔
      (declaredRanks m w).Nodup ∧ (∀ r ∈ declaredRanks m w, int32 r = r) ∧
        ((accelRequirement m).required = true → CountMatches m w) := by
  obtain ⟨s, values, h⟩ := plan_ready hPlan hReady
  have hSame := h.chosen
  rw [hChosen] at hSame
  cases hSame
  obtain rfl := h.fleet
  obtain rfl := h.recipe
  rw [h.placements]
  constructor
  · intro hSound
    have hCount : ∀ r ∈ declaredRanks s.m s.w, ((declaredRanks s.m s.w).map int32).count r = 1 := by
      intro r hr
      rw [← ((placements_ranks h.all).trans (rankList_perm s.m s.w)).count_eq]
      exact hSound.once r hr
    obtain ⟨hNodup, hFits⟩ := count_int32_iff.mp hCount
    exact ⟨hNodup, hFits, h.countMatches hSound⟩
  · rintro ⟨hNodup, hFits, hMatch⟩
    exact h.sound ⟨hNodup, hFits⟩ hMatch

def sampleDevice (index : Int) (uuid : Text) : Accelerator := ⟨index, "nvidia", "sm_120", uuid, 0, []⟩

def sampleNode (accelerators : List Accelerator) : Node :=
  ⟨⟨"n1".toList, by decide, by decide⟩, "n1".toList, true, some ⟨accelerators, "10.0.0.1".toList, []⟩⟩

def sampleWorld (accelerators : List Accelerator) (leases : Lease.Table) (fabrics : List Fabric) : World where
  nodes := [sampleNode accelerators]
  distinct := nodup_singleton _
  leases := leases
  fabrics := fabrics
  swapTotalBytes := fun _ => none
  active := []
  settings := .settings [] []
  checks := sampleChecks
  model := []
  probePath := fun _ => []
  downloads := fun _ _ _ _ => .ok ⟨[], [], [], true⟩
  sourceconfig := fun _ _ _ => .ok []
  workerSSH := fun _ _ => []

def twoDevices : List Accelerator := [sampleDevice 0 "g0".toList, sampleDevice 1 "g1".toList]

def rankedWorkload (ranks : List Int) : Workload := { sampleWorkload [] 0 with ranks := ranks }

def oneEach (w : Workload) : Manifest :=
  { sampleManifest [] 0 with
    compatibility := ⟨1, some ⟨"", [], 1, 0, []⟩, none⟩
    workloads := [w] }

def twoNodeWorkload : Workload := { sampleWorkload [] 0 with «match» := some ⟨none, 2⟩ }

def sampleRequest : Request := ⟨"sha256:2".toList, "", some 0, []⟩

theorem except_map_eq_ok {α β : Type} {x : Except String α} {f : α → β} {b : β} (h : x.map f = .ok b) :
    ∃ a, x = .ok a ∧ f a = b := by
  cases x with
  | error message => cases h
  | ok a => exact ⟨a, rfl, Except.ok.inj h⟩

theorem ready_plan_sound_two_ranks : ∃ p,
    plan (sampleWorld twoDevices [] []) [] (oneEach (rankedWorkload [0, 1])) sampleRequest [] = .ok p ∧
      Sound (sampleWorld twoDevices [] []) (oneEach (rankedWorkload [0, 1])) (rankedWorkload [0, 1]) [] p.placements := by
  have hRun : ((plan (sampleWorld twoDevices [] []) [] (oneEach (rankedWorkload [0, 1])) sampleRequest []).map
      (·.ready)) = .ok true := by decide +kernel
  obtain ⟨p, hPlan, hReady⟩ := except_map_eq_ok hRun
  refine ⟨p, hPlan, (ready_plan_sound_iff hPlan hReady rfl).mpr ?_⟩
  exact ⟨by decide, by decide, fun _ p h => nomatch h⟩

theorem ready_plan_unsound :
    (∃ p, plan (sampleWorld twoDevices [] []) [] (oneEach (rankedWorkload [0, 0])) sampleRequest [] = .ok p ∧
      p.ready = true ∧ p.placements.map (·.rank) = [0, 0] ∧
      ¬Sound (sampleWorld twoDevices [] []) (oneEach (rankedWorkload [0, 0])) (rankedWorkload [0, 0]) [] p.placements) ∧
    ∃ p, plan (sampleWorld twoDevices [] []) [] (oneEach twoNodeWorkload) sampleRequest [] = .ok p ∧ p.ready = true ∧
      ¬Sound (sampleWorld twoDevices [] []) (oneEach twoNodeWorkload) twoNodeWorkload [] p.placements := by
  constructor
  · have hRun : ((plan (sampleWorld twoDevices [] []) [] (oneEach (rankedWorkload [0, 0])) sampleRequest []).map
        fun p => (p.ready, p.placements.map (·.rank))) = .ok (true, [0, 0]) := by decide +kernel
    obtain ⟨p, hPlan, hParts⟩ := except_map_eq_ok hRun
    obtain ⟨hReady, hRanks⟩ := Prod.mk.inj hParts
    refine ⟨p, hPlan, hReady, hRanks, fun hSound => ?_⟩
    have hOnce := hSound.once 0 (by decide)
    rw [hRanks] at hOnce
    exact absurd hOnce (by decide)
  have hRun : ((plan (sampleWorld twoDevices [] []) [] (oneEach twoNodeWorkload) sampleRequest []).map
      fun p => (p.ready, p.placements.map (·.accelerators))) = .ok (true, [["g0".toList]]) := by decide +kernel
  obtain ⟨p, hPlan, hParts⟩ := except_map_eq_ok hRun
  obtain ⟨hReady, hDevs⟩ := Prod.mk.inj hParts
  refine ⟨p, hPlan, hReady, fun hSound => ?_⟩
  obtain ⟨pl, hPlace, hOwn⟩ := mem_map.mp (hDevs ▸ mem_singleton.mpr rfl :
    ["g0".toList] ∈ p.placements.map (·.accelerators))
  obtain ⟨n, _, _, _, hGranted⟩ := hSound.node pl hPlace
  have hDevice : "g0".toList ∈ pl.accelerators := by rw [hOwn]; exact mem_singleton.mpr rfl
  obtain ⟨_, a, _, _, _, _, hMatch⟩ := (hGranted _ hDevice).device
  have hCount := (satisfiedBy_iff.mp hMatch).1 ⟨none, 2⟩ rfl
  exact absurd hCount (by decide)

end LocalModelWorks.Plan
