import LocalModelWorks.Plan.Fleet

/-!
# Placement

The three ways to give a rank devices of a node (all of them, those at given indices, the
first free ones) over the pool of devices that the plan has taken so far, and the two
loops over the ranks: the operator's overrides and the automatic choice.
-/

namespace LocalModelWorks.Plan

open List
open Recipe (Text Manifest Workload)
open Diag (Diagnostic)

structure Demand where
  required : Bool
  count : Nat
  devAll : Bool
  devIndices : List Int
  deriving DecidableEq

def demand (m : Manifest) (w : Workload) : Demand :=
  ⟨(accelRequirement m).required, (accelRequirement m).count, devAll w, devIndices w⟩

structure Pool where
  taken : List (Text × Text)
  usedAll : List Text
  deriving DecidableEq

namespace Pool

variable (s : Pool) (c : Candidate)

def freeAfter : List Accelerator := c.free.filter fun a => (c.nodeID, a.uuid) ∉ s.taken

def atIndex (index : Int) : List Accelerator :=
  (s.freeAfter c).filter fun a => a.index = index

def pickIndices (s : Pool) (c : Candidate) : List Int → Except String (List Accelerator)
  | [] => .ok []
  | index :: rest =>
    if s.atIndex c index = [] then .error s!"accelerator index {index} not free on node"
    else
      match s.pickIndices c rest with
      | .error message => .error message
      | .ok devices => .ok (s.atIndex c index ++ devices)

variable (d : Demand) (s : Pool) (c : Candidate)

def pick : Except String (List Accelerator) :=
  if d.devAll then
    if c.nodeID ∈ s.usedAll then .error "node already hosts an all-accelerators rank in this plan"
    else if s.freeAfter c = [] then .error "no free accelerators"
    else .ok (s.freeAfter c)
  else if d.devIndices ≠ [] then s.pickIndices c d.devIndices
  else if (s.freeAfter c).length < d.count then
    let have_ := (s.freeAfter c).length
    let need := d.count
    .error s!"only {have_} of {need} requested accelerators free"
  else .ok ((s.freeAfter c).take d.count)

def lead (devices : List Accelerator) : Int × Text :=
  match if d.devAll then none else d.devIndices.getLast? with
  | some index => (int32 index, ((s.atIndex c index).head?.map (·.uuid)).getD [])
  | none => ((devices.head?.map (·.index)).getD 0, (devices.head?.map (·.uuid)).getD [])

def allocOne (rank : Int) : Except String (Placement × Pool) :=
  if d.required then
    match s.pick d c with
    | .error message => .error message
    | .ok devices =>
      let first := s.lead d c devices
      .ok (⟨c.nodeID, c.nodeName, rank, first.1, first.2, devices.map (·.uuid), []⟩,
        ⟨(devices.map fun a => (c.nodeID, a.uuid)) ++ s.taken, if d.devAll then c.nodeID :: s.usedAll else s.usedAll⟩)
  else .ok (⟨c.nodeID, c.nodeName, rank, 0, [], [], []⟩, s)

end Pool

structure Placing where
  pool : Pool
  placements : List Placement
  diagnostics : List Diagnostic
  deriving DecidableEq

def Placing.start : Placing := ⟨⟨[], []⟩, [], []⟩

def Placing.note (st : Placing) (code message : String) : Placing :=
  { st with diagnostics := st.diagnostics ++ [Diag.error code message] }

def sortCandidates (cs : List Candidate) : List Candidate := cs.insertionSort fun a b => b.free.length ≤ a.free.length

variable (d : Demand)

def eligible (s : Pool) (c : Candidate) : Bool :=
  !d.required || if d.devAll then c.nodeID ∉ s.usedAll else d.count ≤ (s.freeAfter c).length

def placeRank (sorted : List Candidate) (st : Placing) (rank : Int) : Placing :=
  match sorted.find? (eligible d st.pool) with
  | none => st.note "placement.no_capacity" s!"no eligible node for rank {rank}"
  | some best =>
    match st.pool.allocOne d best rank with
    | .error message =>
      st.note "placement.accelerator_unavailable" s!"no node can host rank {rank}: {message}"
    | .ok (placement, pool) => ⟨pool, st.placements ++ [placement], st.diagnostics⟩

variable (cs : List Candidate)

def placeAutomatic (ranks : List Int) : Placing :=
  ranks.foldl (placeRank d (sortCandidates cs)) .start

structure Overriding where
  placing : Placing
  covered : List Int
  deriving DecidableEq

variable (nodes : List Node) (ranks : List Int)

def placeOverride (st : Overriding) (ov : PlacementOverride) : Overriding :=
  let rank := ov.rank
  let node := String.ofList ov.nodeID
  if st.covered.contains rank then
    { st with placing := st.placing.note "placement.duplicate_rank" s!"rank {rank} appears more than once" }
  else if !ranks.contains rank then
    { st with placing := st.placing.note "placement.unknown_rank" s!"rank {rank} is not in the recipe rank set" }
  else
    match cs.find? fun c => c.nodeID = ov.nodeID with
    | none =>
      if nodes.any fun n => n.id.text = ov.nodeID && n.online then
        ⟨st.placing.note "placement.accelerator_unavailable"
          s!"node {node} cannot host rank {rank}: no free compatible accelerators", rank :: st.covered⟩
      else
        ⟨st.placing.note "placement.node_unavailable" s!"node {node} is not an eligible candidate", rank :: st.covered⟩
    | some c =>
      match st.placing.pool.allocOne d c rank with
      | .error message =>
        ⟨st.placing.note "placement.accelerator_unavailable" s!"node {node} cannot host rank {rank}: {message}",
          st.covered⟩
      | .ok (placement, pool) =>
        ⟨⟨pool, st.placing.placements ++ [placement], st.placing.diagnostics⟩, rank :: st.covered⟩

variable (overrides : List PlacementOverride)

def placeOverrides : Placing :=
  let done := overrides.foldl (placeOverride d cs nodes ranks) ⟨.start, []⟩
  (ranks.filter fun r => !done.covered.contains r).foldl
    (fun st rank => st.note "placement.rank_missing" s!"no placement override for rank {rank}") done.placing

def place : Placing :=
  if overrides ≠ [] then placeOverrides d cs nodes ranks overrides else placeAutomatic d cs ranks

namespace Pool

variable {d : Demand} {s s' : Pool} {c : Candidate} {rank : Int} {placement : Placement}

theorem mem_freeAfter {a : Accelerator} : a ∈ s.freeAfter c ↔ a ∈ c.free ∧ (c.nodeID, a.uuid) ∉ s.taken := by
  simp [freeAfter]

theorem pickIndices_ok {indices : List Int} {devices : List Accelerator} (h : s.pickIndices c indices = .ok devices) :
    devices = indices.flatMap (s.atIndex c) ∧ ∀ index ∈ indices, s.atIndex c index ≠ [] := by
  induction indices generalizing devices with
  | nil =>
    cases h
    exact ⟨rfl, by simp⟩
  | cons index rest ih =>
    unfold pickIndices at h
    split at h
    · cases h
    rename_i hSome
    split at h
    · cases h
    rename_i more hRest
    cases h
    obtain ⟨rfl, hAll⟩ := ih hRest
    exact ⟨rfl, forall_mem_cons.mpr ⟨hSome, hAll⟩⟩

theorem pick_ok {devices : List Accelerator} (hCount : 0 < d.count) (h : s.pick d c = .ok devices) :
    (∀ a ∈ devices, a ∈ s.freeAfter c) ∧ devices ≠ [] := by
  unfold pick at h
  split at h
  · split at h
    · cases h
    split at h
    · cases h
    next hSome =>
      cases h
      exact ⟨fun _ h => h, hSome⟩
  split at h
  next hIndices =>
    obtain ⟨rfl, hAll⟩ := pickIndices_ok h
    constructor
    · intro a hMem
      obtain ⟨index, _, hAt⟩ := mem_flatMap.mp hMem
      exact (mem_filter.mp hAt).1
    obtain ⟨index, hIdx⟩ := exists_mem_of_ne_nil _ hIndices
    obtain ⟨a, hAt⟩ := exists_mem_of_ne_nil _ (hAll index hIdx)
    exact ne_nil_of_mem (mem_flatMap.mpr ⟨index, hIdx, hAt⟩)
  · split at h
    · cases h
    cases h
    refine ⟨fun a => mem_of_mem_take, fun hNil => ?_⟩
    have hLen := congrArg List.length hNil
    rw [length_take, length_nil] at hLen
    omega

structure Takes (d : Demand) (s : Pool) (c : Candidate) (rank : Int) (placement : Placement) (s' : Pool) : Prop where
  rank : placement.rank = rank
  node : placement.nodeID = c.nodeID
  name : placement.nodeName = c.nodeName
  free : ∀ u ∈ placement.accelerators, (c.nodeID, u) ∉ s.taken ∧ ∃ a ∈ c.free, a.uuid = u
  taken : s'.taken = placement.accelerators.map (fun u => (c.nodeID, u)) ++ s.taken
  some : d.required = true → placement.accelerators ≠ []
  none : d.required = false → placement.accelerators = []
  lead : placement.accelerators = [] → placement.acceleratorUUID = []

theorem allocOne_ok (hCount : 0 < d.count) (h : s.allocOne d c rank = .ok (placement, s')) :
    Takes d s c rank placement s' := by
  unfold allocOne at h
  split at h
  next hMust =>
    split at h
    · cases h
    rename_i devices hPick
    obtain ⟨hFree, hSome⟩ := pick_ok hCount hPick
    cases h
    refine ⟨rfl, rfl, rfl, ?_, ?_, fun _ => by simpa using hSome, fun hNot => ?_, fun hNil => ?_⟩
    · intro u hUuid
      obtain ⟨a, hMem, rfl⟩ := mem_map.mp hUuid
      have hAt := mem_freeAfter.mp (hFree a hMem)
      exact ⟨hAt.2, a, hAt.1, rfl⟩
    · simp [Function.comp_def]
    · rw [hMust] at hNot
      cases hNot
    · exact absurd (by simpa using hNil) hSome
  next hMust =>
    cases h
    exact ⟨rfl, rfl, rfl, by simp, rfl, fun h => absurd h hMust, fun _ => rfl, fun _ => rfl⟩

end Pool

def Apart (p q : Placement) : Prop := p.nodeID = q.nodeID → ∀ u ∈ p.accelerators, u ∉ q.accelerators

structure Hosted (d : Demand) (cs : List Candidate) (s : Pool) (p : Placement) : Prop where
  host : ∃ c ∈ cs, p.nodeID = c.nodeID ∧ p.nodeName = c.nodeName ∧ ∀ u ∈ p.accelerators, ∃ a ∈ c.free, a.uuid = u
  taken : ∀ u ∈ p.accelerators, (p.nodeID, u) ∈ s.taken
  some : d.required = true → p.accelerators ≠ []
  none : d.required = false → p.accelerators = []
  lead : p.accelerators = [] → p.acceleratorUUID = []

structure Placing.Good (d : Demand) (cs : List Candidate) (st : Placing) : Prop where
  hosted : ∀ p ∈ st.placements, Hosted d cs st.pool p
  apart : st.placements.Pairwise Apart

variable {d : Demand} {cs : List Candidate} {nodes : List Node} {st : Placing} {ranks : List Int}

theorem good_start : Placing.Good d cs .start := ⟨by simp [Placing.start], List.Pairwise.nil⟩

theorem Placing.Good.note (h : st.Good d cs) (code message : String) : (st.note code message).Good d cs := ⟨h.1, h.2⟩

theorem Placing.Good.add {c : Candidate} {rank : Int} {p : Placement} {pool : Pool} {ds : List Diagnostic}
    (h : st.Good d cs) (hCand : c ∈ cs) (hTakes : Pool.Takes d st.pool c rank p pool) :
    Placing.Good d cs ⟨pool, st.placements ++ [p], ds⟩ := by
  have hMono : ∀ x, x ∈ st.pool.taken → x ∈ pool.taken := fun x hx => by
    rw [hTakes.taken]
    exact mem_append_right _ hx
  constructor
  · intro q hMem
    rcases mem_append.mp hMem with hOld | hNew
    · exact { h.hosted q hOld with taken := fun u hu => hMono _ ((h.hosted q hOld).taken u hu) }
    rw [mem_singleton] at hNew
    subst hNew
    refine ⟨⟨c, hCand, hTakes.node, hTakes.name, fun u hu => (hTakes.free u hu).2⟩, fun u hu => ?_, hTakes.some,
      hTakes.none, hTakes.lead⟩
    rw [hTakes.taken, hTakes.node]
    exact mem_append_left _ (mem_map.mpr ⟨u, hu, rfl⟩)
  refine pairwise_append.mpr ⟨h.apart, pairwise_singleton _ _, ?_⟩
  intro q hOld r hNew hNode u hu hAgain
  rw [mem_singleton] at hNew
  subst hNew
  -- the device was taken by the older placement, so it was not free any more
  have hTaken := (h.hosted q hOld).taken u hu
  rw [hNode, hTakes.node] at hTaken
  exact (hTakes.free u hAgain).1 hTaken

variable {overrides : List PlacementOverride}

/-- What holds at the start, after a note and after an allocation holds of every placing. -/
theorem place_induction {I : Placing → Prop} (hStart : I .start)
    (hNote : ∀ st code message, I st → I (st.note code message))
    (hAdd : ∀ st c rank p pool, I st → c ∈ cs → st.pool.allocOne d c rank = .ok (p, pool) →
      I ⟨pool, st.placements ++ [p], st.diagnostics⟩) : I (place d cs nodes ranks overrides) := by
  have hRank : ∀ st rank, I st → I (placeRank d (sortCandidates cs) st rank) := by
    intro st rank h
    unfold placeRank
    split
    · exact hNote _ _ _ h
    rename_i best hBest
    split
    · exact hNote _ _ _ h
    · exact hAdd _ _ _ _ _ h ((mem_insertionSort _).mp (mem_of_find?_eq_some hBest)) ‹_›
  have hOverride : ∀ (st : Overriding) ov, I st.placing → I (placeOverride d cs nodes ranks st ov).placing := by
    intro st ov h
    unfold placeOverride
    dsimp only
    split
    · exact hNote _ _ _ h
    split
    · exact hNote _ _ _ h
    split
    · split
      · exact hNote _ _ _ h
      · exact hNote _ _ _ h
    next c hFind =>
      split
      · exact hNote _ _ _ h
      · exact hAdd _ _ _ _ _ h (mem_of_find?_eq_some hFind) ‹_›
  unfold place
  split
  · exact foldlRecOn _ _ (foldlRecOn (motive := fun st : Overriding => I st.placing) _ _ hStart
      fun st h ov _ => hOverride st ov h) fun st h rank _ => hNote _ _ _ h
  · exact foldlRecOn _ _ hStart fun st h rank _ => hRank st rank h

theorem good_place (hCount : 0 < d.count) : (place d cs nodes ranks overrides).Good d cs :=
  place_induction good_start (fun _ code message h => h.note code message)
    fun _ _ _ _ _ h hCand hAlloc => h.add hCand (Pool.allocOne_ok hCount hAlloc)

theorem foldl_note {rs : List Int} {code : String} {message : Int → String} :
    ∀ st : Placing, (rs.foldl (fun st rank => st.note code (message rank)) st).placements = st.placements ∧
      (rs.foldl (fun st rank => st.note code (message rank)) st).pool = st.pool := by
  induction rs with
  | nil => exact fun st => ⟨rfl, rfl⟩
  | cons rank rest ih => exact fun st => ih _

def Placing.placed (st : Placing) : List Int := st.placements.map (·.rank)

theorem placeRank_ranks {sorted : List Candidate} (hCount : 0 < d.count) (rank : Int) :
    (placeRank d sorted st rank).placed = st.placed ∨ (placeRank d sorted st rank).placed = st.placed ++ [rank] := by
  unfold placeRank
  split
  · exact .inl rfl
  split
  · exact .inl rfl
  next hAlloc =>
    simp [Placing.placed, (Pool.allocOne_ok hCount hAlloc).rank]

theorem placeAutomatic_ranks (hCount : 0 < d.count) : (placeAutomatic d cs ranks).placed.Sublist ranks := by
  have hRun : ∀ st : Placing, ∃ placed, placed.Sublist ranks ∧
      (ranks.foldl (placeRank d (sortCandidates cs)) st).placed = st.placed ++ placed := by
    induction ranks with
    | nil => exact fun st => ⟨[], List.Sublist.refl _, by simp⟩
    | cons rank rest ih =>
      intro st
      obtain ⟨placed, hPlaced, hRanks⟩ := ih (placeRank d (sortCandidates cs) st rank)
      have hStep : (placeRank d (sortCandidates cs) st rank).placed = st.placed ∨
          (placeRank d (sortCandidates cs) st rank).placed = st.placed ++ [rank] := placeRank_ranks hCount rank
      rcases hStep with hSame | hAdded
      · exact ⟨placed, hPlaced.cons _, by rw [foldl_cons, hRanks, hSame]⟩
      · exact ⟨rank :: placed, hPlaced.cons_cons _, by rw [foldl_cons, hRanks, hAdded, append_assoc]; rfl⟩
  obtain ⟨placed, hPlaced, hRanks⟩ := hRun .start
  have hEq : (placeAutomatic d cs ranks).placed = placed := hRanks
  rw [hEq]
  exact hPlaced

structure Overriding.Once (ranks : List Int) (st : Overriding) : Prop where
  nodup : st.placing.placed.Nodup
  covered : ∀ r ∈ st.placing.placed, r ∈ st.covered
  asked : ∀ r ∈ st.placing.placed, r ∈ ranks

theorem Overriding.Once.placeOverride {st : Overriding} (h : st.Once ranks) (hCount : 0 < d.count)
    (ov : PlacementOverride) : (placeOverride d cs nodes ranks st ov).Once ranks := by
  unfold Plan.placeOverride
  dsimp only
  split
  · exact ⟨h.1, h.2, h.3⟩
  rename_i hNew
  split
  · exact ⟨h.1, h.2, h.3⟩
  rename_i hKnown
  split
  · split
    · exact ⟨h.1, fun r hr => mem_cons_of_mem _ (h.2 r hr), h.3⟩
    · exact ⟨h.1, fun r hr => mem_cons_of_mem _ (h.2 r hr), h.3⟩
  split
  · exact ⟨h.1, h.2, h.3⟩
  rename_i placement pool hAlloc
  have hRanks : Placing.placed ⟨pool, st.placing.placements ++ [placement], st.placing.diagnostics⟩ =
      st.placing.placed ++ [ov.rank] := by
    simp [Placing.placed, (Pool.allocOne_ok hCount hAlloc).rank]
  have hFresh : ov.rank ∉ st.placing.placed := fun hMem => hNew (by simpa using h.covered _ hMem)
  constructor
  · rw [hRanks]
    exact nodup_append.mpr ⟨h.nodup, nodup_singleton _, by
      rintro r hr _ hEq rfl
      exact hFresh (mem_singleton.mp hEq ▸ hr)⟩
  · intro r hr
    rw [hRanks] at hr
    rcases mem_append.mp hr with hOld | hOwn
    · exact mem_cons_of_mem _ (h.covered r hOld)
    · exact mem_singleton.mp hOwn ▸ mem_cons_self
  intro r hr
  rw [hRanks] at hr
  rcases mem_append.mp hr with hOld | hOwn
  · exact h.asked r hOld
  · rw [mem_singleton.mp hOwn]
    simpa using hKnown

theorem placeOverrides_ranks (hCount : 0 < d.count) : (placeOverrides d cs nodes ranks overrides).placed.Nodup ∧
      ∀ r ∈ (placeOverrides d cs nodes ranks overrides).placed, r ∈ ranks := by
  have hRun : ∀ st : Overriding, st.Once ranks →
      (overrides.foldl (placeOverride d cs nodes ranks) st).Once ranks := by
    induction overrides with
    | nil => exact fun st h => h
    | cons ov rest ih => exact fun st h => ih _ (h.placeOverride hCount ov)
  have hDone := hRun ⟨.start, []⟩ ⟨nodup_nil, fun r h => absurd h not_mem_nil, fun r h => absurd h not_mem_nil⟩
  have hSame : (placeOverrides d cs nodes ranks overrides).placed =
      (overrides.foldl (placeOverride d cs nodes ranks) ⟨.start, []⟩).placing.placed := by
    unfold placeOverrides Placing.placed
    rw [(foldl_note _).1]
  rw [hSame]
  exact ⟨hDone.nodup, hDone.asked⟩

theorem place_ranks (hCount : 0 < d.count)
    (hAll : (place d cs nodes ranks overrides).placements.length = ranks.length) :
    (place d cs nodes ranks overrides).placed.Perm ranks := by
  have hLen : (place d cs nodes ranks overrides).placed.length = ranks.length := by
    rw [Placing.placed, length_map, hAll]
  unfold place at hLen ⊢
  split
  next hOverrides =>
    rw [if_pos hOverrides] at hLen
    have hOnce : (placeOverrides d cs nodes ranks overrides).placed.Nodup ∧
        ∀ r ∈ (placeOverrides d cs nodes ranks overrides).placed, r ∈ ranks := placeOverrides_ranks hCount
    exact (subperm_of_subset hOnce.1 hOnce.2).perm_of_length_le hLen.ge
  next hOverrides =>
    rw [if_neg hOverrides] at hLen
    exact List.Perm.of_eq ((placeAutomatic_ranks hCount).eq_of_length hLen)

end LocalModelWorks.Plan
