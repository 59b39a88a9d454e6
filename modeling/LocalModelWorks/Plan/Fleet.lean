import LocalModelWorks.Diag
import LocalModelWorks.Plan.RenderSpec
import LocalModelWorks.Runs.Lease

/-!
# The fleet and its candidates

The inputs of the planner: enrolled nodes with their inventories and the active leases.
The workload variant it chooses, the ranks it has to place, and the candidates: the
online nodes with enough free accelerators.
-/

namespace LocalModelWorks.Plan

open Recipe (Text Manifest Workload)
open Runs

structure Accelerator where
  index : Int
  vendor : String
  architecture : String
  uuid : Text
  memoryBytes : Nat
  features : List String
  deriving DecidableEq

/-- The parts of a node's report that planning reads; `address` is the one that `firstNonLoopback` finds. -/
structure Inventory where
  accelerators : List Accelerator
  address : Text
  protocolFeatures : List String
  deriving DecidableEq

structure Node where
  id : Lease.NodeID
  displayName : Text
  online : Bool
  inventory : Option Inventory

structure PlacementOverride where
  nodeID : Text
  rank : Int
  deriving DecidableEq

/-- Go's conversion to a 32-bit integer. -/
def int32 (n : Int) : Int := n.bmod 4294967296

def int64 (n : Nat) : Int := (n : Int).bmod 18446744073709551616

def gpuLease (nodeID uuid : Text) : Text := "gpu:".toList ++ nodeID ++ ':' :: uuid

def portLease (nodeID : Text) (port : Int) : Text := "port:".toList ++ nodeID ++ ':' :: (toString port).toList

def nodeLease (nodeID : Text) : Text := "upstream-node:".toList ++ nodeID

def fabricLease (id : Text) : Text := "fabric:".toList ++ id

def leased (leases : Lease.Table) (ignored : List String) : List Lease.Row :=
  leases.filter fun row => row.active && !(row.owner.kind = .deployment && ignored.contains row.owner.id)

def leaseOf (held : List Lease.Row) (resource : Text) : Option Lease.Row := held.find? fun row => row.resource = resource

theorem mem_leased {leases : Lease.Table} {ignored : List String} {row : Lease.Row} : row ∈ leased leases ignored ↔
      row ∈ leases ∧ row.active = true ∧ (row.owner.kind = .deployment → row.owner.id ∉ ignored) := by
  simp [leased, imp_iff_not_or]

variable {resource rest kind : Text} {n : Lease.NodeID}

theorem leaseOf_eq_none {held : List Lease.Row} :
    leaseOf held resource = none ↔ ∀ row ∈ held, row.resource ≠ resource := by
  simp [leaseOf]

theorem dropPrefix_eq_some {text head : Text} : text.dropPrefix? head = some rest ↔ text = head ++ rest := by
  rw [List.dropPrefix?_eq_some_iff]
  constructor
  · rintro ⟨found, rfl, hFound⟩
    rw [beq_iff_eq.mp hFound]
  · intro hText
    exact ⟨head, hText, beq_self_eq_true head⟩

def OnWholeNode (kind rest node : Text) : Bool :=
  if kind = "node".toList ∨ kind = "upstream-node".toList then rest == node
  else if kind = "gpu".toList ∨ kind = "port".toList then Lease.cutBefore rest == node
  else false

theorem upstreamNodeConflict_iff (hKind : ':' ∉ kind) :
    Lease.upstreamNodeConflict resource (kind ++ ':' :: rest) = true ↔
      ∃ node, node ≠ [] ∧ resource = nodeLease node ∧ OnWholeNode kind rest node = true := by
  have hColon : ':' ∈ kind ++ ':' :: rest := List.mem_append_right _ List.mem_cons_self
  unfold Lease.upstreamNodeConflict
  rw [Lease.cutBefore_append hKind, Lease.cutAfter_append hKind]
  constructor
  · intro h
    split at h
    · cases h
    rename_i node hDrop
    split at h
    · cases h
    rename_i hSome
    exact ⟨node, hSome, dropPrefix_eq_some.mp hDrop, h⟩
  rintro ⟨node, hSome, hResource, h⟩
  rw [dropPrefix_eq_some.mpr hResource]
  change (if node = [] then false else if ':' ∉ kind ++ ':' :: rest then false else OnWholeNode kind rest node) = true
  rw [if_neg hSome, if_neg (not_not.mpr hColon), h]

theorem resourcesConflict_iff (hKind : ':' ∉ kind) (hNode : kind ≠ "upstream-node".toList) :
    Lease.resourcesConflict (kind ++ ':' :: rest) resource = true ↔
      resource = kind ++ ':' :: rest ∨
        ∃ node, node ≠ [] ∧ resource = nodeLease node ∧ OnWholeNode kind rest node = true := by
  have hNot : Lease.upstreamNodeConflict (kind ++ ':' :: rest) resource = false := by
    unfold Lease.upstreamNodeConflict
    split
    · rfl
    rename_i node hDrop
    have hText := dropPrefix_eq_some.mp hDrop
    have hCut := congrArg Lease.cutBefore hText
    rw [Lease.cutBefore_append hKind] at hCut
    exact absurd hCut hNode
  rw [Lease.resourcesConflict, hNot, Bool.false_or, Bool.or_eq_true, upstreamNodeConflict_iff hKind, beq_iff_eq, eq_comm]

theorem resourcesConflict_part (hKind : kind = "gpu".toList ∨ kind = "port".toList) :
    Lease.resourcesConflict (kind ++ ':' :: (n.text ++ ':' :: rest)) resource = true ↔
      resource = kind ++ ':' :: (n.text ++ ':' :: rest) ∨ resource = nodeLease n.text := by
  have hNames : ':' ∉ kind ∧ kind ≠ "upstream-node".toList ∧ ¬(kind = "node".toList ∨ kind = "upstream-node".toList) := by
    rcases hKind with rfl | rfl
    · decide
    · decide
  have hOn : ∀ node, OnWholeNode kind (n.text ++ ':' :: rest) node = true ↔ n.text = node := fun node => by
    rw [OnWholeNode, if_neg hNames.2.2, if_pos hKind, Lease.cutBefore_append n.noColon, beq_iff_eq]
  rw [resourcesConflict_iff hNames.1 hNames.2.1]
  simp only [hOn]
  refine or_congr_right ⟨?_, fun h => ⟨n.text, n.nonempty, h, rfl⟩⟩
  rintro ⟨_, _, hWhole, rfl⟩
  exact hWhole

theorem resourcesConflict_gpu {uuid : Text} : Lease.resourcesConflict (gpuLease n.text uuid) resource = true ↔
      resource = gpuLease n.text uuid ∨ resource = nodeLease n.text := resourcesConflict_part (.inl rfl)

structure Conflict where
  resource : Text
  occupiedBy : String
  deploymentID : Option String
  deriving DecidableEq

def conflictWith (resource : Text) (owner : Lease.Owner) : Conflict :=
  ⟨resource, owner.id, if owner.kind = .deployment then some owner.id else none⟩

structure AccRequirement where
  required : Bool
  vendor : String
  architectures : List String
  minMemory : Int
  features : List String
  count : Nat
  deriving DecidableEq

def accelRequirement (m : Manifest) : AccRequirement :=
  let required := m.workloads.any fun w => (w.devices.bind (·.accelerator)).isSome
  match m.compatibility.accelerator with
  | none => ⟨required, "", [], 0, [], 1⟩
  | some a => ⟨true, a.vendor, a.architectures, a.minMemoryBytes, a.features, if 0 < a.count then a.count.toNat else 1⟩

theorem accelRequirement_count (m : Manifest) : 0 < (accelRequirement m).count := by
  unfold accelRequirement
  split
  · exact Nat.one_pos
  dsimp only
  split
  · omega
  · exact Nat.one_pos

def matchesAcc (req : AccRequirement) (a : Accelerator) : Bool :=
  (req.vendor = "" || a.vendor = req.vendor) &&
    (req.architectures = [] || req.architectures.contains a.architecture) &&
    (req.minMemory ≤ 0 || req.minMemory ≤ int64 a.memoryBytes) &&
    req.features.all fun f => a.features.contains f

section

variable (m : Manifest) (w : Workload)

def workloadNodeCount : Int :=
  if w.ranks ≠ [] then w.ranks.length
  else if 0 < m.compatibility.nodeCount then m.compatibility.nodeCount
  else 1

variable (nodeCount : Int)

def matchesWorkloadAccelerator (a : Accelerator) : Bool :=
  satisfiedBy w.match ⟨nodeCount, a.vendor, a.architecture, a.features⟩

def matchAccelerator : Option Recipe.MatchAcc := w.match.bind (·.accelerator)

def devAll : Bool := (w.devices.bind (·.accelerator)).any (·.all)

def devIndices : List Int :=
  match w.devices.bind (·.accelerator) with
  | some d => d.indices
  | none => []

def atIndices (accelerators : List Accelerator) (indices : List Int) : List Accelerator :=
  indices.flatMap fun index => accelerators.filter fun a => a.index = index

def variantMatchesInventory (inv : Inventory) : Bool :=
  let indices := devIndices w
  let accelerators := if indices = [] then inv.accelerators else atIndices inv.accelerators indices
  let requireAll := devAll w || indices ≠ []
  let matched := fun a => matchesWorkloadAccelerator w nodeCount a
  if indices ≠ [] && accelerators.length ≠ indices.length then false
  else if accelerators = [] then false
  else if requireAll then accelerators.all matched
  else accelerators.any matched

def variantMatchesNode (n : Node) : Bool :=
  if w.match = none then true
  else if matchAccelerator w = none then satisfiedBy w.match ⟨nodeCount, "", "", []⟩
  else
    match n.inventory with
    | none => false
    | some inv => variantMatchesInventory w nodeCount inv

variable (nodes : List Node)

def variantMatchesNodes (overrides : List PlacementOverride) : Bool :=
  let required := (overrides.map (·.nodeID)).dedup
  let matching := nodes.countP fun n =>
    n.online && (required = [] || required.contains n.id.text) && variantMatchesNode w nodeCount n
  if required ≠ [] then matching = required.length else nodeCount ≤ matching

/-- The explicit variant, the first one without nodes, or the first one that the fleet can satisfy. -/
def chooseWorkload (index : Option Int) (overrides : List PlacementOverride) : Except String (Nat × Workload) :=
  match index with
  | some i =>
    if 0 ≤ i then
      match m.workloads[i.toNat]? with
      | some w => .ok (i.toNat, w)
      | none => .error "no suitable nodes: workload index is outside the recipe"
    else .error "no suitable nodes: workload index is outside the recipe"
  | none =>
    match m.workloads.zipIdx.find? fun (w, _) =>
      nodes.isEmpty || variantMatchesNodes w (workloadNodeCount m w) nodes overrides with
    | some (w, i) => .ok (i, w)
    | none => .error "no suitable nodes: no workload variant matches the fleet"

def declaredRanks : List Int :=
  if w.ranks ≠ [] then w.ranks else (List.range (workloadNodeCount m w).toNat).map Int.ofNat

def rankList : List Int :=
  ((declaredRanks m w).map int32).insertionSort fun a b => a ≤ b

end

theorem rankList_perm (m : Manifest) (w : Workload) : (rankList m w).Perm ((declaredRanks m w).map int32) :=
  List.perm_insertionSort _ _

structure Candidate where
  nodeID : Text
  nodeName : Text
  addr : Text
  inv : Option Inventory
  free : List Accelerator
  deriving DecidableEq

variable (m : Manifest) (w : Workload)

def suits (a : Accelerator) : Bool :=
  matchesAcc (accelRequirement m) a &&
    (matchAccelerator w = none || matchesWorkloadAccelerator w (workloadNodeCount m w) a)

variable (held : List Lease.Row) (n : Node)

def freeDevices (inv : Inventory) : List Accelerator :=
  inv.accelerators.filter fun a => suits m w a && (leaseOf held (gpuLease n.id.text a.uuid)).isNone

def enough (free : List Accelerator) : Bool :=
  decide ((if devAll w then 1 else (accelRequirement m).count) ≤ free.length) &&
    (devIndices w).all fun index => free.any fun a => a.index = index

def candidateOf : Option Candidate :=
  let found := (n.inventory.map (·.address)).getD []
  let addr := if found = [] then n.displayName else found
  if !n.online then none
  else if (accelRequirement m).required then
    match n.inventory with
    | none => none
    | some inv =>
      let free := freeDevices m w held n inv
      if enough m w free then some ⟨n.id.text, n.displayName, addr, some inv, free⟩ else none
  else some ⟨n.id.text, n.displayName, addr, n.inventory, []⟩

variable (nodes : List Node)

def candidates : List Candidate :=
  nodes.filterMap (candidateOf m w held)

def blockedAccelerators : List Conflict :=
  let blocked := nodes.flatMap fun n =>
    if n.online && (accelRequirement m).required then
      (n.inventory.toList.flatMap fun inv => inv.accelerators.filter (suits m w)).filterMap fun a =>
        if devIndices w = [] || (devIndices w).contains a.index then
          (leaseOf held (gpuLease n.id.text a.uuid)).map fun row => conflictWith (gpuLease n.id.text a.uuid) row.owner
        else none
    else []
  blocked.dedup.insertionSort fun a b => !(b.resource < a.resource)

theorem mem_candidates {m : Manifest} {w : Workload} {held : List Lease.Row} {nodes : List Node} {c : Candidate}
    (h : c ∈ candidates m w held nodes) : ∃ n ∈ nodes, n.online = true ∧ c.nodeID = n.id.text ∧
      c.nodeName = n.displayName ∧ (∀ a ∈ c.free, ∃ inv, n.inventory = some inv ∧ a ∈ inv.accelerators ∧
        suits m w a = true ∧ leaseOf held (gpuLease n.id.text a.uuid) = none) ∧
      ((accelRequirement m).required = true → enough m w c.free = true) := by
  obtain ⟨n, hNode, hCand⟩ := List.mem_filterMap.mp h
  unfold candidateOf at hCand
  dsimp only at hCand
  split at hCand
  · cases hCand
  rename_i hOnline
  rw [Bool.not_eq_true', Bool.not_eq_false] at hOnline
  refine ⟨n, hNode, hOnline, ?_⟩
  split at hCand
  next hMust =>
    split at hCand
    · cases hCand
    rename_i inv hInv
    split at hCand
    next hEnough =>
      cases hCand
      refine ⟨rfl, rfl, fun a hFree => ?_, fun _ => hEnough⟩
      obtain ⟨hMem, hSuits⟩ := List.mem_filter.mp hFree
      rw [Bool.and_eq_true, Option.isNone_iff_eq_none] at hSuits
      exact ⟨inv, hInv, hMem, hSuits⟩
    · cases hCand
  next hMust =>
    cases hCand
    exact ⟨rfl, rfl, fun a hFree => absurd hFree List.not_mem_nil, fun h => absurd h hMust⟩

end LocalModelWorks.Plan
