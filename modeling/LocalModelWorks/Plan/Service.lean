import LocalModelWorks.Plan.Place

/-!
# The planner

`plan`: from the fleet, the leases, a recipe and a request to a previewed deployment.
-/

namespace LocalModelWorks.Plan

open Recipe hiding Diagnostic
open Runs
open Diag (Diagnostic)

inductive AcquisitionPolicy
  | requireExisting | downloadMissing
  deriving DecidableEq

def acquisitionPolicy (policy : String) : Except String AcquisitionPolicy :=
  if policy = "" || policy = "require-existing" then .ok .requireExisting
  else if policy = "download-missing" then .ok .downloadMissing
  else .error ("no suitable nodes: unknown acquisition_policy " ++ quoted policy.toList)

structure AcquisitionTarget where
  nodeID : Text
  cacheRoot : Text
  deriving DecidableEq

structure Acquisition where
  targets : List AcquisitionTarget
  resources : List Resource
  diagnostics : List Diagnostic
  ready : Bool
  deriving DecidableEq

structure PortPreview where
  nodeID : Text
  nodeName : Text
  hostPort : Int
  containerPort : Int
  protocol : String
  deriving DecidableEq

structure Endpoint where
  host : Text
  port : Int
  path : Text
  model : Text
  deriving DecidableEq

structure DeploymentPlan where
  recipeDigest : Text
  recipeName : Text
  parameters : Settings
  variants : Dict Text
  workloadIndex : Nat
  acquisitionPolicy : AcquisitionPolicy
  acquisition : Option Acquisition
  placements : List Placement
  fabric : Option Text
  upstream : List UpstreamPreview
  ports : List PortPreview
  endpoint : Endpoint
  risks : List String
  conflicts : List Conflict
  diagnostics : List Diagnostic
  ready : Bool
  deriving DecidableEq

structure Request where
  recipeDigest : Text
  acquisitionPolicy : String
  workloadIndex : Option Int
  placements : List PlacementOverride
  deriving DecidableEq

structure Fabric where
  id : Text
  ok : Bool
  transport : String
  members : Option (List Text)
  bindings : List MemberBinding
  deriving DecidableEq

structure ActiveEndpoint where
  id : String
  addr : Text
  port : Int
  deriving DecidableEq

inductive Resolved
  | refused (message : String)
  | sshUnavailable (message : String)
  | settings (variants : Dict Text) (values : Settings)
  deriving DecidableEq

structure World where
  nodes : List Node
  distinct : (nodes.map fun n => n.id.text).Nodup
  leases : Lease.Table
  fabrics : List Fabric
  swapTotalBytes : Text → Option Nat
  active : List ActiveEndpoint
  settings : Resolved
  checks : Checks
  model : Text
  probePath : Nat → Text
  downloads : Text → Nat → Dict Text → List Text → Except String Acquisition
  sourceconfig : List File → Settings → (Text → Except String Text) → Except String (List ResolvedFile)
  workerSSH : List Placement → List UpstreamPreview → List Diagnostic

/-- What a plan is made from once its workload is chosen; `held` are the leases that count. -/
structure Selection where
  world : World
  m : Manifest
  index : Nat
  w : Workload
  overrides : List PlacementOverride
  held : List Lease.Row

structure GIDScan where
  gid : Int
  matched : Nat
  ok : Bool
  deriving DecidableEq

variable (nodes : List Text)

def scanBinding (scan : GIDScan) (b : MemberBinding) : GIDScan :=
  match b.gidIndex with
  | none => scan
  | some index =>
    if !nodes.contains b.nodeID then scan
    else ⟨index, scan.matched + 1, scan.ok && !(0 ≤ scan.gid && scan.gid ≠ index)⟩

def sharesGID (bindings : List MemberBinding) : Bool :=
  let scan := bindings.foldl (scanBinding nodes) ⟨-1, 0, true⟩
  scan.ok && scan.matched = nodes.length

def chooseFabric (required : FabricCompat) (nodes : List Text) : List Fabric → Option Text × List Diagnostic
  | [] => (none, [Diag.error "fabric.unavailable" "no fabric matching the recipe requirement covers the placed nodes"])
  | f :: rest =>
    if !f.ok then chooseFabric required nodes rest
    else if required.transport ≠ "" && f.transport ≠ required.transport then chooseFabric required nodes rest
    else
      match f.members with
      | none =>
        let id := String.ofList f.id
        let more := chooseFabric required nodes rest
        (more.1, Diag.warning "fabric.members_malformed" s!"fabric {id} has unparseable members" :: more.2)
      | some members =>
        if !(nodes.all fun n => members.contains n) then chooseFabric required nodes rest
        else if required.sharedGIDIndex && !sharesGID nodes f.bindings then chooseFabric required nodes rest
        else (some f.id, [])

def upstreamProtocolFeature : String := "upstream-execution-v1"

def upstreamConfigurationProtocolFeature : String := "upstream-configuration-v1"

def bindNode (node : RenderNode) (b : MemberBinding) : RenderNode :=
  if b.nodeID ≠ node.nodeID then node
  else
    { node with
      fabricNodeAddr := b.address
      fabricInterface := b.interfaceName
      fabricRDMADevice := b.rdmaDevice
      fabricGIDIndex := match b.gidIndex with
        | some index => (toString index).toList
        | none => node.fabricGIDIndex }

def bound (transport : String) (node : RenderNode) : Bool :=
  node.fabricNodeAddr ≠ [] && node.fabricInterface ≠ [] &&
    (transport ≠ "roce" || (node.fabricRDMADevice ≠ [] && node.fabricGIDIndex ≠ []))

def bindNodes (fabrics : List Fabric) (fabric : Option Text) (nodes : List (Int × RenderNode)) :
    Except String (List (Int × RenderNode)) :=
  match fabric with
  | none => .ok nodes
  | some id =>
    match fabrics.find? fun f => f.id = id with
    | none => .error "upstream fabric: sql: no rows in result set"
    | some f =>
      let done := nodes.map fun entry => (entry.1, f.bindings.foldl bindNode entry.2)
      match done.find? fun entry => !bound f.transport entry.2 with
      | some (rank, _) => .error s!"upstream fabric binding is incomplete for rank {rank}"
      | none => .ok done

def renderDict (c : RenderContext) : Dict Text → Except String (Dict Text)
  | [] => .ok []
  | (k, v) :: rest => do
    let out ← c.render v
    let outs ← renderDict c rest
    .ok ((k, out) :: outs)

def renderCommands (c : RenderContext) : List (List Text) → Except String (List (List Text))
  | [] => .ok []
  | command :: rest => do
    let out ← renderArgs c command
    let outs ← renderCommands c rest
    .ok (out :: outs)

variable (m : Manifest) (w : Workload)

def renderUpstream (u : UpstreamExecution) (c : RenderContext) : Except String (UpstreamExecution × Dict Text) := do
  let start ← renderArgs c u.start
  let stop ← renderArgs c u.stop
  let containers ← renderArgs c ((u.containersByRank.lookup c.nodeRank).getD u.containers)
  let auxiliary ← renderArgs c u.auxiliaryContainers
  let install ← renderCommands c ((u.installByRank.lookup c.nodeRank).getD u.install)
  let environment ← renderDict c (w.env.filter fun entry => !omitted m c.settings entry.2)
  .ok ({ u with
      install := install
      installByRank := []
      start := start
      stop := stop
      containers := containers
      containersByRank := []
      auxiliaryContainers := auxiliary }, environment)

def noNode : RenderNode := ⟨[], [], [], [], [], []⟩

def peers (nodes : List (Int × RenderNode)) : List (Nat × RenderNode) :=
  nodes.filterMap fun entry => if 0 ≤ entry.1 then some (entry.1.toNat, entry.2) else none

variable (values : Settings)

def upstreamContext (nodes : List (Int × RenderNode)) (pl : Placement) : RenderContext :=
  let node := (nodes.lookup pl.rank).getD noNode
  ⟨node.nodeID, pl.rank, node.nodeAddress, pl.acceleratorBinding, ((nodes.lookup 0).getD noNode).fabricNodeAddr,
    node.fabricNodeAddr, node.fabricInterface, node.fabricRDMADevice, node.fabricGIDIndex, [], values, peers nodes⟩

variable (world : World) (m : Manifest) (w : Workload) (u : UpstreamExecution)

def previewRank (source : Source)
    (values : Settings) (nodes : List (Int × RenderNode)) (pl : Placement) : Except String UpstreamPreview := do
  let c := upstreamContext values nodes pl
  let rendered ← renderUpstream m w u c
  let configuration ← world.sourceconfig rendered.1.configuration values c.render
  .ok ⟨pl.nodeID, pl.nodeName, pl.rank, source, rendered.1, rendered.2, configuration⟩

def previewRanks (preview : Placement → Except String UpstreamPreview) :
    List Placement → List UpstreamPreview × Option String
  | [] => ([], none)
  | pl :: rest =>
    let rank := pl.rank
    match preview pl with
    | .error message => ([], some s!"upstream rank {rank}: {message}")
    | .ok u => (u :: (previewRanks preview rest).1, (previewRanks preview rest).2)

def previewUpstream (values : Settings)
    (fabric : Option Text) (nodes : List (Int × RenderNode)) (placements : List Placement) :
    List UpstreamPreview × Option String :=
  match m.source with
  | none =>
    ([], some "upstream execution requires a pinned source and explicit host.upstream-exec permission")
  | some source =>
    if !w.permissions.contains "host.upstream-exec" then
      ([], some "upstream execution requires a pinned source and explicit host.upstream-exec permission")
    else
      match bindNodes world.fabrics fabric nodes with
      | .error message => ([], some message)
      | .ok nodes => previewRanks (previewRank world m w u source values nodes) placements

variable (pl : Placement)

def publishes : Bool :=
  !(w.upstream.bind (·.coordinatorRank)).any fun coordinator => pl.rank ≠ coordinator

def hostPort (rank : Int) (p : Port) : Int :=
  if w.upstream.isSome then hostBase p else hostBase p + rank

def portPreviews : List PortPreview :=
  if publishes w pl then
    w.ports.map fun p => ⟨pl.nodeID, pl.nodeName, int32 (hostPort w pl.rank p), int32 p.container, portProtocol p⟩
  else []

def leasedPorts (held : List Lease.Row) (w : Workload) (pl : Placement) : List Conflict :=
  if publishes w pl then
    w.ports.filterMap fun p =>
      (leaseOf held (portLease pl.nodeID (hostPort w pl.rank p))).map fun row =>
        conflictWith (portLease pl.nodeID (hostPort w pl.rank p)) row.owner
  else []

def dropGeneric (conflicts : List Conflict) : List Conflict :=
  conflicts.filter fun c =>
    !(c.deploymentID = none && conflicts.any fun owned => owned.deploymentID ≠ none && owned.resource = c.resource)

def settingString (key : Text) : Text :=
  match values.lookup key with
  | some (.string text) => text
  | _ => []

namespace Selection

variable (s : Selection)

def candidates : List Candidate := Plan.candidates s.m s.w s.held s.world.nodes

def ranks : List Int := rankList s.m s.w

def placing : Placing := place (demand s.m s.w) s.candidates s.world.nodes s.ranks s.overrides

def placements : List Placement := s.placing.placements.insertionSort fun a b => a.rank ≤ b.rank

def allPlaced : Bool := s.placements.length = s.ranks.length

variable (nodeID : Text)

def candidate : Option Candidate := s.candidates.find? fun c => c.nodeID = nodeID

def placedNodes : List Text := (s.placements.map (·.nodeID)).dedup

def fabric : Option Text × List Diagnostic :=
  match s.m.compatibility.fabric with
  | none => (none, [])
  | some required => chooseFabric required s.placedNodes s.world.fabrics

def hostDiagnostics (prep : HostPreparation) (nodeID nodeName : Text) : List Diagnostic :=
  let name := String.ofList nodeName
  let resource := "node:" ++ String.ofList nodeID
  match s.world.swapTotalBytes nodeID with
  | none =>
    [(Diag.error "host.telemetry_unavailable"
      s!"node {name} has no fresh memory telemetry; wait for its agent before launching").res resource]
  | some swap =>
    if prep.requireSwap && int64 swap = 0 then
      [(Diag.error "host.swap_disabled"
        s!"node {name} has swap disabled; this recipe requires enabled swap with vm.swappiness=0").res resource]
    else []

def firstPerNode : List Text → List Placement → List Placement
  | _, [] => []
  | seen, pl :: rest =>
    if seen.contains pl.nodeID then firstPerNode seen rest else pl :: firstPerNode (pl.nodeID :: seen) rest

def hostPreparation : List Diagnostic :=
  match s.w.hostPreparation with
  | none => []
  | some prep => (firstPerNode [] s.placements).flatMap fun pl => s.hostDiagnostics prep pl.nodeID pl.nodeName

def ports : List PortPreview := s.placements.flatMap (portPreviews s.w)

def address (pl : Placement) : Text := ((s.candidate pl.nodeID).map (·.addr)).getD pl.nodeName

def portUsers (addr : Text) (port : Int) : List Text :=
  s.placements.flatMap fun pl =>
    if publishes s.w pl && s.address pl = addr then
      (s.w.ports.filter fun p => hostPort s.w pl.rank p = port).map fun _ => pl.nodeID
    else []

variable (ignored : List String)

def endpointConflicts : List Conflict :=
  (s.world.active.filter fun d => !ignored.contains d.id).flatMap fun d =>
    (s.portUsers d.addr d.port).map fun nodeID => ⟨portLease nodeID d.port, d.id, some d.id⟩

def blocked : List Conflict :=
  if s.placements.length < s.ranks.length then blockedAccelerators s.m s.w s.held s.world.nodes else []

def portConflicts : List Conflict :=
  if s.w.ports = [] then s.blocked
  else dropGeneric (s.blocked ++ s.placements.flatMap (leasedPorts s.held s.w) ++ s.endpointConflicts ignored)

variable (values : Settings)

def modelName : Text :=
  let model := settingString values "model".toList
  let defaulted := match s.m.effectiveSettings s.world.checks [] with
    | .ok defaults => settingString defaults "model".toList
    | .error _ => []
  if model ≠ [] then model else if defaulted ≠ [] then defaulted else s.world.model

def endpoint : Endpoint :=
  match s.w.ports, s.placements with
  | first :: _, r0 :: _ =>
    ⟨s.address r0, int32 (hostBase first + r0.rank), s.world.probePath s.index, s.modelName values⟩
  | _, _ => ⟨[], 0, [], []⟩

def supports (feature : String) : Bool :=
  ((s.candidate nodeID).bind (·.inv)).any fun inv => inv.protocolFeatures.contains feature

def renderNodes : List (Int × RenderNode) :=
  s.placements.reverse.map fun pl =>
    (pl.rank, ⟨pl.nodeID, (((s.candidate pl.nodeID).bind (·.inv)).map (·.address)).getD [], [], [], [], []⟩)

def upstream : List UpstreamPreview × Option String :=
  match s.w.upstream with
  | none => ([], none)
  | some u =>
    if s.allPlaced then previewUpstream s.world s.m s.w u values s.fabric.1 s.renderNodes s.placements else ([], none)

def authorityDiagnostics : List Diagnostic :=
  (s.placements.filter fun pl => !s.supports pl.nodeID upstreamProtocolFeature).map fun pl =>
    let name := String.ofList pl.nodeName
    Diag.error "upstream.authority_unavailable" (s!"node {name} must advertise upstream-execution-v1 with " ++
      "node-administrator host execution authority explicitly enabled")

def reviewDiagnostics (error : Option String) : List Diagnostic :=
  match error with
  | some message => [Diag.error "upstream.review_incomplete" message]
  | none => [Diag.warning "upstream.host_execution" (
      "The original repository runs as the node agent account, with access to its Docker daemon and host resources. " ++
      "Upstream owns downloads, builds, caches and dependency selection; managed-resource inventory does not constrain " ++
      "those operations. A source commit does not pin upstream image tags or model downloads.")]

def configurationDiagnostics (previews : List UpstreamPreview) : List Diagnostic :=
  (previews.filter fun u => u.configuration ≠ [] && !s.supports u.nodeID upstreamConfigurationProtocolFeature).map
    fun u =>
      let name := String.ofList u.nodeName
      Diag.error "upstream.configuration_unavailable" (s!"node {name} needs an updated agent supporting " ++
        "upstream-configuration-v1 before runtime overrides can be applied")

def upstreamDiagnostics : List Diagnostic :=
  if s.w.upstream.isSome && s.allPlaced then
    let preview := s.upstream values
    s.authorityDiagnostics ++ reviewDiagnostics preview.2 ++ s.world.workerSSH s.placements preview.1 ++
      s.configurationDiagnostics preview.1
  else []

def nodeConflicts : List Conflict :=
  s.placements.flatMap fun pl =>
    (s.held.filter fun row => row.resource = nodeLease pl.nodeID ||
      (s.w.upstream.isSome && Lease.resourcesConflict (nodeLease pl.nodeID) row.resource)).map fun row =>
        conflictWith row.resource row.owner

def conflicts : List Conflict := s.portConflicts ignored ++ s.nodeConflicts

end Selection

def Verification.exact (v : Verification) : Bool := v.state = .available && !v.stale && v.verifiedAt.isSome

def acquisitionDiagnostics (policy : AcquisitionPolicy) (a : Acquisition) : List Diagnostic :=
  a.diagnostics ++
    (if policy = .requireExisting && a.resources.any fun r => r.required && !r.verification.exact then
      [Diag.error "acquisition.missing_resources" ("required resources are not exactly available on every selected " ++
        "node; review download-missing to acquire them")]
    else []) ++
    (if !a.ready && !Diag.hasError a.diagnostics then
      [Diag.error "acquisition.not_ready" "required acquisition resources cannot be resolved or prepared"]
    else [])

variable (s : Selection)

def Selection.planAcquisition (digest : Text) (variants : Dict Text) : Except String (Option Acquisition) :=
  if !s.allPlaced then .ok none
  else if s.placements = [] then .error "plan not ready: acquisition requires explicit target nodes"
  else
    match s.world.downloads digest s.index variants (sortText s.placedNodes) with
    | .error message => .error s!"plan not ready: acquisition preview: {message}"
    | .ok acquisition => .ok (some acquisition)

def highRiskPermissions (m : Manifest) : List String :=
  let ofWorkload := fun w : Workload =>
    (if w.upstream.isSome then ["host.upstream-exec"] else []) ++
      (if w.networkMode = "host" then ["network.host"] else []) ++
      (if (w.devices.bind (·.rdma)).any fun r => r.all || r.devices ≠ [] then ["devices.rdma"] else []) ++
      (if 1024 * 1024 * 1024 ≤ w.resources.shmBytes then ["memory.shm-large"] else []) ++ w.permissions
  let egress := fun e : Option Extension => if e.any (·.network = "egress") then ["network.egress"] else []
  ((m.workloads.flatMap ofWorkload ++ egress m.prepare ++ egress m.verify).dedup).insertionSort fun a b => !(b < a)

variable (name : Text) (req : Request)

def Selection.finish (ignored : List String) (policy : AcquisitionPolicy)
    (variants : Dict Text) (values : Settings) (acquisition : Option Acquisition) : DeploymentPlan :=
  let diagnostics := s.placing.diagnostics ++ s.fabric.2 ++ s.hostPreparation ++
    (acquisition.toList.flatMap (acquisitionDiagnostics policy)) ++ s.upstreamDiagnostics values
  ⟨req.recipeDigest, name, values, variants, s.index, policy, acquisition, s.placements, s.fabric.1,
    (s.upstream values).1, s.ports, s.endpoint values, highRiskPermissions s.m, s.conflicts ignored, diagnostics,
    s.allPlaced && s.conflicts ignored = [] && !Diag.hasError diagnostics⟩

def unreachablePlan (policy : AcquisitionPolicy) (message : String) : DeploymentPlan :=
  ⟨req.recipeDigest, name, [], [], 0, policy, none, [], none, [], [], ⟨[], 0, [], []⟩, [], [],
    [Diag.error "upstream.worker_ssh_unavailable" message], false⟩

def selectionOf (world : World) (m : Manifest) (req : Request) (ignored : List String) (index : Nat) (w : Workload) :
    Selection :=
  ⟨world, m, index, w, req.placements, leased world.leases ignored⟩

def plan (world : World) (name : Text) (m : Manifest) (req : Request) (ignored : List String) :
    Except String DeploymentPlan := do
  let policy ← acquisitionPolicy req.acquisitionPolicy
  match world.settings with
  | .refused message => .error message
  | .sshUnavailable message => .ok (unreachablePlan name req policy message)
  | .settings variants values =>
    let chosen ← chooseWorkload m world.nodes req.workloadIndex req.placements
    let s := selectionOf world m req ignored chosen.1 chosen.2
    let acquisition ← s.planAcquisition req.recipeDigest variants
    .ok (s.finish name req ignored policy variants values acquisition)

structure Ready (world : World) (m : Manifest) (req : Request) (ignored : List String) (s : Selection)
    (values : Settings) (p : DeploymentPlan) : Prop where
  fleet : s.world = world
  recipe : s.m = m
  overrides : s.overrides = req.placements
  held : s.held = leased world.leases ignored
  chosen : chooseWorkload m world.nodes req.workloadIndex req.placements = .ok (s.index, s.w)
  placements : p.placements = s.placements
  fabric : p.fabric = s.fabric.1
  upstream : p.upstream = (s.upstream values).1
  ports : p.ports = s.ports
  endpoint : p.endpoint = s.endpoint values
  all : s.placements.length = s.ranks.length
  clear : s.conflicts ignored = []
  covered : Diag.hasError s.fabric.2 = false
  reviewed : Diag.hasError (s.upstreamDiagnostics values) = false

theorem hasError_append (xs ys : List Diagnostic) :
    Diag.hasError (xs ++ ys) = (Diag.hasError xs || Diag.hasError ys) := List.any_append

theorem plan_ready {world : World} {name : Text} {m : Manifest} {req : Request} {ignored : List String}
    {p : DeploymentPlan} (h : plan world name m req ignored = .ok p) (hReady : p.ready = true) :
    ∃ s values, Ready world m req ignored s values p := by
  unfold plan at h
  simp only [bind, Except.bind] at h
  split at h
  · cases h
  split at h
  · cases h
  · cases h
    cases hReady
  rename_i variants values _
  split at h
  · cases h
  rename_i chosen hChosen
  split at h
  · cases h
  cases h
  have hParts := hReady
  simp only [Selection.finish, Selection.allPlaced, Bool.and_eq_true, decide_eq_true_eq, hasError_append,
    Bool.not_eq_true', Bool.or_eq_false_iff] at hParts
  exact ⟨_, values, rfl, rfl, rfl, rfl, hChosen, rfl, rfl, rfl, rfl, rfl, hParts.1.1, hParts.1.2, hParts.2.1.1.1.2,
    hParts.2.2⟩

end LocalModelWorks.Plan
