import LocalModelWorks.Plan.Document

/-!
# Container specifications

`renderSpec` and `renderExtensionSpec`. The validator and the renderer decide on tokens
and permissions with code of their own.
-/

namespace LocalModelWorks.Plan

open Recipe List Option RenderContext

structure Target where
  nodeCount : Int
  vendor : String
  architecture : String
  features : List String
  deriving DecidableEq

/-- `SatisfiedBy`: an absent predicate matches everything. -/
def satisfiedBy (predicate : Option Match) (t : Target) : Bool :=
  match predicate with
  | none => true
  | some p =>
    (p.nodeCount = 0 || p.nodeCount = t.nodeCount) &&
      match p.accelerator with
      | none => true
      | some a =>
        (a.vendor = "" || a.vendor = t.vendor) &&
          (a.architectures = [] || a.architectures.contains t.architecture) &&
          a.features.all fun f => t.features.contains f

structure MemberBinding where
  nodeID : Text
  interfaceName : Text
  address : Text
  rdmaDevice : Text
  gidIndex : Option Int
  deriving DecidableEq

structure FabricRow where
  transport : String
  bindings : List MemberBinding
  deriving DecidableEq

/-- What the renderer reads besides the row and the manifest: identities of sources, the revision in an
identity, the address in a node's inventory, fabrics, and the target of a row without a workload index. -/
structure Env where
  canonical : ArtSource → Except String Text
  revision : Text → Option Text
  address : Text → Text
  fabric : Text → Option FabricRow
  target : Target

structure PortSpec where
  host : Int
  container : Int
  protocol : String
  deriving DecidableEq

structure MountSpec where
  source : Text
  dest : Text
  deriving DecidableEq

structure ContainerSpec where
  name : Text
  image : Text
  imageDigest : Text
  imagePlatform : Text
  entrypoint : List Text
  cmd : List Text
  env : List Text
  networkMode : String
  readonlyRootfs : Bool
  hostPreparation : Option HostPreparation
  gpuDeviceIDs : List Text
  gpusAll : Bool
  rdmaPaths : List Text
  shmBytes : Int
  tmpfsBytes : Int
  pidsLimit : Int
  ports : List PortSpec
  mounts : List MountSpec
  upstream : Option UpstreamPreview
  observeOnly : Bool
  acquisitionResources : List ResourceSpec
  deriving DecidableEq

def cleanName (rooted : Bool) (stack : List Text) (name : Text) : List Text :=
  if name = [] ∨ name = ['.'] then stack
  else if name = ['.', '.'] then
    match stack with
    | [] => if rooted then [] else [name]
    | top :: rest => if top = ['.', '.'] then name :: stack else rest
  else name :: stack

def joinPath (dest : Text) (names : List Text) : Text :=
  let rooted := ['/'].isPrefixOf dest
  (if rooted then ['/'] else []) ++
    ['/'].intercalate ((dest.splitOn '/' ++ names).foldl (cleanName rooted) []).reverse

variable (ps : PlacementSet)

def acquisitionPath (nodeID identity : Text) : Except String Text :=
  match ps.acquisitionResources.find? fun r =>
    r.nodeID = nodeID && r.spec.identity = identity && r.spec.kind ≠ .image && r.spec.destination ≠ [] with
  | some r => .ok r.spec.destination
  | none => .error ("resource " ++ String.ofList identity ++ " has no reviewed destination on node " ++
      String.ofList nodeID)

def packageIdentity (recipeDigest : Text) : Text := "recipe://".toList ++ recipeDigest

variable (spec : ContainerSpec)

def applyResource (r : Resource) : ContainerSpec × Bool :=
  let spec := { spec with acquisitionResources := spec.acquisitionResources ++ [r.spec] }
  if r.spec.kind = .image ∧ (r.spec.indexDigest = spec.imageDigest ∨ r.spec.manifestDigest = spec.imageDigest) then
    ({ spec with
        image := r.spec.source.reference
        imageDigest := r.spec.indexDigest
        imagePlatform := r.spec.platform }, true)
  else (spec, false)

def applyResources : ContainerSpec → List Resource → ContainerSpec × Bool
  | spec, [] => (spec, false)
  | spec, r :: rest =>
    let done := applyResource spec r
    let more := applyResources done.1 rest
    (more.1, done.2 || more.2)

variable (nodeID : Text)

def nodeResources : List Resource :=
  ps.acquisitionResources.filter fun r => r.nodeID = nodeID && r.required

def applyAcquisitionSpec (recipeDigest : Text) (ps : PlacementSet) (nodeID : Text) : Except String ContainerSpec :=
  let resources := nodeResources ps nodeID
  let done := applyResources spec resources
  if spec.upstream.isSome && !(resources.any fun r =>
      r.spec.kind = .recipe && r.spec.identity = packageIdentity recipeDigest) then
    .error ("upstream recipe package has no reviewed resource on node " ++ String.ofList nodeID)
  else if spec.upstream.isNone && !done.2 then
    .error ("container image has no reviewed platform manifest on node " ++ String.ofList nodeID)
  else .ok done.1

structure FabricContext where
  address : Text
  nodeAddress : Text
  interface : Text
  rdmaDevice : Text
  gidIndex : Text
  deriving DecidableEq

def bindFabric (head : Option Placement) (c : FabricContext) (b : MemberBinding) : FabricContext :=
  let c := if b.nodeID = nodeID then
    { c with
      nodeAddress := b.address
      interface := b.interfaceName
      rdmaDevice := b.rdmaDevice
      gidIndex := match b.gidIndex with
        | some index => (toString index).toList
        | none => c.gidIndex }
    else c
  if head.any fun entry => b.nodeID = entry.nodeID then { c with address := b.address } else c

variable (env : Env) (row : Row)

def fabricContext (rank : Int) (nodeID : Text) : Except String FabricContext :=
  match row.fabric with
  | none => .ok ⟨[], [], [], [], []⟩
  | some id =>
    match env.fabric id with
    | none => .error "fabric binding: no rows in result set"
    | some fabric =>
      let c := fabric.bindings.foldl (bindFabric nodeID (row.placement.entryFor 0)) ⟨[], [], [], [], []⟩
      let node := String.ofList nodeID
      if c.address = [] || c.nodeAddress = [] || c.interface = [] then
        .error s!"fabric binding is incomplete for rank {rank} on node {node}"
      else if fabric.transport = "roce" && (c.rdmaDevice = [] || c.gidIndex = []) then
        .error s!"RoCE binding is incomplete for rank {rank} on node {node}"
      else .ok c

variable (a : Artifact)

def artifactDest : Text := if a.mount = [] then "/var/lib/lmw/artifacts/".toList ++ a.name else a.mount

def canonicalArtifactIdentity : Except String Text := do
  let source ← a.effectiveSource ((row.placement.variants.lookup a.name).getD [])
  env.canonical source

def renderedPath (identity : Text) : Text :=
  match env.revision identity with
  | some revision => joinPath (artifactDest a) ["snapshots".toList, revision]
  | none => artifactDest a

def artifactPaths (env : Env) (row : Row) : List Artifact → Except String (Dict Text)
  | [] => .ok []
  | a :: rest => do
    let identity ← canonicalArtifactIdentity env row a
    let paths ← artifactPaths env row rest
    -- A later artifact of the same name replaces an earlier one.
    .ok (paths ++ [(a.name, renderedPath env a identity)])

def artifactMounts (env : Env) (row : Row) (nodeID : Text) : List Artifact → Except String (List MountSpec)
  | [] => .ok []
  | a :: rest => do
    let identity ← canonicalArtifactIdentity env row a
    let source ← acquisitionPath row.placement nodeID identity
    let mounts ← artifactMounts env row nodeID rest
    .ok (⟨source, artifactDest a⟩ :: mounts)

def renderArgs (c : RenderContext) : List Text → Except String (List Text)
  | [] => .ok []
  | v :: rest => do
    let out ← c.render v
    let outs ← renderArgs c rest
    .ok (out :: outs)

variable (m : Manifest) (settings : Settings)

def omitted (v : Text) : Bool :=
  match settingName v with
  | none => false
  | some name => (m.parameterByName name).any fun p => p.optional && (settings.lookup name).isNone

def cudaVisibleDevices : Text := "CUDA_VISIBLE_DEVICES".toList

def skips (gpus : List Text) (entry : Text × Text) : Bool :=
  (entry.1 = cudaVisibleDevices && gpus ≠ []) || omitted m settings entry.2

def renderEnv (c : RenderContext) : Dict Text → Except String (List Text)
  | [] => .ok []
  | (k, v) :: rest => do
    let out ← c.render v
    let outs ← renderEnv c rest
    .ok ((k ++ '=' :: out) :: outs)

def sortText (texts : List Text) : List Text := texts.insertionSort fun a b => !(b < a)

variable (pl : Placement)

def gpuDeviceIDs : List Text :=
  if pl.accelerators ≠ [] then pl.accelerators
  else if pl.acceleratorUUID ≠ [] then [pl.acceleratorUUID]
  else []

variable (w : Workload)

def rdmaPaths : List Text :=
  match w.devices.bind Devices.rdma with
  | none => []
  | some r => if r.devices ≠ [] then r.devices else if r.all then ["/dev/infiniband".toList] else []

def hostBase (p : Port) : Int := if p.host = 0 then p.container else p.host

def portProtocol (p : Port) : String := if p.protocol = "" then "tcp" else p.protocol

def renderPorts (rank : Int) : List PortSpec :=
  w.ports.map fun p => ⟨hostBase p + rank, p.container, portProtocol p⟩

def shortID (id : Text) : Text := (trimPrefix "run:".toList (trimPrefix "deployment:".toList id)).take 8

def containerName (depID runID : Text) (rank : Int) : Text :=
  "lmw-".toList ++ shortID depID ++ '-' :: shortID runID ++ "-r".toList ++ (toString rank).toList

def gate (passes : Bool) (message : String) : Except String Unit := if passes then .ok () else .error message

def selectWorkload (row : Row) : Except String Workload :=
  match row.placement.workload with
  | some index =>
    if 0 ≤ index then
      match m.workloads[index.toNat]? with
      | some w => .ok w
      | none => .error s!"workload index {index} out of range for recipe"
    else .error s!"workload index {index} out of range for recipe"
  | none =>
    match m.workloads.find? fun w => satisfiedBy w.match env.target with
    | some w => .ok w
    | none => .error "no workload variant matches target"

def renderContext (rank : Int) (fabric : FabricContext) (paths : Dict Text) : RenderContext :=
  ⟨pl.nodeID, rank, env.address pl.nodeID, pl.acceleratorBinding, fabric.address, fabric.nodeAddress,
    fabric.interface, fabric.rdmaDevice, fabric.gidIndex, paths, row.parameters, []⟩

def frozenUpstreamSpec (runID : Text) : Except String ContainerSpec :=
  match row.placement.upstream.find? fun u => u.rank = pl.rank && u.nodeID = pl.nodeID with
  | none => .error
      "plan digest mismatch: the exact upstream lifecycle and target must be reviewed before execution"
  | some reviewed =>
    applyAcquisitionSpec
      ⟨containerName row.id runID pl.rank, [], [], [], [], [],
        (sortText (reviewed.environment.map Prod.fst)).map fun k =>
          k ++ '=' :: ((reviewed.environment.lookup k).getD []),
        "", false, none, [], false, [], 0, 0, 0, [], [], some reviewed,
        reviewed.execution.coordinatorRank.any fun coordinator => coordinator ≠ pl.rank, []⟩
      row.recipeDigest row.placement pl.nodeID

def renderOwned (row : Row) (pl : Placement) (rank : Int) (runID : Text) : Except String ContainerSpec := do
  let fabric ← fabricContext env row rank pl.nodeID
  let paths ← artifactPaths env row m.artifacts
  let c := renderContext env row pl rank fabric paths
  let gpus := gpuDeviceIDs pl
  let networkMode := if w.networkMode = "" then "none" else w.networkMode
  gate (0 < w.resources.pids) "workload resources must set positive pids"
  gate (networkMode ≠ "host" || w.permissions.contains "network.host")
    "host networking requires network.host permission"
  gate (w.hostPreparation.isNone || w.permissions.contains "host.memory-tuning")
    "host memory preparation requires host.memory-tuning permission"
  let cmd ← renderArgs c w.args
  let rendered ← renderEnv c (w.env.filter fun entry => !skips m row.parameters gpus entry)
  let bound := if gpus = [] then [] else [cudaVisibleDevices ++ '=' :: [','].intercalate gpus]
  let package ← acquisitionPath row.placement pl.nodeID (packageIdentity row.recipeDigest)
  let mounts ← artifactMounts env row pl.nodeID m.artifacts
  gate (w.resources.shmBytes ≤ 64 * 1024 * 1024 || w.permissions.contains "memory.shm-large")
    "large shared memory requires memory.shm-large permission"
  gate (rdmaPaths w = [] || w.permissions.contains "devices.rdma")
    "RDMA devices require devices.rdma permission"
  applyAcquisitionSpec
    ⟨containerName row.id runID rank, w.image.reference, w.image.digest, [], w.command, cmd,
      sortText (rendered ++ bound), networkMode, !w.permissions.contains "rootfs.write", w.hostPreparation, gpus,
      (w.devices.bind Devices.accelerator).any (·.all) && gpus = [], rdmaPaths w, w.resources.shmBytes,
      w.resources.tmpfsBytes, w.resources.pids, renderPorts w rank,
      ⟨joinPath package ["assets".toList], "/lmw/assets".toList⟩ :: mounts, none, false, []⟩
    row.recipeDigest row.placement pl.nodeID

def renderSpec (row : Row) (pl : Placement) (rank : Int) (runID : Text) : Except String ContainerSpec := do
  let w ← selectWorkload env m row
  if w.upstream.isSome then frozenUpstreamSpec row pl runID else renderOwned env m w row pl rank runID

def extensionContext (rank : Int) (paths : Dict Text) : RenderContext :=
  ⟨pl.nodeID, rank, [], [], [], [], [], [], [], paths, row.parameters, []⟩

def renderExtensionSpec (row : Row) (pl : Placement) (rank : Int) (runID : Text)
    (e : Extension) : Except String ContainerSpec := do
  let base ← renderSpec env m row pl rank runID
  let paths ← artifactPaths env row m.artifacts
  let c := extensionContext row pl rank paths
  let cmd ← renderArgs c e.args
  let rendered ← renderEnv c e.env
  applyAcquisitionSpec
    ⟨[], e.image.reference, e.image.digest, [], e.command, cmd, sortText rendered,
      if e.network = "egress" then "bridge" else "none", true, none, [], false, [], 0, 64 * 1024 * 1024, 256, [],
      base.mounts, none, false, []⟩
    row.recipeDigest row.placement pl.nodeID

def Succeeds {α : Type} (x : Except String α) : Prop := ∃ a, x = .ok a

variable {α β : Type} {c : RenderContext} {spec : ContainerSpec} {nodeID tv runID : Text} {workload : Option Workload}
  {checks : Checks} {overrides : Settings}

@[simp] theorem succeeds_ok (a : α) : Succeeds (.ok a : Except String α) := ⟨a, rfl⟩

@[simp] theorem not_succeeds_error (message : String) : ¬Succeeds (.error message : Except String α) := by
  rintro ⟨a, h⟩
  cases h

variable {f : α → Except String β} {x : Except String α}

theorem succeeds_bind {S P : Prop} (hStep : Succeeds x ↔ S) (hRest : ∀ a, Succeeds (f a) ↔ P) :
    Succeeds (x >>= f) ↔ S ∧ P := by
  rw [← hStep]
  cases x with
  | error message => simp [bind, Except.bind]
  | ok a => simp [bind, Except.bind, hRest a]

theorem succeeds_of_ok {a : α} (h : x = .ok a) : Succeeds (x >>= f) ↔ Succeeds (f a) := by
  subst h
  rfl

theorem succeeds_bind_of {P : Prop} (hStep : Succeeds x) (hRest : ∀ a, Succeeds (f a) ↔ P) : Succeeds (x >>= f) ↔ P := by
  rw [succeeds_bind Iff.rfl hRest, and_iff_right hStep]

theorem succeeds_bind_last {S : Prop} (hStep : Succeeds x ↔ S) (hRest : ∀ a, Succeeds (f a)) : Succeeds (x >>= f) ↔ S := by
  rw [succeeds_bind hStep fun a => iff_true_intro (hRest a), and_true]

theorem succeeds_gate {passes : Bool} {message : String} : Succeeds (gate passes message) ↔ passes = true := by
  unfold gate
  split
  · simp [*]
  · simp [*]

theorem succeeds_renderArgs {args : List Text} : Succeeds (renderArgs c args) ↔ ∀ v ∈ args, c.Renders v := by
  induction args with
  | nil => simp [renderArgs]
  | cons v rest ih =>
    rw [forall_mem_cons]
    exact succeeds_bind Iff.rfl fun out => succeeds_bind_last ih fun _ => succeeds_ok _

theorem succeeds_renderEnv {env : Dict Text} : Succeeds (renderEnv c env) ↔ ∀ entry ∈ env, c.Renders entry.2 := by
  induction env with
  | nil => simp [renderEnv]
  | cons entry rest ih =>
    rw [forall_mem_cons]
    exact succeeds_bind Iff.rfl fun out => succeeds_bind_last ih fun _ => succeeds_ok _

def Reviewed (row : Row) (nodeID : Text) (image : Image) : Prop :=
  ∃ r ∈ nodeResources row.placement nodeID,
    r.spec.kind = .image ∧ (r.spec.indexDigest = image.digest ∨ r.spec.manifestDigest = image.digest)

theorem applyResources_found {resources : List Resource} (h : ∃ r ∈ resources,
      r.spec.kind = .image ∧ (r.spec.indexDigest = spec.imageDigest ∨ r.spec.manifestDigest = spec.imageDigest)) :
    (applyResources spec resources).2 = true := by
  induction resources generalizing spec with
  | nil =>
    obtain ⟨r, hMem, _⟩ := h
    cases hMem
  | cons r rest ih =>
    simp only [applyResources, Bool.or_eq_true]
    by_cases hImage : r.spec.kind = .image ∧
        (r.spec.indexDigest = spec.imageDigest ∨ r.spec.manifestDigest = spec.imageDigest)
    · simp [applyResource, hImage]
    right
    -- A resource that is no image of the specification leaves its digest as it is.
    have hSame : (applyResource spec r).1.imageDigest = spec.imageDigest := by simp [applyResource, hImage]
    obtain ⟨found, hMem, hFound⟩ := h
    rcases mem_cons.mp hMem with rfl | hMem
    · exact absurd hFound hImage
    refine ih ⟨found, hMem, ?_⟩
    rw [hSame]
    exact hFound

theorem succeeds_apply_image {row : Row} {digest : Text} {image : Image} (hReviewed : Reviewed row nodeID image)
    (hOwned : spec.upstream = none) (hDigest : spec.imageDigest = image.digest) :
    Succeeds (applyAcquisitionSpec spec digest row.placement nodeID) := by
  have hFound : (applyResources spec (nodeResources row.placement nodeID)).2 = true := by
    apply applyResources_found
    rw [hDigest]
    exact hReviewed
  simp [applyAcquisitionSpec, hOwned, hFound]

theorem succeeds_apply_package {row : Row} (hPack : ∃ r ∈ nodeResources row.placement nodeID,
      r.spec.kind = .recipe ∧ r.spec.identity = packageIdentity row.recipeDigest)
    (hUp : spec.upstream.isSome = true) :
    Succeeds (applyAcquisitionSpec spec row.recipeDigest row.placement nodeID) := by
  have hAny : ((nodeResources row.placement nodeID).any fun r =>
      r.spec.kind = .recipe && r.spec.identity = packageIdentity row.recipeDigest) = true := by
    simpa using hPack
  have hNot : spec.upstream.isNone = false := by
    rw [isNone_eq_false_iff]
    exact hUp
  simp [applyAcquisitionSpec, hAny, hNot]

/-- Everything that a planned deployment has reviewed for a rank: its workload, its fabric bindings, and the
identity and the place of each resource. -/
structure Complete (env : Env) (m : Manifest) (w : Workload) (row : Row) (pl : Placement) (rank : Int) : Prop where
  selected : selectWorkload env m row = .ok w
  fabric : Succeeds (fabricContext env row rank pl.nodeID)
  artifacts : ∀ a ∈ m.artifacts, ∃ identity, canonicalArtifactIdentity env row a = .ok identity ∧
    Succeeds (acquisitionPath row.placement pl.nodeID identity)
  package : Succeeds (acquisitionPath row.placement pl.nodeID (packageIdentity row.recipeDigest))
  image : w.upstream = none → Reviewed row pl.nodeID w.image
  lifecycle : w.upstream ≠ none → (∃ u ∈ row.placement.upstream, u.rank = pl.rank ∧ u.nodeID = pl.nodeID) ∧
    ∃ r ∈ nodeResources row.placement pl.nodeID,
      r.spec.kind = .recipe ∧ r.spec.identity = packageIdentity row.recipeDigest
  extensions : ∀ e ∈ m.prepare.toList ++ m.verify.toList, Reviewed row pl.nodeID e.image

section

variable {env : Env} {m : Manifest} {w : Workload} {row : Row} {pl : Placement} {rank : Int}

theorem selectWorkload_mem (h : selectWorkload env m row = .ok w) : w ∈ m.workloads := by
  unfold selectWorkload at h
  split at h
  · split at h
    · split at h
      next hGet =>
        cases h
        exact mem_of_getElem? hGet
      · cases h
    · cases h
  split at h
  next hFind =>
    cases h
    exact mem_of_find?_eq_some hFind
  · cases h

variable {artifacts : List Artifact}

theorem artifactPaths_ok (h : ∀ a ∈ artifacts, Succeeds (canonicalArtifactIdentity env row a)) :
    ∃ paths, artifactPaths env row artifacts = .ok paths ∧
    ∀ name, (paths.lookup name).isSome = true ↔ ∃ a ∈ artifacts, a.name = name := by
  induction artifacts with
  | nil => exact ⟨[], rfl, by simp⟩
  | cons a rest ih =>
    obtain ⟨identity, hIdent⟩ := h a mem_cons_self
    obtain ⟨paths, hPaths, hCover⟩ := ih fun a hMem => h a (mem_cons_of_mem _ hMem)
    refine ⟨paths ++ [(a.name, renderedPath env a identity)], ?_, fun name => ?_⟩
    · rw [artifactPaths, hIdent, hPaths]
      rfl
    rw [List.lookup_append, isSome_or, Bool.or_eq_true, hCover, lookup_isSome_iff]
    simp only [mem_singleton, exists_mem_cons_iff, beq_iff_eq, exists_eq_left]
    rw [or_comm, eq_comm]

theorem Complete.paths (hFull : Complete env m w row pl rank) : ∃ paths, artifactPaths env row m.artifacts = .ok paths ∧
      ∀ name, (paths.lookup name).isSome = true ↔ ∃ a ∈ m.artifacts, a.name = name :=
  artifactPaths_ok fun a hMem => (hFull.artifacts a hMem).imp fun _ h => h.1

theorem succeeds_artifactMounts (h : ∀ a ∈ artifacts, ∃ identity, canonicalArtifactIdentity env row a = .ok identity ∧
    Succeeds (acquisitionPath row.placement nodeID identity)) :
    Succeeds (artifactMounts env row nodeID artifacts) := by
  induction artifacts with
  | nil => exact ⟨[], rfl⟩
  | cons a rest ih =>
    obtain ⟨identity, hIdent, source, hSource⟩ := h a mem_cons_self
    obtain ⟨mounts, hMounts⟩ := ih fun a hMem => h a (mem_cons_of_mem _ hMem)
    refine ⟨⟨source, artifactDest a⟩ :: mounts, ?_⟩
    rw [artifactMounts, hIdent]
    simp only [bind, Except.bind, hSource, hMounts]

/-- A declared token has a value: an accelerator is bound, the token does not name a peer, a package artifact
is declared, and an optional setting was given. -/
structure Supplied (m : Manifest) (settings : Settings) (accelerators : Text) (tv : Text) : Prop where
  accelerators : tv = templNodeAccelerators → accelerators ≠ []
  peer : clusterTemplate tv = none
  package : artifactName tv = some "package".toList → (m.artifactByName "package".toList).isSome = true
  setting : ∀ name, settingName tv = some name → ∀ p, m.parameterByName name = some p → p.optional = true →
    (settings.lookup name).isSome = true

variable {settings : Settings} {accelerators : Text}

theorem supplied_plain (h : tv ∈ plainTokens) : Supplied m settings accelerators tv := by
  obtain ⟨hPeer, hArt, hSetting⟩ := fixed_shape tv (mem_cons_of_mem _ h)
  refine ⟨?_, hPeer, by simp [hArt], by simp [hSetting]⟩
  rintro rfl
  exact absurd h (by decide)

theorem supplied_accelerators : Supplied m settings accelerators templNodeAccelerators ↔ accelerators ≠ [] := by
  obtain ⟨hPeer, hArt, hSetting⟩ := fixed_shape _ mem_cons_self
  exact ⟨fun h => h.accelerators rfl, fun h => ⟨fun _ => h, hPeer, by simp [hArt], by simp [hSetting]⟩⟩

/-- The contexts of the renderer name no peer; they have the declared artifacts and every required setting. -/
structure Covers (m : Manifest) (c : RenderContext) : Prop where
  peers : c.nodes = []
  artifacts : ∀ name, (c.artifacts.lookup name).isSome = true ↔ ∃ a ∈ m.artifacts, a.name = name
  settings : ∀ p ∈ m.parameters, p.optional = false → (c.settings.lookup p.name).isSome = true

theorem Covers.artifactByName (hCovers : Covers m c) (name : Text) :
    (c.artifacts.lookup name).isSome = true ↔ (m.artifactByName name).isSome = true := by
  rw [hCovers.artifacts, Manifest.artifactByName, find?_isSome]
  simp only [decide_eq_true_eq]

theorem isSome_resolveNamed (hCovers : Covers m c) (hAcc : tv ≠ templNodeAccelerators)
    (hDecl : checkNamed m workload tv = none) :
    (c.resolveNamed tv).isSome = true ↔ Supplied m c.settings c.nodeAccelerators tv := by
  unfold resolveNamed
  unfold checkNamed at hDecl
  cases hPeer : clusterTemplate tv with
  | some peer =>
    simp only [hCovers.peers, lookup_nil, bind_none, isSome_none, Bool.false_eq_true, false_iff]
    intro hSupplied
    rw [hSupplied.peer] at hPeer
    cases hPeer
  | none =>
    simp only [hPeer] at hDecl
    cases hArt : artifactName tv with
    | some name =>
      simp only [hArt] at hDecl
      rw [hCovers.artifactByName]
      constructor
      · intro hName
        refine ⟨fun h => absurd h hAcc, hPeer, ?_, by simp [settingName_of_artifactName hArt]⟩
        rw [hArt]
        rintro ⟨⟩
        exact hName
      intro hSupplied
      by_cases hPack : name = "package".toList
      · subst hPack
        exact hSupplied.package hArt
      rw [if_neg hPack] at hDecl
      cases hFind : m.artifactByName name with
      | none => simp [hFind] at hDecl
      | some a => rfl
    | none =>
      simp only [hArt] at hDecl
      cases hSetting : settingName tv with
      | none => simp [hSetting] at hDecl
      | some name =>
        simp only [hSetting] at hDecl
        obtain ⟨p, hParam⟩ : ∃ p, m.parameterByName name = some p := by
          cases hFind : m.parameterByName name with
          | none => simp [hFind] at hDecl
          | some p => exact ⟨p, rfl⟩
        rw [isSome_map]
        constructor
        · intro hName
          refine ⟨fun h => absurd h hAcc, hPeer, by simp [hArt], ?_⟩
          rw [hSetting]
          rintro _ ⟨⟩ _ _ _
          exact hName
        intro hSupplied
        cases hOptional : p.optional with
        | true => exact hSupplied.setting name hSetting p hParam hOptional
        | false =>
          have hName : p.name = name := by simpa using find?_some hParam
          rw [← hName]
          exact hCovers.settings p (mem_of_find?_eq_some hParam) hOptional

theorem isSome_resolve (hCovers : Covers m c) (hDecl : checkTemplateVar m workload tv = none) :
    (c.resolve tv).isSome = true ↔ Supplied m c.settings c.nodeAccelerators tv := by
  by_cases hPlain : tv ∈ plainTokens
  · exact iff_of_true (isSome_resolve_plain hPlain) (supplied_plain hPlain)
  by_cases hAcc : tv = templNodeAccelerators
  · subst hAcc
    rw [resolve_accelerators, supplied_accelerators, nonempty]
    split
    · simp [*]
    · simp [*]
  rw [resolve_named hPlain hAcc]
  rw [checkTemplateVar_named hPlain hAcc] at hDecl
  exact isSome_resolveNamed hCovers hAcc hDecl

def AllSupplied (m : Manifest) (settings : Settings) (accelerators v : Text) : Prop :=
  ∀ tv ∈ tokens v, Supplied m settings accelerators tv

theorem renders_iff_supplied {v : Text} (hCovers : Covers m c) (hDecl : Declared m workload v) :
    c.Renders v ↔ AllSupplied m c.settings c.nodeAccelerators v := by
  rw [renders_iff]
  exact forall₂_congr fun tv hToken => isSome_resolve hCovers (hDecl tv hToken)

structure Launchable (m : Manifest) (settings : Settings) (pl : Placement) (w : Workload) : Prop where
  pids : 0 < w.resources.pids
  shm : 64 * 1024 * 1024 < w.resources.shmBytes → w.resources.shmBytes < 1024 * 1024 * 1024 →
    "memory.shm-large" ∈ w.permissions
  args : ∀ v ∈ w.args, AllSupplied m settings pl.acceleratorBinding v
  env : ∀ entry ∈ w.env, skips m settings (gpuDeviceIDs pl) entry = false →
    AllSupplied m settings pl.acceleratorBinding entry.2

structure ExtensionLaunchable (m : Manifest) (settings : Settings) (e : Extension) : Prop where
  args : ∀ v ∈ e.args, AllSupplied m settings [] v
  env : ∀ entry ∈ e.env, AllSupplied m settings [] entry.2

theorem rdmaPaths_eq_nil : rdmaPaths w = [] ↔ asksRdma w = false := by
  unfold rdmaPaths asksRdma
  cases w.devices with
  | none => simp
  | some d =>
    cases hRdma : d.rdma with
    | none => simp [hRdma]
    | some r =>
      by_cases hDevs : r.devices = []
      · cases hAll : r.all <;> simp [hRdma, hDevs, hAll]
      · simp [hRdma, hDevs]

theorem covers_renderContext (hSettings : m.effectiveSettings checks overrides = .ok row.parameters)
    (hRow : c.settings = row.parameters)
    (hPaths : ∀ name, (c.artifacts.lookup name).isSome = true ↔ ∃ a ∈ m.artifacts, a.name = name)
    (hPeers : c.nodes = []) : Covers m c :=
  ⟨hPeers, hPaths, fun _ hMem hOptional => hRow ▸ Manifest.effectiveSettings_required hSettings hMem hOptional⟩

section

variable (runID) (hValid : Valid m) (hSettings : m.effectiveSettings checks overrides = .ok row.parameters)
  (hFull : Complete env m w row pl rank)
include hValid hSettings hFull

theorem succeeds_renderOwned_iff (hOwned : w.upstream = none) :
    Succeeds (renderOwned env m w row pl rank runID) ↔ Launchable m row.parameters pl w := by
  obtain ⟨fabric, hFabric⟩ := hFull.fabric
  obtain ⟨paths, hPaths, hNames⟩ := hFull.paths
  have hMem := selectWorkload_mem hFull.selected
  have hMay := hValid.permitted w hMem
  have hCovers : Covers m (renderContext env row pl rank fabric paths) := covers_renderContext hSettings rfl hNames rfl
  have hArgs := forall₂_congr fun v hArg => renders_iff_supplied hCovers (hValid.args w hMem hOwned v hArg)
  have hEnv : (∀ entry ∈ w.env.filter fun entry => !skips m row.parameters (gpuDeviceIDs pl) entry,
      (renderContext env row pl rank fabric paths).Renders entry.2) ↔
      ∀ entry ∈ w.env, skips m row.parameters (gpuDeviceIDs pl) entry = false →
        AllSupplied m row.parameters pl.acceleratorBinding entry.2 := by
    simp only [mem_filter, Bool.not_eq_true', and_imp]
    refine forall₂_congr fun entry hEntry => imp_congr_right fun _ => ?_
    exact renders_iff_supplied hCovers (hValid.env w hMem hOwned entry hEntry)
  rw [renderOwned, succeeds_of_ok hFabric, succeeds_of_ok hPaths]
  refine (succeeds_bind succeeds_gate fun _ => succeeds_bind succeeds_gate fun _ => succeeds_bind succeeds_gate fun _ =>
    succeeds_bind succeeds_renderArgs fun cmd => succeeds_bind succeeds_renderEnv fun rendered =>
    succeeds_bind_of hFull.package fun package =>
    succeeds_bind_of (succeeds_artifactMounts hFull.artifacts) fun mounts => succeeds_bind succeeds_gate fun _ =>
    succeeds_bind_last succeeds_gate fun _ => succeeds_apply_image (hFull.image hOwned) rfl rfl).trans ?_
  rw [hArgs, hEnv]
  simp only [Bool.or_eq_true, decide_eq_true_eq, contains_iff_mem]
  constructor
  · rintro ⟨hPids, _, _, hArgs, hEnv, hShm, _⟩
    exact ⟨hPids, fun hLarge _ => hShm.resolve_left (by omega), hArgs, hEnv⟩
  intro hLaunch
  refine ⟨hLaunch.pids, ?_, ?_, hLaunch.args, hLaunch.env, ?_, ?_⟩
  · by_cases hHost : w.networkMode = "host"
    · exact .inr (hMay.host hHost)
    left
    split
    · decide
    · exact hHost
  · cases hTuning : w.hostPreparation with
    | none => exact .inl rfl
    | some preparation => exact .inr (hMay.tuning (by simp [hTuning]))
  · by_cases hSmall : w.resources.shmBytes ≤ 64 * 1024 * 1024
    · exact .inl hSmall
    by_cases hHuge : 1024 * 1024 * 1024 ≤ w.resources.shmBytes
    · exact .inr (hMay.shm hHuge)
    · exact .inr (hLaunch.shm (by omega) (by omega))
  cases hRdma : asksRdma w with
  | false => exact .inl (rdmaPaths_eq_nil.mpr hRdma)
  | true => exact .inr (hMay.rdma hRdma)

omit hValid hSettings in
theorem succeeds_frozenUpstreamSpec (hUp : w.upstream ≠ none) : Succeeds (frozenUpstreamSpec row pl runID) := by
  obtain ⟨⟨u, hMem, hRank, hNode⟩, hPack⟩ := hFull.lifecycle hUp
  unfold frozenUpstreamSpec
  split
  next hNone =>
    have hNot := find?_eq_none.mp hNone u hMem
    simp [hRank, hNode] at hNot
  · exact succeeds_apply_package hPack rfl

theorem succeeds_renderSpec_iff :
    Succeeds (renderSpec env m row pl rank runID) ↔ (w.upstream = none → Launchable m row.parameters pl w) := by
  rw [renderSpec, succeeds_of_ok hFull.selected]
  cases hUp : w.upstream with
  | none =>
    simp only [isSome_none, true_implies]
    exact succeeds_renderOwned_iff runID hValid hSettings hFull hUp
  | some u =>
    simp only [reduceCtorEq, false_implies, iff_true]
    exact succeeds_frozenUpstreamSpec runID hFull (by simp [hUp])

theorem succeeds_renderExtensionSpec_iff {e : Extension} (hExt : e ∈ m.prepare.toList ++ m.verify.toList) :
    Succeeds (renderExtensionSpec env m row pl rank runID e) ↔
      Succeeds (renderSpec env m row pl rank runID) ∧ ExtensionLaunchable m row.parameters e := by
  obtain ⟨paths, hPaths, hNames⟩ := hFull.paths
  have hCovers : Covers m (extensionContext row pl rank paths) := covers_renderContext hSettings rfl hNames rfl
  have hArgs := forall₂_congr fun v hArg => renders_iff_supplied hCovers (hValid.extensionArgs e hExt v hArg)
  have hEnv := forall₂_congr fun entry hMem => renders_iff_supplied hCovers (hValid.extensionEnv e hExt entry hMem)
  refine succeeds_bind Iff.rfl fun base => ?_
  rw [succeeds_of_ok hPaths]
  refine (succeeds_bind succeeds_renderArgs fun cmd => succeeds_bind_last succeeds_renderEnv fun rendered =>
    succeeds_apply_image (hFull.extensions e hExt) rfl rfl).trans ?_
  rw [hArgs, hEnv]
  exact ⟨fun h => ⟨h.1, h.2⟩, fun h => ⟨h.args, h.env⟩⟩

end

/-- A recipe that the validator accepts renders in a complete context exactly when its workload and its
helpers ask for nothing that the validator lets pass and the renderer refuses. -/
theorem validated_manifest_renders_iff {checks : Checks} {overrides : Settings} (runID : Text)
    (hValid : semanticDiagnostics checks m = [])
    (hSettings : m.effectiveSettings checks overrides = .ok row.parameters)
    (hComplete : Complete env m w row pl rank) :
    ((∃ spec, renderSpec env m row pl rank runID = .ok spec) ∧
      ∀ e ∈ m.prepare.toList ++ m.verify.toList, ∃ spec, renderExtensionSpec env m row pl rank runID e = .ok spec) ↔
    (w.upstream = none → Launchable m row.parameters pl w) ∧
      ∀ e ∈ m.prepare.toList ++ m.verify.toList, ExtensionLaunchable m row.parameters e := by
  have hRules := valid_of_semanticDiagnostics hValid
  have hSpec := succeeds_renderSpec_iff runID hRules hSettings hComplete
  constructor
  · rintro ⟨hOk, hExts⟩
    refine ⟨hSpec.mp hOk, fun e hMem => ?_⟩
    exact ((succeeds_renderExtensionSpec_iff runID hRules hSettings hComplete hMem).mp (hExts e hMem)).2
  rintro ⟨hLaunch, hExts⟩
  have hOk := hSpec.mpr hLaunch
  refine ⟨hOk, fun e hMem => ?_⟩
  exact (succeeds_renderExtensionSpec_iff runID hRules hSettings hComplete hMem).mpr ⟨hOk, hExts e hMem⟩

end

def sampleChecks : Checks := ⟨fun _ _ => none, fun _ => none, fun _ => none, fun _ => none, fun _ => true⟩

def sampleEnv : Env := ⟨fun source => .ok source.identity, fun _ => none, fun _ => [], fun _ => none, ⟨1, "", "", []⟩⟩

variable (arg : Text) (shmBytes : Int)

def sampleWorkload : Workload where
  «match» := none
  image := ⟨"engine".toList, "sha256:1".toList⟩
  command := ["serve".toList]
  args := [arg]
  env := []
  ports := []
  resources := ⟨shmBytes, 0, 64⟩
  devices := none
  networkMode := "none"
  ranks := []
  hostPreparation := none
  permissions := []
  upstream := none

def sampleManifest : Manifest where
  source := none
  compatibility := ⟨1, none, none⟩
  artifacts := []
  parameters := [⟨"len".toList, .int, none, "", true, [], "", [], none, none, none, none, []⟩]
  workloads := [sampleWorkload arg shmBytes]
  assets := []
  prepare := none
  verify := none

def sampleResource (kind : ResourceKind) (identity : Text) : Resource where
  spec := ⟨kind, identity, ⟨.oci, "engine".toList, [], [], "sha256:1".toList⟩, "/cache".toList, [], "sha256:1".toList,
    [], none⟩
  key := identity
  nodeID := "n1".toList
  action := .reuse
  sourceNode := []
  sourcePath := []
  credentialID := []
  verification := ⟨.available, some 0, false⟩
  required := true

def sampleRow : Row where
  id := "d1".toList
  recipeDigest := "sha256:2".toList
  parameters := []
  fabric := none
  placement := ⟨[], some 0, [], [sampleResource .recipe "recipe://sha256:2".toList, sampleResource .image "i".toList], []⟩

def samplePlacement : Placement := ⟨"n1".toList, "n1".toList, 0, 0, [], [], []⟩

theorem complete_sample :
    Complete sampleEnv (sampleManifest arg shmBytes) (sampleWorkload arg shmBytes) sampleRow samplePlacement 0 := by
  refine ⟨rfl, ⟨_, rfl⟩, ?_, ⟨_, rfl⟩, fun _ => ?_, fun h => absurd rfl h, ?_⟩
  · simp [sampleManifest]
  · exact ⟨sampleResource .image "i".toList, by decide, rfl, .inl rfl⟩
  · simp [sampleManifest]

theorem validated_manifest_renders_sample : ∃ spec,
    renderSpec sampleEnv (sampleManifest templNodeID 0) sampleRow samplePlacement 0 "r1".toList = .ok spec := by
  have hValid : semanticDiagnostics sampleChecks (sampleManifest templNodeID 0) = [] := by decide +kernel
  have hSettings : (sampleManifest templNodeID 0).effectiveSettings sampleChecks [] = .ok sampleRow.parameters := rfl
  have hIff := validated_manifest_renders_iff "r1".toList hValid hSettings (complete_sample templNodeID 0)
  refine (hIff.mpr ⟨fun _ => ⟨by decide, by decide, ?_, by simp [sampleWorkload]⟩, by simp [sampleManifest]⟩).1
  intro v hArg tv hToken
  rw [mem_singleton.mp hArg] at hToken
  have hTokens : tokens templNodeID = [templNodeID] := by decide +kernel
  rw [hTokens, mem_singleton] at hToken
  subst hToken
  exact supplied_plain (by decide)

/-- Two recipes without findings that do not render: an optional setting in an argument, and 128 MiB of shared
memory. -/
theorem validated_manifest_refused :
    (semanticDiagnostics sampleChecks (sampleManifest "$\x7bsetting.len\x7d".toList 0) = [] ∧
      (sampleManifest "$\x7bsetting.len\x7d".toList 0).effectiveSettings sampleChecks [] = .ok sampleRow.parameters ∧
      Complete sampleEnv (sampleManifest "$\x7bsetting.len\x7d".toList 0)
        (sampleWorkload "$\x7bsetting.len\x7d".toList 0) sampleRow samplePlacement 0 ∧
      renderSpec sampleEnv (sampleManifest "$\x7bsetting.len\x7d".toList 0) sampleRow samplePlacement 0 "r1".toList =
        .error "unresolved template $\x7bsetting.len\x7d") ∧
    semanticDiagnostics sampleChecks (sampleManifest [] (128 * 1024 * 1024)) = [] ∧
      (sampleManifest [] (128 * 1024 * 1024)).effectiveSettings sampleChecks [] = .ok sampleRow.parameters ∧
      Complete sampleEnv (sampleManifest [] (128 * 1024 * 1024)) (sampleWorkload [] (128 * 1024 * 1024)) sampleRow
        samplePlacement 0 ∧
      renderSpec sampleEnv (sampleManifest [] (128 * 1024 * 1024)) sampleRow samplePlacement 0 "r1".toList =
        .error "large shared memory requires memory.shm-large permission" := by
  refine ⟨⟨by decide +kernel, rfl, complete_sample _ _, ?_⟩, by decide +kernel, rfl, complete_sample _ _, ?_⟩
  · decide +kernel
  · decide +kernel

end LocalModelWorks.Plan
