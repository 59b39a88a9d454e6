import LocalModelWorks.Json
import LocalModelWorks.Plan.Leasing

/-!
# The digest of a plan

`PlanDigest`: the reviewed parts of a plan as one canonical JSON document, and its hash.
-/

namespace LocalModelWorks.Plan

open Recipe (Text Value UpstreamExecution)
open Json (record ofList ofInt ofMap omitEmpty Keeps decimal ofList_injective omitEmpty_injective ofInt_injective
  record_inj bool keeps_ofMap keeps_omitEmpty)
open Function

def textJson (t : Text) : Json := .string t

def omitText : Text → Option Json := omitEmpty [] textJson

def textsJson : List Text → Json := ofList textJson

def omitTexts : List Text → Option Json := omitEmpty [] textsJson

def placementJson (p : Placement) : Json :=
  record [("node_id".toList, some (textJson p.nodeID)), ("node_name".toList, omitText p.nodeName),
    ("rank".toList, some (ofInt p.rank)), ("accelerator_index".toList, some (ofInt p.acceleratorIndex)),
    ("accelerator_uuid".toList, omitText p.acceleratorUUID), ("accelerators".toList, omitTexts p.accelerators),
    ("container".toList, omitText p.container)]

def portJson (p : PortPreview) : Json :=
  record [("node_id".toList, some (textJson p.nodeID)), ("node_name".toList, omitText p.nodeName),
    ("host_port".toList, some (ofInt p.hostPort)), ("container_port".toList, some (ofInt p.containerPort)),
    ("protocol".toList, omitText p.protocol.toList)]

def endpointJson (e : Endpoint) : Json :=
  record [("host".toList, omitText e.host), ("port".toList, omitEmpty 0 ofInt e.port), ("path".toList, omitText e.path),
    ("model".toList, omitText e.model)]

def sourceJson (s : Recipe.Source) : Json :=
  record [("url".toList, some (textJson s.url)), ("revision".toList, omitText s.revision),
    ("path".toList, omitText s.path), ("procedure".toList, omitText s.procedure)]

def editJson (e : Recipe.Edit) : Json :=
  record [("start".toList, some (ofInt e.start)), ("end".toList, some (ofInt e.stop)),
    ("parameter".toList, omitText e.parameter), ("template".toList, omitText e.template),
    ("variable".toList, omitText e.variable), ("command".toList, omitText e.command),
    ("indirect".toList, omitEmpty false .bool e.indirect), ("prefix".toList, omitText e.before),
    ("suffix".toList, omitText e.after), ("format".toList, some (textJson e.format.toList)),
    ("flag".toList, omitText e.flag)]

def fileJson (f : Recipe.File) : Json :=
  record [("path".toList, some (textJson f.path)), ("sha256".toList, some (textJson f.sha256)),
    ("edits".toList, some (ofList editJson f.edits))]

def rankMap {α : Type} (f : α → Json) (entries : List (Int × α)) : Json :=
  ofMap f (entries.map fun entry => (decimal entry.1, entry.2))

def executionJson (u : UpstreamExecution) : Json :=
  record [("install".toList, omitEmpty [] (ofList textsJson) u.install),
    ("installByRank".toList, omitEmpty [] (rankMap (ofList textsJson)) u.installByRank),
    ("start".toList, some (textsJson u.start)), ("stop".toList, some (textsJson u.stop)),
    ("containers".toList, some (textsJson u.containers)),
    ("coordinatorRank".toList, u.coordinatorRank.map ofInt),
    ("containersByRank".toList, omitEmpty [] (rankMap textsJson) u.containersByRank),
    ("auxiliaryContainers".toList, omitTexts u.auxiliaryContainers), ("envFile".toList, omitText u.envFile),
    ("envTemplate".toList, omitText u.envTemplate), ("envFormat".toList, omitText u.envFormat),
    ("logFile".toList, omitText u.logFile), ("configuration".toList, omitEmpty [] (ofList fileJson) u.configuration)]

def resolvedEditJson (e : ResolvedEdit) : Json :=
  record [("start".toList, some (ofInt e.start)), ("end".toList, some (ofInt e.stop)),
    ("replacement".toList, some (textJson e.replacement))]

def resolvedFileJson (f : ResolvedFile) : Json :=
  record [("path".toList, some (textJson f.path)), ("sha256".toList, some (textJson f.sha256)),
    ("edits".toList, some (ofList resolvedEditJson f.edits))]

def upstreamJson (u : UpstreamPreview) : Json :=
  record [("node_id".toList, some (textJson u.nodeID)), ("node_name".toList, omitText u.nodeName),
    ("rank".toList, some (ofInt u.rank)), ("source".toList, some (sourceJson u.source)),
    ("execution".toList, some (executionJson u.execution)),
    ("environment".toList, omitEmpty [] (ofMap textJson) u.environment),
    ("configuration".toList, omitEmpty [] (ofList resolvedFileJson) u.configuration)]

def kindName : ResourceKind → Text
  | .artifact => "artifact".toList
  | .recipe => "recipe".toList
  | .image => "image".toList

def sourceTypeName : SourceType → Text
  | .huggingface => "huggingface".toList
  | .oci => "oci".toList
  | .file => "file".toList
  | .localFile => "local".toList
  | .recipe => "recipe".toList

def actionName : Downloads.Action → Text
  | .reuse => "reuse".toList
  | .validateLocal => "validate-local".toList
  | .downloadOrigin => "download-origin".toList
  | .peerCopy => "peer-copy".toList

def policyName : AcquisitionPolicy → Text
  | .requireExisting => "require-existing".toList
  | .downloadMissing => "download-missing".toList

def sourceSpecJson (s : SourceSpec) : Json :=
  record [("type".toList, some (textJson (sourceTypeName s.type))), ("reference".toList, omitText s.reference),
    ("url".toList, omitText s.url), ("revision".toList, omitText s.revision), ("digest".toList, omitText s.digest)]

def specJson (s : ResourceSpec) : Json :=
  record [("kind".toList, some (textJson (kindName s.kind))), ("identity".toList, some (textJson s.identity)),
    ("source".toList, some (sourceSpecJson s.source)), ("destination".toList, some (textJson s.destination)),
    ("platform".toList, omitText s.platform), ("index_digest".toList, omitText s.indexDigest),
    ("manifest_digest".toList, omitText s.manifestDigest), ("size_bytes".toList, s.sizeBytes.map ofInt)]

/-- What is reviewed of a resource: not its size, nor what is known of its bytes now. -/
structure ResourceContract where
  nodeID : Text
  required : Bool
  action : Downloads.Action
  sourceNode : Text
  sourcePath : Text
  credentialID : Text
  spec : ResourceSpec
  deriving DecidableEq

def Resource.contract (r : Resource) : ResourceContract :=
  ⟨r.nodeID, r.required, r.action, r.sourceNode, r.sourcePath, r.credentialID, { r.spec with sizeBytes := none }⟩

def resourceJson (r : ResourceContract) : Json :=
  record [("node_id".toList, some (textJson r.nodeID)), ("required".toList, some (.bool r.required)),
    ("action".toList, some (textJson (actionName r.action))), ("source_node".toList, omitText r.sourceNode),
    ("source_path".toList, omitText r.sourcePath), ("credential_id".toList, omitText r.credentialID),
    ("spec".toList, some (specJson r.spec))]

def targetJson (t : AcquisitionTarget) : Json :=
  record [("node_id".toList, some (textJson t.nodeID)), ("cache_root".toList, omitText t.cacheRoot)]

namespace DeploymentPlan

def resources (p : DeploymentPlan) : List ResourceContract :=
  (p.acquisition.toList.flatMap (·.resources)).map Resource.contract

def targets (p : DeploymentPlan) : List AcquisitionTarget := p.acquisition.toList.flatMap (·.targets)

end DeploymentPlan

/-- The hash in hexadecimal, and the JSON value of a setting. Settings are decoded JSON values, so that the document
of a plan can always be encoded. -/
structure Digester where
  sha256 : Text → Text
  setting : Value → Json

namespace Digester

variable (D : Digester) (p : DeploymentPlan)

def contractJson : Json :=
  record [("recipe_digest".toList, some (textJson p.recipeDigest)), ("name".toList, omitText p.recipeName),
    ("variants".toList, omitEmpty [] (ofMap textJson) p.variants),
    ("parameters".toList, omitEmpty [] (ofMap D.setting) p.parameters),
    ("acquisition_policy".toList, some (textJson (policyName p.acquisitionPolicy))),
    ("acquisition_resources".toList, omitEmpty [] (ofList resourceJson) p.resources),
    ("acquisition_targets".toList, omitEmpty [] (ofList targetJson) p.targets),
    ("workload_index".toList, some (ofInt p.workloadIndex)),
    ("placements".toList, some (ofList placementJson p.placements)), ("fabric".toList, p.fabric.map textJson),
    ("ports".toList, omitEmpty [] (ofList portJson) p.ports), ("endpoint".toList, some (endpointJson p.endpoint)),
    ("upstream".toList, omitEmpty [] (ofList upstreamJson) p.upstream),
    ("risks".toList, omitTexts (p.risks.map String.toList))]

def document : Text := (D.contractJson p).print

def planDigest : Text := "sha256:".toList ++ D.sha256 (D.document p)

def Separates : Prop := ∀ p q, D.sha256 (D.document p) = D.sha256 (D.document q) → D.document p = D.document q

end Digester

theorem textJson_injective : Injective textJson := fun _ _ h => Json.string.inj h

theorem textsJson_injective : Injective textsJson := ofList_injective textJson_injective

@[simp] theorem textJson_inj {s t : Text} : textJson s = textJson t ↔ s = t := textJson_injective.eq_iff

@[simp] theorem omitText_inj {s t : Text} : omitText s = omitText t ↔ s = t :=
  (omitEmpty_injective textJson_injective).eq_iff

@[simp] theorem textsJson_inj {s t : List Text} : textsJson s = textsJson t ↔ s = t := textsJson_injective.eq_iff

@[simp] theorem omitTexts_inj {s t : List Text} : omitTexts s = omitTexts t ↔ s = t :=
  (omitEmpty_injective textsJson_injective).eq_iff

@[simp] theorem ofInt_inj {a b : Int} : ofInt a = ofInt b ↔ a = b := ofInt_injective.eq_iff

theorem placementJson_injective : Injective placementJson := by
  intro p q h
  have hFields := record_inj h rfl rfl
  cases p
  cases q
  simpa using hFields

theorem portJson_injective : Injective portJson := by
  intro p q h
  have hFields := record_inj h rfl rfl
  cases p
  cases q
  simpa [String.toList_inj] using hFields

theorem endpointJson_injective : Injective endpointJson := by
  intro p q h
  have hFields := record_inj h rfl rfl
  cases p
  cases q
  simpa [(omitEmpty_injective ofInt_injective).eq_iff] using hFields

theorem sourceJson_injective : Injective sourceJson := by
  intro p q h
  have hFields := record_inj h rfl rfl
  cases p
  cases q
  simpa using hFields

theorem bool_injective : Injective bool := fun _ _ h => bool.inj h

theorem editJson_injective : Injective editJson := by
  intro p q h
  have hFields := record_inj h rfl rfl
  cases p
  cases q
  simpa [String.toList_inj, (omitEmpty_injective bool_injective).eq_iff] using hFields

theorem fileJson_injective : Injective fileJson := by
  intro p q h
  have hFields := record_inj h rfl rfl
  cases p
  cases q
  simpa [(ofList_injective editJson_injective).eq_iff] using hFields

theorem resolvedEditJson_injective : Injective resolvedEditJson := by
  intro p q h
  have hFields := record_inj h rfl rfl
  cases p
  cases q
  simpa using hFields

theorem resolvedFileJson_injective : Injective resolvedFileJson := by
  intro p q h
  have hFields := record_inj h rfl rfl
  cases p
  cases q
  simpa [(ofList_injective resolvedEditJson_injective).eq_iff] using hFields

theorem kindName_injective : Injective kindName := by
  intro a b h
  cases a <;> cases b <;> first | rfl | exact absurd h (by decide)

theorem sourceTypeName_injective : Injective sourceTypeName := by
  intro a b h
  cases a <;> cases b <;> first | rfl | exact absurd h (by decide)

theorem actionName_injective : Injective actionName := by
  intro a b h
  cases a <;> cases b <;> first | rfl | exact absurd h (by decide)

theorem policyName_injective : Injective policyName := by
  intro a b h
  cases a <;> cases b <;> first | rfl | exact absurd h (by decide)

theorem sourceSpecJson_injective : Injective sourceSpecJson := by
  intro p q h
  have hFields := record_inj h rfl rfl
  cases p
  cases q
  simpa [sourceTypeName_injective.eq_iff] using hFields

theorem specJson_injective : Injective specJson := by
  intro p q h
  have hFields := record_inj h rfl rfl
  cases p
  cases q
  simpa [kindName_injective.eq_iff, sourceSpecJson_injective.eq_iff,
    (Option.map_injective ofInt_injective).eq_iff] using hFields

theorem resourceJson_injective : Injective resourceJson := by
  intro p q h
  have hFields := record_inj h rfl rfl
  cases p
  cases q
  simpa [actionName_injective.eq_iff, specJson_injective.eq_iff] using hFields

theorem targetJson_injective : Injective targetJson := by
  intro p q h
  have hFields := record_inj h rfl rfl
  cases p
  cases q
  simpa using hFields

def SameMap {κ α : Type} [BEq κ] (xs ys : List (κ × α)) : Prop := ∀ k, xs.lookup k = ys.lookup k

theorem keeps_textMap : Keeps (ofMap textJson) SameMap := by
  intro xs ys h k
  exact Option.map_injective textJson_injective (keeps_ofMap textJson h k)

theorem lookup_decimal {α : Type} (entries : List (Int × α)) (rank : Int) :
    (entries.map fun entry => (decimal entry.1, entry.2)).lookup (decimal rank) = entries.lookup rank := by
  induction entries with
  | nil => rfl
  | cons entry rest ih =>
    rw [List.map_cons, List.lookup_cons, List.lookup_cons, ih]
    have hSame : (decimal rank == decimal entry.1) = (rank == entry.1) := by
      rw [Bool.eq_iff_iff, beq_iff_eq, beq_iff_eq, Json.decimal_injective.eq_iff]
    rw [hSame]

theorem keeps_rankMap {α : Type} {f : α → Json} (hf : Injective f) : Keeps (rankMap f) SameMap := by
  intro xs ys h rank
  have hGet := Option.map_injective hf (keeps_ofMap f h (decimal rank))
  rwa [lookup_decimal, lookup_decimal] at hGet

structure SameExecution (u v : UpstreamExecution) : Prop where
  installByRank : SameMap u.installByRank v.installByRank
  containersByRank : SameMap u.containersByRank v.containersByRank
  rest : { u with installByRank := [], containersByRank := [] } = { v with installByRank := [], containersByRank := [] }

theorem keeps_executionJson : Keeps executionJson SameExecution := by
  intro u v h
  have hFields := record_inj h rfl rfl
  simp only [List.cons.injEq, Prod.mk.injEq, true_and, (Option.map_injective ofInt_injective).eq_iff,
    (omitEmpty_injective (ofList_injective textsJson_injective)).eq_iff,
    (omitEmpty_injective (ofList_injective fileJson_injective)).eq_iff] at hFields
  obtain ⟨hInstall, hInstallByRank, hStart, hStop, hContainers, hCoord, hContainersByRank, hRest⟩ := hFields
  refine ⟨?_, ?_, ?_⟩
  · exact keeps_omitEmpty (fun _ => rfl) (keeps_rankMap (ofList_injective textsJson_injective)) hInstallByRank
  · exact keeps_omitEmpty (fun _ => rfl) (keeps_rankMap textsJson_injective) hContainersByRank
  · simp_all

/-- The same reviewed operation: the environment as a map, everything else as it is. -/
structure SameLifecycle (u v : UpstreamPreview) : Prop where
  nodeID : u.nodeID = v.nodeID
  nodeName : u.nodeName = v.nodeName
  rank : u.rank = v.rank
  source : u.source = v.source
  execution : SameExecution u.execution v.execution
  environment : SameMap u.environment v.environment
  configuration : u.configuration = v.configuration

theorem keeps_upstreamJson : Keeps upstreamJson SameLifecycle := by
  intro u v h
  have hFields := record_inj h rfl rfl
  simp only [List.cons.injEq, Prod.mk.injEq, true_and, and_true, Option.some.injEq, textJson_inj, omitText_inj, ofInt_inj,
    sourceJson_injective.eq_iff,
    (omitEmpty_injective (ofList_injective resolvedFileJson_injective)).eq_iff] at hFields
  obtain ⟨hNode, hName, hRank, hSource, hExecution, hEnv, hConf⟩ := hFields
  exact ⟨hNode, hName, hRank, hSource, keeps_executionJson hExecution,
    keeps_omitEmpty (fun _ => rfl) keeps_textMap hEnv, hConf⟩

structure SameBound (D : Digester) (p q : DeploymentPlan) : Prop where
  recipeDigest : p.recipeDigest = q.recipeDigest
  recipeName : p.recipeName = q.recipeName
  variants : SameMap p.variants q.variants
  parameters : ∀ k, (p.parameters.lookup k).map D.setting = (q.parameters.lookup k).map D.setting
  acquisitionPolicy : p.acquisitionPolicy = q.acquisitionPolicy
  targets : p.targets = q.targets
  workloadIndex : p.workloadIndex = q.workloadIndex
  placements : p.placements = q.placements
  fabric : p.fabric = q.fabric
  ports : p.ports = q.ports
  endpoint : p.endpoint = q.endpoint
  upstream : List.Forall₂ SameLifecycle p.upstream q.upstream
  risks : p.risks = q.risks

variable {p q : DeploymentPlan} {D : Digester}

theorem Digester.contract_binds (h : D.contractJson p = D.contractJson q) :
    SameBound D p q ∧ p.resources = q.resources := by
  have hFields := record_inj h rfl rfl
  simp only [List.cons.injEq, Prod.mk.injEq, true_and, and_true, Option.some.injEq, textJson_inj, omitText_inj,
    omitTexts_inj, ofInt_inj, policyName_injective.eq_iff, Int.natCast_inj, endpointJson_injective.eq_iff,
    (Option.map_injective textJson_injective).eq_iff, (ofList_injective placementJson_injective).eq_iff,
    (omitEmpty_injective (ofList_injective resourceJson_injective)).eq_iff,
    (omitEmpty_injective (ofList_injective targetJson_injective)).eq_iff,
    (omitEmpty_injective (ofList_injective portJson_injective)).eq_iff] at hFields
  obtain ⟨hDigest, hName, hVariants, hParameters, hPolicy, hResources, hTargets, hIdx, hPlacements, hFabric, hPorts,
    hEndpoint, hUp, hRisks⟩ := hFields
  refine ⟨⟨hDigest, hName, ?_, ?_, hPolicy, hTargets, hIdx, hPlacements, hFabric, hPorts, hEndpoint, ?_, ?_⟩, hResources⟩
  · exact keeps_omitEmpty (fun _ => rfl) keeps_textMap hVariants
  · exact keeps_omitEmpty (fun _ => rfl) (keeps_ofMap D.setting) hParameters
  · exact keeps_omitEmpty List.Forall₂.nil (Json.keeps_ofList keeps_upstreamJson) hUp
  · exact List.map_injective_iff.mpr (fun _ _ => String.toList_inj.mp) hRisks

theorem Digester.Separates.contract (hSeparates : D.Separates)
    (h : D.planDigest p = D.planDigest q) : D.contractJson p = D.contractJson q := by
  have hHash := List.append_cancel_left h
  exact Json.print_injective (hSeparates p q hHash)

theorem SameBound.leaseResources (h : SameBound D p q) : leaseResources p = leaseResources q := by
  have hNodes : p.upstream.map (fun u => nodeLease u.nodeID) = q.upstream.map fun u => nodeLease u.nodeID := by
    rw [← List.forall₂_eq_eq_eq, List.forall₂_map_left_iff, List.forall₂_map_right_iff]
    exact h.upstream.imp fun _ _ hSame => by rw [hSame.nodeID]
  rw [Plan.leaseResources, Plan.leaseResources, hNodes, h.placements, h.fabric, h.ports]

theorem reviewed_plan_binds {D : Digester} (hSeparates : D.Separates) {p q : DeploymentPlan}
    (h : D.planDigest p = D.planDigest q) :
    leaseResources p = leaseResources q ∧ p.placements = q.placements ∧ p.ports = q.ports ∧ p.endpoint = q.endpoint ∧
      List.Forall₂ SameLifecycle p.upstream q.upstream ∧ p.resources = q.resources ∧ p.targets = q.targets := by
  obtain ⟨hBound, hResources⟩ := Digester.contract_binds (hSeparates.contract h)
  exact ⟨hBound.leaseResources, hBound.placements, hBound.ports, hBound.endpoint, hBound.upstream, hResources,
    hBound.targets⟩

def plainDigester : Digester := ⟨id, fun _ => .null⟩

theorem separates_plain : plainDigester.Separates := fun _ _ h => h

def samplePlan (resources : List Resource) : DeploymentPlan where
  recipeDigest := "sha256:1".toList
  recipeName := "engine".toList
  parameters := []
  variants := []
  workloadIndex := 0
  acquisitionPolicy := .downloadMissing
  acquisition := some ⟨[⟨"n1".toList, "/cache".toList⟩], resources, [], true⟩
  placements := [⟨"n1".toList, "n1".toList, 0, 0, "g0".toList, ["g0".toList], []⟩]
  fabric := none
  upstream := [⟨"n1".toList, "n1".toList, 0, ⟨"https://github.com/a/b".toList, [], [], []⟩,
    ⟨[], [(0, [["make".toList]])], ["run".toList], ["stop".toList], [], none, [], [], [], [], [], [], []⟩, [], []⟩]
  ports := [⟨"n1".toList, "n1".toList, 8000, 8000, "tcp"⟩]
  endpoint := ⟨"n1".toList, 8000, [], []⟩
  risks := []
  conflicts := []
  diagnostics := []
  ready := true

def sized (size : Int) (r : Resource) : Resource := { r with spec := { r.spec with sizeBytes := some size } }

theorem reviewed_plan_binds_sized :
    samplePlan [sized 1 (sampleResource .image "i".toList)] ≠ samplePlan [sized 2 (sampleResource .image "i".toList)] ∧
      plainDigester.planDigest (samplePlan [sized 1 (sampleResource .image "i".toList)]) =
        plainDigester.planDigest (samplePlan [sized 2 (sampleResource .image "i".toList)]) ∧
      leaseResources (samplePlan [sized 1 (sampleResource .image "i".toList)]) =
        leaseResources (samplePlan [sized 2 (sampleResource .image "i".toList)]) :=
  ⟨by decide, rfl, (reviewed_plan_binds separates_plain rfl).1⟩

end LocalModelWorks.Plan
