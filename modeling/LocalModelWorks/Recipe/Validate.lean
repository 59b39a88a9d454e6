import LocalModelWorks.Recipe.Template

/-!
# The semantic rules of a recipe

`semanticDiagnostics`, rule group by rule group, and what its silence gives: every token
of a template is one the recipe declares, and every permission it asks for is granted.
-/

namespace LocalModelWorks.Recipe

open List

structure Diagnostic where
  code : String
  message : String
  path : String
  deriving DecidableEq

/-- `(^|:)latest$` -/
def isLatest (reference : Text) : Bool := reference = "latest".toList || ":latest".toList.isSuffixOf reference

/-- `(^|/)\.\.(/|$)` -/
def traverses (path : Text) : Bool := (path.splitOn '/').contains "..".toList

/-- `^[0-9a-f]{40}$` -/
def isSha40 (revision : Text) : Bool :=
  revision.length = 40 && revision.all fun c => c.isDigit || ('a' ≤ c && c ≤ 'f')

def sensitiveMount (mount : Text) : Bool :=
  mount = "/var/run/docker.sock".toList || mount = "/run/docker.sock".toList ||
    ["/dev/", "/proc/", "/sys/"].any fun root => root.toList.isPrefixOf mount

def checkImage (image : Image) (path : String) : List Diagnostic :=
  if isLatest image.reference then
    [⟨"recipe.image-latest", "mutable :latest image tag is not launchable; pin a digest", path ++ ".image.reference"⟩]
  else []

variable (m : Manifest)

def imageDiagnostics : List Diagnostic :=
  (m.workloads.zipIdx.flatMap fun (w, i) => checkImage w.image s!"workloads[{i}]") ++
    (m.prepare.toList.flatMap fun e => checkImage e.image "prepare") ++
    m.verify.toList.flatMap fun e => checkImage e.image "verify"

def checkSource (source : ArtSource) (path : String) : List Diagnostic :=
  (if source.type = .huggingface && !isSha40 source.revision then
    [⟨"recipe.hf-unpinned", "huggingface artifact requires a 40-hex revision", path ++ ".revision"⟩] else []) ++
  if source.type = .file && source.digest = [] then
    [⟨"recipe.file-unpinned", "file artifact requires a sha256 digest", path ++ ".digest"⟩] else []

def variantDiagnostics (a : Artifact) (p : String) : List Diagnostic :=
  (if a.defaultVariant = [] then
    [⟨"recipe.variant-default", "artifact declares variants but no defaultVariant", p ++ ".defaultVariant"⟩] else []) ++
  (a.variants.zipIdx.flatMap fun (v, i) =>
    (if (a.variants.take i).any fun earlier => earlier.name = v.name then
      [⟨"recipe.variant-duplicate", "duplicate variant name", p ++ s!".variants[{i}].name"⟩] else []) ++
    checkSource v.source (p ++ s!".variants[{i}].source")) ++
  if a.defaultVariant ≠ [] && !(a.variants.any fun v => v.name = a.defaultVariant) then
    [⟨"recipe.variant-default-unknown", "defaultVariant does not match any variant name", p ++ ".defaultVariant"⟩]
  else []

def artifactDiagnostics : List Diagnostic :=
  m.artifacts.zipIdx.flatMap fun (a, i) =>
    let p := s!"artifacts[{i}]"
    (if traverses a.mount then
      [⟨"recipe.mount-traversal", "artifact mount contains path traversal", p ++ ".mount"⟩] else []) ++
    (if sensitiveMount a.mount then
      [⟨"recipe.mount-sensitive", "artifact mount " ++ quoted a.mount ++ " targets a sensitive host path",
        p ++ ".mount"⟩] else []) ++
    (if (m.artifacts.take i).any fun earlier => earlier.mount = a.mount then
      [⟨"recipe.mount-duplicate", "two artifacts mount the same in-container path", p ++ ".mount"⟩] else []) ++
    if a.variants ≠ [] then variantDiagnostics a p
    else a.source.toList.flatMap fun source => checkSource source (p ++ ".source")

def assetDiagnostics : List Diagnostic :=
  m.assets.zipIdx.flatMap fun (a, i) =>
    (if ['/'].isPrefixOf a || traverses a then
      [⟨"recipe.asset-path", "asset paths must be relative without traversal", s!"assets[{i}]"⟩] else []) ++
    if (m.assets.take i).contains a then
      [⟨"recipe.asset-duplicate", "duplicate asset path", s!"assets[{i}]"⟩] else []

variable (checks : Checks)

def parameterDiagnostics (m : Manifest) : List Diagnostic :=
  m.parameters.zipIdx.flatMap fun (p, i) =>
    let px := s!"parameters[{i}]"
    (if (m.parameters.take i).any fun earlier => earlier.name = p.name then
      [⟨"recipe.param-duplicate", "duplicate parameter name", px ++ ".name"⟩] else []) ++
    (if p.format ≠ "" && (p.format ≠ "argv" || p.type ≠ .string) then
      [⟨"recipe.param-format", "argv format requires a string parameter", px ++ ".format"⟩] else []) ++
    (if p.forbiddenArgs ≠ [] && p.format ≠ "argv" then
      [⟨"recipe.param-forbidden-args", "forbiddenArgs requires argv format", px ++ ".forbiddenArgs"⟩] else []) ++
    ((checks.forbiddenArgs p.forbiddenArgs).toList.map fun message =>
      ⟨"recipe.param-forbidden-args", message, px ++ ".forbiddenArgs"⟩) ++
    (if p.argvPolicy ≠ "" && (p.argvPolicy ≠ "docker" || p.format ≠ "argv") then
      [⟨"recipe.param-argv-policy", "docker argvPolicy requires argv format", px ++ ".argvPolicy"⟩] else []) ++
    (if p.forbiddenEnv ≠ [] && p.argvPolicy ≠ "docker" then
      [⟨"recipe.param-forbidden-env", "forbiddenEnv requires docker argvPolicy", px ++ ".forbiddenEnv"⟩] else []) ++
    ((checks.forbiddenEnv p.forbiddenEnv).toList.map fun message =>
      ⟨"recipe.param-forbidden-env", message, px ++ ".forbiddenEnv"⟩) ++
    p.default.toList.flatMap fun value => (checkParamValue checks p value).toList.map fun message =>
      ⟨"recipe.param-default", message, px ++ ".default"⟩

variable (w : Workload)

def upstreamRankSelected (rank : Int) : Bool :=
  if rank < 0 ∨ m.compatibility.nodeCount ≤ rank then false
  else if w.ranks = [] then rank = 0
  else w.ranks.contains rank

variable (workload : Option Workload) (tv : Text)

def checkNamed : Option String :=
  match clusterTemplate tv with
  | some (rank, field) =>
    if m.compatibility.nodeCount ≤ rank ∨
        (workload.any fun w => w.upstream.isSome && !upstreamRankSelected m w rank) then
      some s!"cluster template references undeclared rank {rank}"
    else if field.isFabric && !m.hasFabricRequirement then
      some "cluster fabric template used by a recipe without a fabric requirement"
    else none
  | none =>
    match artifactName tv with
    | some name =>
      if name = "package".toList then none
      else if (m.artifactByName name).isNone then some ("template references undeclared artifact " ++ quoted name)
      else none
    | none =>
      match settingName tv with
      | some name =>
        if (m.parameterByName name).isNone then some ("template references undeclared setting " ++ quoted name)
        else none
      | none => some ("undeclared template variable " ++ String.ofList tv)

def checkTemplateVar : Option String :=
  if tv = templNodeID ∨ tv = templNodeRank ∨ tv = templNodeAddress ∨ tv = templNodeAccelerators then none
  else if tv = templFabricAddr ∨ tv = templFabricNodeAddr ∨ tv = templFabricInterface ∨
      tv = templFabricRDMADevice ∨ tv = templFabricGIDIndex then
    if m.hasFabricRequirement then none
    else some "fabric template used by a recipe without a fabric requirement"
  else checkNamed m workload tv

def checkTokens (v : Text) (path : String) : List Diagnostic :=
  (templateVars v).filterMap fun tv => (checkTemplateVar m workload tv).map fun message =>
    ⟨"recipe.template", message ++ " in " ++ String.ofList tv, path⟩

def checkTempl (vals : List Text) (path : String) (env : Dict Text) : List Diagnostic :=
  (vals.flatMap fun v => checkTokens m workload v path) ++
    env.flatMap fun (k, v) => checkTokens m workload v (path ++ ".env." ++ String.ofList k)

def isArgvFormat (format : String) : Bool := ["argv", "argv-heredoc", "argv-quoted-heredoc"].contains format

variable (p : String)

def editDiagnostics (edit : Edit) : List Diagnostic :=
  let path := p ++ ".upstream.configuration"
  if edit.template ≠ [] then checkTempl m (some w) [edit.template] path []
  else if edit.variable ≠ [] || edit.command ≠ [] then []
  else
    match m.parameterByName edit.parameter with
    | none => [⟨"recipe.upstream-configuration", "unknown parameter " ++ quoted edit.parameter, path⟩]
    | some parameter =>
      let flag := edit.format = "flag" || edit.format = "flag-compose"
      let argv := isArgvFormat edit.format
      if (flag && parameter.type ≠ .bool) ||
          (argv && (parameter.type ≠ .string || parameter.format ≠ "argv")) ||
          (!flag && !argv && parameter.format = "argv") ||
          (edit.format = "json-compose" && parameter.type ≠ .string && parameter.type ≠ .enum) then
        [⟨"recipe.upstream-configuration", "incompatible format for parameter " ++ quoted edit.parameter, path⟩]
      else []

def sourceDiagnostics (m : Manifest) : List Diagnostic :=
  match m.source with
  | none => [⟨"recipe.upstream-source", "upstream execution requires a source pinned to a full commit SHA",
      "metadata.source"⟩]
  | some source =>
    if isSha40 source.revision then
      if checks.sourceURL source.url then []
      else [⟨"recipe.upstream-source",
        "upstream source must be an HTTPS or SSH repository URL without control characters", "metadata.source.url"⟩]
    else [⟨"recipe.upstream-source", "upstream execution requires a source pinned to a full commit SHA",
      "metadata.source"⟩]

def upstreamDiagnostics (m : Manifest) (w : Workload) (u : UpstreamExecution) (p : String) : List Diagnostic :=
  checkTempl m (some w) [] p w.env ++
  ((checks.configuration u.configuration).toList.map fun message =>
    ⟨"recipe.upstream-configuration", message, p ++ ".upstream.configuration"⟩) ++
  (u.configuration.flatMap fun file => file.edits.flatMap (editDiagnostics m w p)) ++
  checkTempl m (some w) u.start (p ++ ".upstream.start") [] ++
  checkTempl m (some w) u.stop (p ++ ".upstream.stop") [] ++
  checkTempl m (some w) u.containers (p ++ ".upstream.containers") [] ++
  checkTempl m (some w) u.auxiliaryContainers (p ++ ".upstream.auxiliaryContainers") [] ++
  (u.containersByRank.flatMap fun (rank, names) =>
    checkTempl m (some w) names (p ++ s!".upstream.containersByRank.{rank}") [] ++
    if upstreamRankSelected m w rank then []
    else [⟨"recipe.upstream-rank", "container override rank must be selected by this workload",
      p ++ s!".upstream.containersByRank.{rank}"⟩]) ++
  (w.ranks.flatMap fun rank =>
    if rank < 0 ∨ m.compatibility.nodeCount ≤ rank then
      [⟨"recipe.upstream-rank", "workload rank exceeds the declared node count", p ++ ".ranks"⟩]
    else []) ++
  (u.coordinatorRank.toList.flatMap fun rank =>
    if rank ≠ 0 || !upstreamRankSelected m w rank then
      [⟨"recipe.upstream-rank", "the authored coordinator must use the selected API head at rank zero",
        p ++ ".upstream.coordinatorRank"⟩]
    else []) ++
  (u.install.zipIdx.flatMap fun (argv, j) => checkTempl m (some w) argv (p ++ s!".upstream.install[{j}]") []) ++
  (u.installByRank.flatMap fun (rank, commands) =>
    (if upstreamRankSelected m w rank then []
    else [⟨"recipe.upstream-rank", "install override rank must be selected by this workload",
      p ++ s!".upstream.installByRank.{rank}"⟩]) ++
    commands.zipIdx.flatMap fun (argv, j) =>
      checkTempl m (some w) argv (p ++ s!".upstream.installByRank.{rank}[{j}]") []) ++
  sourceDiagnostics checks m

def workloadTemplates (m : Manifest) (w : Workload) (p : String) : List Diagnostic :=
  match w.upstream with
  | none => checkTempl m (some w) w.args (p ++ ".args") w.env
  | some u => upstreamDiagnostics checks m w u p

def templateDiagnostics (m : Manifest) : List Diagnostic :=
  (m.workloads.zipIdx.flatMap fun (w, i) => workloadTemplates checks m w s!"workloads[{i}]") ++
    (m.prepare.toList.flatMap fun e => checkTempl m none e.args "prepare.args" e.env) ++
    m.verify.toList.flatMap fun e => checkTempl m none e.args "verify.args" e.env

def portDiagnostics : List Diagnostic :=
  w.ports.zipIdx.flatMap fun (port, i) =>
    if (w.ports.take i).any fun earlier => earlier.container = port.container then
      let container := port.container
      [⟨"recipe.port-duplicate", s!"container port {container} declared twice", p ++ ".ports"⟩]
    else []

def asksRdma : Bool := w.devices.any fun d => d.rdma.any fun r => r.all || r.devices ≠ []

def permissionMissing (asked : Bool) (permission message : String) : List Diagnostic :=
  if asked && !w.permissions.contains permission then
    [⟨"recipe.permission-missing", message, p ++ ".permissions"⟩]
  else []

def permissionDiagnostics : List Diagnostic :=
  permissionMissing w p (w.networkMode = "host") "network.host"
    "host networking requires the network.host permission" ++
  permissionMissing w p (asksRdma w) "devices.rdma" "RDMA devices require the devices.rdma permission" ++
  permissionMissing w p (1024 * 1024 * 1024 ≤ w.resources.shmBytes) "memory.shm-large"
    "shared memory >= 1 GiB requires the memory.shm-large permission" ++
  permissionMissing w p w.hostPreparation.isSome "host.memory-tuning"
    "host memory preparation requires the host.memory-tuning permission"

def matchDiagnostics (count : Nat) : List Workload → Nat → List (Option Match) → List Diagnostic
  | [], _, _ => []
  | w :: rest, i, seen =>
    let path := s!"workloads[{i}].match"
    if w.match = none then
      if i + 1 ≠ count then
        ⟨"recipe.variant-ambiguous", "catch-all variant (no match predicate) must be the last variant", path⟩ ::
          matchDiagnostics count rest (i + 1) seen
      else
        (if seen.contains none then
          [⟨"recipe.variant-ambiguous", "multiple catch-all variants are ambiguous", path⟩] else []) ++
        matchDiagnostics count rest (i + 1) (none :: seen)
    else
      (if seen.contains w.match then
        [⟨"recipe.variant-ambiguous", "duplicate capability predicate makes variant selection ambiguous", path⟩]
      else []) ++ matchDiagnostics count rest (i + 1) (w.match :: seen)

def rankDiagnostics : List Diagnostic :=
  if 1 < m.compatibility.nodeCount && !(m.workloads.any fun w => w.ranks ≠ []) then
    [⟨"recipe.ranks-missing", "multi-node recipe must declare ranks on at least one variant", "workloads"⟩]
  else []

def semanticDiagnostics (m : Manifest) : List Diagnostic :=
  imageDiagnostics m ++ artifactDiagnostics m ++ assetDiagnostics m ++ parameterDiagnostics checks m ++
    templateDiagnostics checks m ++
    (m.workloads.zipIdx.flatMap fun (w, i) =>
      portDiagnostics w s!"workloads[{i}]" ++ permissionDiagnostics w s!"workloads[{i}]") ++
    matchDiagnostics m.workloads.length m.workloads 0 [] ++ rankDiagnostics m

def Declared (v : Text) : Prop :=
  ∀ tv ∈ tokens v, checkTemplateVar m workload tv = none

variable {m : Manifest} {workload : Option Workload}

theorem checkTemplateVar_named {tv : Text} (hPlain : tv ∉ plainTokens) (hAcc : tv ≠ templNodeAccelerators) :
    checkTemplateVar m workload tv = checkNamed m workload tv := by
  simp only [plainTokens, mem_cons, not_or] at hPlain
  obtain ⟨h1, h2, h3, h4, h5, h6, h7, h8⟩ := hPlain
  simp only [checkTemplateVar, h1, h2, h3, h4, h5, h6, h7, h8, hAcc, or_self, if_false]

theorem checkTokens_eq_nil {v : Text} {path : String} (h : checkTokens m workload v path = []) :
    Declared m workload v := by
  intro tv hToken
  simpa using filterMap_eq_nil_iff.mp h tv (mem_templateVars.mpr hToken)

theorem checkTempl_eq_nil {vals : List Text} {path : String} {env : Dict Text}
    (h : checkTempl m workload vals path env = []) :
    (∀ v ∈ vals, Declared m workload v) ∧ ∀ entry ∈ env, Declared m workload entry.2 := by
  obtain ⟨hVals, hEnv⟩ := append_eq_nil_iff.mp h
  constructor
  · exact fun v hMem => checkTokens_eq_nil (flatMap_eq_nil_iff.mp hVals v hMem)
  · exact fun entry hMem => checkTokens_eq_nil (flatMap_eq_nil_iff.mp hEnv entry hMem)

theorem permissionMissing_eq_nil {w : Workload} {p : String} {asked : Bool} {permission message : String}
    (h : permissionMissing w p asked permission message = []) (hAsked : asked = true) :
    permission ∈ w.permissions := by
  unfold permissionMissing at h
  split at h
  · cases h
  next hNot => simpa [hAsked] using hNot

structure Permitted (w : Workload) : Prop where
  host : w.networkMode = "host" → "network.host" ∈ w.permissions
  rdma : asksRdma w = true → "devices.rdma" ∈ w.permissions
  shm : 1024 * 1024 * 1024 ≤ w.resources.shmBytes → "memory.shm-large" ∈ w.permissions
  tuning : w.hostPreparation.isSome = true → "host.memory-tuning" ∈ w.permissions

theorem permitted_of_permissionDiagnostics {w : Workload} {p : String} (h : permissionDiagnostics w p = []) :
    Permitted w := by
  simp only [permissionDiagnostics, append_eq_nil_iff] at h
  obtain ⟨⟨⟨hHost, hRdma⟩, hShm⟩, hTuning⟩ := h
  exact ⟨fun hAsk => permissionMissing_eq_nil hHost (decide_eq_true hAsk), permissionMissing_eq_nil hRdma,
    fun hAsk => permissionMissing_eq_nil hShm (decide_eq_true hAsk), permissionMissing_eq_nil hTuning⟩

structure Valid (m : Manifest) : Prop where
  args : ∀ w ∈ m.workloads, w.upstream = none → ∀ v ∈ w.args, Declared m (some w) v
  env : ∀ w ∈ m.workloads, w.upstream = none → ∀ entry ∈ w.env, Declared m (some w) entry.2
  permitted : ∀ w ∈ m.workloads, Permitted w
  extensionArgs : ∀ e ∈ m.prepare.toList ++ m.verify.toList, ∀ v ∈ e.args, Declared m none v
  extensionEnv : ∀ e ∈ m.prepare.toList ++ m.verify.toList, ∀ entry ∈ e.env, Declared m none entry.2

theorem exists_index_of_mem {α : Type} {x : α} {xs : List α} (h : x ∈ xs) : ∃ i, (x, i) ∈ xs.zipIdx := by
  obtain ⟨i, hIdx⟩ := getElem?_of_mem h
  exact ⟨i, mk_mem_zipIdx_iff_getElem?.mpr hIdx⟩

theorem valid_of_semanticDiagnostics {checks : Checks} (h : semanticDiagnostics checks m = []) : Valid m := by
  simp only [semanticDiagnostics, templateDiagnostics, append_eq_nil_iff] at h
  obtain ⟨⟨⟨⟨_, ⟨hWorkloads, hPrepare⟩, hVerify⟩, hGates⟩, _⟩, _⟩ := h
  have hTemplates : ∀ w ∈ m.workloads, w.upstream = none →
      (∀ v ∈ w.args, Declared m (some w) v) ∧ ∀ entry ∈ w.env, Declared m (some w) entry.2 := by
    intro w hMem hUp
    obtain ⟨i, hIdx⟩ := exists_index_of_mem hMem
    have hSilent := flatMap_eq_nil_iff.mp hWorkloads _ hIdx
    simp only [workloadTemplates, hUp] at hSilent
    exact checkTempl_eq_nil hSilent
  have hExts : ∀ e ∈ m.prepare.toList ++ m.verify.toList,
      (∀ v ∈ e.args, Declared m none v) ∧ ∀ entry ∈ e.env, Declared m none entry.2 := by
    intro e hMem
    rcases mem_append.mp hMem with hMem | hMem
    · exact checkTempl_eq_nil (flatMap_eq_nil_iff.mp hPrepare e hMem)
    · exact checkTempl_eq_nil (flatMap_eq_nil_iff.mp hVerify e hMem)
  refine ⟨fun w hMem hNone => (hTemplates w hMem hNone).1, fun w hMem hNone => (hTemplates w hMem hNone).2, ?_,
    fun e hMem => (hExts e hMem).1, fun e hMem => (hExts e hMem).2⟩
  intro w hMem
  obtain ⟨i, hIdx⟩ := exists_index_of_mem hMem
  exact permitted_of_permissionDiagnostics
    (append_eq_nil_iff.mp (flatMap_eq_nil_iff.mp hGates _ hIdx)).2

end LocalModelWorks.Recipe
