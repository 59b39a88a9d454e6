import LocalModelWorks.Recipe.Manifest
import Mathlib.Data.List.Dedup
import Mathlib.Data.List.Sort

/-!
# Templates

The tokens of a template string, their resolution in a render context, and the
rendering of a whole string. A string renders exactly when each of its tokens resolves.
-/

namespace LocalModelWorks.Recipe

def templNodeID : Text := "$\x7bnode.id\x7d".toList
def templNodeRank : Text := "$\x7bnode.rank\x7d".toList
def templNodeAddress : Text := "$\x7bnode.address\x7d".toList
def templNodeAccelerators : Text := "$\x7bnode.accelerators\x7d".toList
def templFabricAddr : Text := "$\x7bfabric.address\x7d".toList
def templFabricNodeAddr : Text := "$\x7bfabric.node_address\x7d".toList
def templFabricInterface : Text := "$\x7bfabric.interface\x7d".toList
def templFabricRDMADevice : Text := "$\x7bfabric.rdma_device\x7d".toList
def templFabricGIDIndex : Text := "$\x7bfabric.gid_index\x7d".toList
def templArtifact : Text := "$\x7bartifact.".toList
def templSetting : Text := "$\x7bsetting.".toList

def trimPrefix (head text : Text) : Text := if head.isPrefixOf text then text.drop head.length else text

def trimSuffix (tail text : Text) : Text :=
  if tail.isSuffixOf text then text.take (text.length - tail.length) else text

inductive Segment
  | char (c : Char)
  | token (inner : Text)
  deriving DecidableEq

def token (inner : Text) : Text := '$' :: '{' :: (inner ++ ['}'])

def scan : Option Text → Text → List Segment
  | none, [] => []
  | none, '$' :: '{' :: rest => scan (some []) rest
  | none, c :: rest => .char c :: scan none rest
  | some inner, [] => ('$' :: '{' :: inner).map .char
  | some inner, '}' :: rest => .token inner :: scan none rest
  | some inner, c :: rest => scan (some (inner ++ [c])) rest

def tokens (v : Text) : List Text := (scan none v).filterMap fun
  | .char _ => none
  | .token inner => some (token inner)

/-- `TemplateVars` of one string. -/
def templateVars (v : Text) : List Text := (tokens v).dedup.insertionSort fun a b => !(b < a)

@[simp] theorem mem_templateVars {v tv : Text} : tv ∈ templateVars v ↔ tv ∈ tokens v := by
  rw [templateVars, List.mem_insertionSort, List.mem_dedup]

variable (tv : Text)

def artifactName : Option Text :=
  if templArtifact.isPrefixOf tv && ".path\x7d".toList.isSuffixOf tv then
    some (trimSuffix ".path\x7d".toList (trimPrefix templArtifact tv))
  else none

def settingName : Option Text :=
  if templSetting.isPrefixOf tv && ['}'].isSuffixOf tv then some (trimSuffix ['}'] (trimPrefix templSetting tv))
  else none

inductive ClusterField
  | id | address | fabricNodeAddr | fabricInterface | fabricRDMADevice | fabricGIDIndex
  deriving DecidableEq

def ClusterField.isFabric : ClusterField → Bool
  | .id | .address => false
  | _ => true

variable (text : Text)

def clusterField : Option ClusterField :=
  if text = "id".toList then some .id
  else if text = "address".toList then some .address
  else if text = "fabric.node_addr".toList then some .fabricNodeAddr
  else if text = "fabric.interface".toList then some .fabricInterface
  else if text = "fabric.rdma_device".toList then some .fabricRDMADevice
  else if text = "fabric.gid_index".toList then some .fabricGIDIndex
  else none

/-- The rank that `Atoi` reads and `Itoa` writes back as it was. -/
def clusterRank : Option Nat :=
  let n := text.foldl (fun n c => 10 * n + (c.toNat - '0'.toNat)) 0
  if text.all Char.isDigit && n < 9223372036854775808 && (toString n).toList = text then some n else none

def clusterPrefix : Text := "$\x7bcluster.node.".toList

def clusterTemplate : Option (Nat × ClusterField) :=
  if clusterPrefix.isPrefixOf tv && ['}'].isSuffixOf tv then
    let body := (tv.drop clusterPrefix.length).dropLast
    if '.' ∈ body then
      match clusterRank (body.takeWhile (· != '.')), clusterField ((body.dropWhile (· != '.')).drop 1) with
      | some rank, some field => some (rank, field)
      | _, _ => none
    else none
  else none

structure RenderNode where
  nodeID : Text
  nodeAddress : Text
  fabricNodeAddr : Text
  fabricInterface : Text
  fabricRDMADevice : Text
  fabricGIDIndex : Text
  deriving DecidableEq

def RenderNode.field (node : RenderNode) : ClusterField → Text
  | .id => node.nodeID
  | .address => node.nodeAddress
  | .fabricNodeAddr => node.fabricNodeAddr
  | .fabricInterface => node.fabricInterface
  | .fabricRDMADevice => node.fabricRDMADevice
  | .fabricGIDIndex => node.fabricGIDIndex

structure RenderContext where
  nodeID : Text
  nodeRank : Int
  nodeAddress : Text
  nodeAccelerators : Text
  fabricAddr : Text
  fabricNodeAddr : Text
  fabricInterface : Text
  fabricRDMADevice : Text
  fabricGIDIndex : Text
  artifacts : Dict Text
  settings : Settings
  nodes : List (Nat × RenderNode)
  deriving DecidableEq

def formatSettingValue : Value → Text
  | .null => []
  | .bool b => (toString b).toList
  | .string text | .number _ text | .other text => text

def nonempty : Option Text := if text = [] then none else some text

namespace RenderContext

variable (c : RenderContext) (tv : Text)

def resolveNamed : Option Text :=
  match clusterTemplate tv with
  | some (rank, field) => (c.nodes.lookup rank).bind fun node => nonempty (node.field field)
  | none =>
    match artifactName tv with
    | some name => c.artifacts.lookup name
    | none =>
      match settingName tv with
      | some name => (c.settings.lookup name).map formatSettingValue
      | none => none

def resolve : Option Text :=
  if tv = templNodeID then some c.nodeID
  else if tv = templNodeRank then some (toString c.nodeRank).toList
  else if tv = templNodeAddress then some c.nodeAddress
  else if tv = templNodeAccelerators then nonempty c.nodeAccelerators
  else if tv = templFabricAddr then some c.fabricAddr
  else if tv = templFabricNodeAddr then some c.fabricNodeAddr
  else if tv = templFabricInterface then some c.fabricInterface
  else if tv = templFabricRDMADevice then some c.fabricRDMADevice
  else if tv = templFabricGIDIndex then some c.fabricGIDIndex
  else c.resolveNamed tv

def renderSegments (c : RenderContext) : List Segment → Text × Option Text
  | [] => ([], none)
  | .char ch :: rest => (ch :: (c.renderSegments rest).1, (c.renderSegments rest).2)
  | .token inner :: rest =>
    match c.resolve (token inner) with
    | some value => (value ++ (c.renderSegments rest).1, (c.renderSegments rest).2)
    | none => (token inner ++ (c.renderSegments rest).1, (c.renderSegments rest).2.or (some (token inner)))

def render (v : Text) : Except String Text :=
  match c.renderSegments (scan none v) with
  | (out, none) => .ok out
  | (_, some tv) => .error ("unresolved template " ++ String.ofList tv)

theorem renderSegments_eq_none {c : RenderContext} (segments : List Segment) :
    (c.renderSegments segments).2 = none ↔ ∀ inner, .token inner ∈ segments → (c.resolve (token inner)).isSome := by
  induction segments with
  | nil => simp [renderSegments]
  | cons segment rest ih =>
    cases segment with
    | char ch => simp [renderSegments, ih]
    | token inner =>
      cases hResolve : c.resolve (token inner) with
      | none =>
        simp only [renderSegments, hResolve, Option.or_eq_none_iff, reduceCtorEq, and_false, false_iff, not_forall]
        exact ⟨inner, List.mem_cons_self, by simp [hResolve]⟩
      | some value =>
        simp only [renderSegments, hResolve, ih, List.mem_cons, Segment.token.injEq]
        constructor
        · rintro hRest other (rfl | hMem)
          · simp [hResolve]
          · exact hRest other hMem
        · exact fun hAll other hMem => hAll other (.inr hMem)

def Renders (v : Text) : Prop := ∃ out, c.render v = .ok out

theorem renders_iff {c : RenderContext} {v : Text} : c.Renders v ↔ ∀ tv ∈ tokens v, (c.resolve tv).isSome = true := by
  have hTokens : (∀ tv ∈ tokens v, (c.resolve tv).isSome = true) ↔ (c.renderSegments (scan none v)).2 = none := by
    rw [renderSegments_eq_none]
    constructor
    · intro hAll inner hMem
      exact hAll _ (List.mem_filterMap.mpr ⟨_, hMem, rfl⟩)
    intro hAll tv hMem
    obtain ⟨segment, hSegment, hToken⟩ := List.mem_filterMap.mp hMem
    cases segment with
    | char ch => cases hToken
    | token inner =>
      cases hToken
      exact hAll inner hSegment
  rw [hTokens, Renders, render]
  split
  next out hSegments => simp [hSegments]
  next out tv hSegments => simp [hSegments]

end RenderContext

def plainTokens : List Text :=
  [templNodeID, templNodeRank, templNodeAddress, templFabricAddr, templFabricNodeAddr, templFabricInterface,
    templFabricRDMADevice, templFabricGIDIndex]

theorem fixed_shape : ∀ tv ∈ templNodeAccelerators :: plainTokens,
    clusterTemplate tv = none ∧ artifactName tv = none ∧ settingName tv = none := by
  decide

theorem settingName_of_artifactName {tv name : Text} (h : artifactName tv = some name) : settingName tv = none := by
  unfold artifactName at h
  split at h
  next hShape =>
    obtain ⟨rest, rfl⟩ := List.isPrefixOf_iff_prefix.mp (Bool.and_eq_true _ _ ▸ hShape).1
    rfl
  · cases h

namespace RenderContext

theorem isSome_resolve_plain {c : RenderContext} {tv : Text} (h : tv ∈ plainTokens) : (c.resolve tv).isSome = true := by
  simp only [plainTokens, List.mem_cons, List.not_mem_nil, or_false] at h
  rcases h with rfl | rfl | rfl | rfl | rfl | rfl | rfl | rfl <;> rfl

theorem resolve_accelerators (c : RenderContext) : c.resolve templNodeAccelerators = nonempty c.nodeAccelerators := rfl

theorem resolve_named {c : RenderContext} {tv : Text} (hPlain : tv ∉ plainTokens) (hAcc : tv ≠ templNodeAccelerators) :
    c.resolve tv = c.resolveNamed tv := by
  simp only [plainTokens, List.mem_cons, List.not_mem_nil, or_false, not_or] at hPlain
  obtain ⟨h1, h2, h3, h4, h5, h6, h7, h8⟩ := hPlain
  simp only [resolve, if_neg h1, if_neg h2, if_neg h3, if_neg h4, if_neg h5, if_neg h6, if_neg h7, if_neg h8,
    if_neg hAcc]

end RenderContext

end LocalModelWorks.Recipe
