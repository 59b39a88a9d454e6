import LocalModelWorks.SourceConfig.Encode

/-!
# Recipe manifests

The typed view of a recipe document, the selection of an artifact's source, and the settings
a deployment ends up with: the declared defaults under the operator's checked overrides.
-/

namespace LocalModelWorks.Recipe

abbrev Text := List Char

abbrev Dict (α : Type) := List (Text × α)

/-- A decoded JSON value of a setting. A number has the float that `asNumber` gives and its `%v` form. -/
inductive Value
  | null
  | bool (b : Bool)
  | string (text : Text)
  | number (float : Rat) (text : Text)
  | other (text : Text)
  deriving DecidableEq

abbrev Settings := Dict Value

structure Source where
  url : Text
  revision : Text
  path : Text
  procedure : Text
  deriving DecidableEq

structure AccCompat where
  vendor : String
  architectures : List String
  count : Int
  minMemoryBytes : Int
  features : List String
  deriving DecidableEq

structure FabricCompat where
  transport : String
  sharedGIDIndex : Bool
  deriving DecidableEq

structure Compatibility where
  nodeCount : Int
  accelerator : Option AccCompat
  fabric : Option FabricCompat
  deriving DecidableEq

inductive SourceType
  | huggingface | oci | file
  deriving DecidableEq

structure ArtSource where
  type : SourceType
  identity : Text
  revision : Text
  digest : Text
  deriving DecidableEq

structure ArtVariant where
  name : Text
  source : ArtSource
  deriving DecidableEq

structure Artifact where
  name : Text
  source : Option ArtSource
  defaultVariant : Text
  variants : List ArtVariant
  mount : Text
  deriving DecidableEq

inductive ParameterType
  | int | float | bool | string | enum
  deriving DecidableEq

structure Parameter where
  name : Text
  type : ParameterType
  default : Option Value
  format : String
  optional : Bool
  forbiddenArgs : List Text
  argvPolicy : String
  forbiddenEnv : List Text
  min : Option Rat
  max : Option Rat
  minLength : Option Int
  maxLength : Option Int
  enum : List Value
  deriving DecidableEq

structure MatchAcc where
  vendor : String
  architectures : List String
  features : List String
  deriving DecidableEq

structure Match where
  accelerator : Option MatchAcc
  nodeCount : Int
  deriving DecidableEq

structure Image where
  reference : Text
  digest : Text
  deriving DecidableEq

structure Port where
  container : Int
  host : Int
  protocol : String
  deriving DecidableEq

structure Resources where
  shmBytes : Int
  tmpfsBytes : Int
  pids : Int
  deriving DecidableEq

structure DevAcc where
  all : Bool
  indices : List Int
  deriving DecidableEq

structure DevRdma where
  all : Bool
  devices : List Text
  deriving DecidableEq

structure Devices where
  accelerator : Option DevAcc
  rdma : Option DevRdma
  deriving DecidableEq

structure HostPreparation where
  requireSwap : Bool
  swappiness : Option Int
  dropPageCache : Bool
  deriving DecidableEq

structure Edit where
  start : Int
  stop : Int
  parameter : Text
  template : Text
  «variable» : Text
  command : Text
  indirect : Bool
  before : Text
  after : Text
  format : String
  flag : Text
  deriving DecidableEq

structure File where
  path : Text
  sha256 : Text
  edits : List Edit
  deriving DecidableEq

structure UpstreamExecution where
  install : List (List Text)
  installByRank : List (Int × List (List Text))
  start : List Text
  stop : List Text
  containers : List Text
  coordinatorRank : Option Int
  containersByRank : List (Int × List Text)
  auxiliaryContainers : List Text
  envFile : Text
  envTemplate : Text
  envFormat : Text
  logFile : Text
  configuration : List File
  deriving DecidableEq

structure Workload where
  «match» : Option Match
  image : Image
  command : List Text
  args : List Text
  env : Dict Text
  ports : List Port
  resources : Resources
  devices : Option Devices
  networkMode : String
  ranks : List Int
  hostPreparation : Option HostPreparation
  permissions : List String
  upstream : Option UpstreamExecution
  deriving DecidableEq

structure Extension where
  image : Image
  command : List Text
  args : List Text
  env : Dict Text
  network : String
  deriving DecidableEq

structure Manifest where
  source : Option Source
  compatibility : Compatibility
  artifacts : List Artifact
  parameters : List Parameter
  workloads : List Workload
  assets : List Text
  prepare : Option Extension
  verify : Option Extension
  deriving DecidableEq

/-- `%q` of a name without characters to escape. -/
def quoted (name : Text) : String := "\"" ++ String.ofList name ++ "\""

def Artifact.effectiveSource (a : Artifact) (variant : Text) : Except String ArtSource :=
  if a.variants = [] then
    match a.source with
    | none => .error ("artifact " ++ quoted a.name ++ " has no source or variants")
    | some source => .ok source
  else
    let name := if variant = [] then a.defaultVariant else variant
    if name = [] then .error ("artifact " ++ quoted a.name ++ " declares variants but no defaultVariant")
    else
      match a.variants.find? fun v => v.name = name with
      | some v => .ok v.source
      | none => .error ("artifact " ++ quoted a.name ++ " has no variant " ++ quoted name)

namespace Manifest

variable (m : Manifest) (name : Text)

def artifactByName : Option Artifact := m.artifacts.find? fun a => a.name = name

def parameterByName : Option Parameter := m.parameters.find? fun p => p.name = name

def hasFabricRequirement : Bool := m.compatibility.fabric.isSome

end Manifest

/-- The checks of `sourceconfig` and of `net/url` that the validator calls; `none` is their success. -/
structure Checks where
  argv : Parameter → Value → Option String
  forbiddenArgs : List Text → Option String
  forbiddenEnv : List Text → Option String
  configuration : List File → Option String
  sourceURL : Text → Bool

def Value.display : Value → Text
  | .null => "<nil>".toList
  | .bool b => (toString b).toList
  | .string text | .number _ text | .other text => text

def asNumber : Value → Option Rat
  | .number float _ => some float
  | _ => none

def isInt64 (n : Rat) : Bool := n.den = 1 && -9223372036854775808 ≤ n.num && n.num < 9223372036854775808

def checkRange (p : Parameter) (n : Rat) : Option String :=
  if p.min.any fun low => n < low then some ("parameter " ++ quoted p.name ++ " below minimum")
  else if p.max.any fun high => high < n then some ("parameter " ++ quoted p.name ++ " above maximum")
  else none

def checkType (p : Parameter) (value : Value) : Option String :=
  match p.type, value with
  | .int, value =>
    match asNumber value with
    | none => some ("parameter " ++ quoted p.name ++ " expects int")
    | some n =>
      if isInt64 n then checkRange p n else some ("parameter " ++ quoted p.name ++ " expects integer value")
  | .float, value =>
    match asNumber value with
    | none => some ("parameter " ++ quoted p.name ++ " expects number")
    | some n => checkRange p n
  | .bool, .bool _ => none
  | .bool, _ => some ("parameter " ++ quoted p.name ++ " expects bool")
  | .string, .string text =>
    if p.minLength.any fun low => (SourceConfig.byteLength text : Int) < low then
      some ("parameter " ++ quoted p.name ++ " shorter than minLength")
    else if p.maxLength.any fun high => high < (SourceConfig.byteLength text : Int) then
      some ("parameter " ++ quoted p.name ++ " longer than maxLength")
    else none
  | .string, _ => some ("parameter " ++ quoted p.name ++ " expects string")
  | .enum, value =>
    if p.enum.any fun e => e.display = value.display then none
    else some ("parameter " ++ quoted p.name ++ " not in enum")

def checkParamValue (checks : Checks) (p : Parameter) (value : Value) : Option String :=
  match if p.format = "argv" then checks.argv p value else none with
  | some message => some ("parameter " ++ quoted p.name ++ ": " ++ message)
  | none => checkType p value

namespace Manifest

def defaults (m : Manifest) : Settings := m.parameters.foldl
  (fun out p => match p.default with
    | some value => (p.name, value) :: out
    | none => out) []

def applyOverrides (checks : Checks) (m : Manifest) : Settings → Settings → Except String Settings
  | [], out => .ok out
  | (k, value) :: rest, out =>
    match m.parameterByName k with
    | none => .error ("setting " ++ quoted k ++ " is not declared by the recipe")
    | some p =>
      match checkParamValue checks p value with
      | some message => .error ("setting " ++ quoted k ++ " invalid: " ++ message)
      | none => applyOverrides checks m rest ((k, value) :: out)

/-- `EffectiveSettings`: defaults under checked overrides; a parameter without a value has to be optional. -/
def effectiveSettings (checks : Checks) (m : Manifest) (overrides : Settings) : Except String Settings :=
  match applyOverrides checks m overrides m.defaults with
  | .error message => .error message
  | .ok out =>
    match m.parameters.find? fun p => (out.lookup p.name).isNone && !p.optional with
    | some p => .error ("setting " ++ quoted p.name ++ " is required")
    | none => .ok out

theorem effectiveSettings_required {checks : Checks} {m : Manifest} {overrides settings : Settings}
    (h : m.effectiveSettings checks overrides = .ok settings) {p : Parameter} (hParam : p ∈ m.parameters)
    (hMust : p.optional = false) : (settings.lookup p.name).isSome = true := by
  unfold effectiveSettings at h
  split at h
  · cases h
  split at h
  · cases h
  rename_i out _ hNone
  cases h
  have hPresent := List.find?_eq_none.mp hNone p hParam
  rw [hMust] at hPresent
  cases hGet : settings.lookup p.name with
  | none => simp [hGet] at hPresent
  | some value => rfl

end Manifest

end LocalModelWorks.Recipe
