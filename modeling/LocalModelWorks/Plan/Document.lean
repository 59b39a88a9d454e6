import LocalModelWorks.Downloads.Store
import LocalModelWorks.Recipe.Validate

/-!
# The documents of a deployment plan

Placements, reviewed resources and reviewed upstream lifecycles, as a plan carries them
and as a deployment row stores them.
-/

namespace LocalModelWorks.Plan

open Recipe (Text Dict)

structure Placement where
  nodeID : Text
  nodeName : Text
  rank : Int
  acceleratorIndex : Int
  acceleratorUUID : Text
  accelerators : List Text
  container : Text
  deriving DecidableEq

/-- `unicode.IsSpace` -/
def isSpace (c : Char) : Bool :=
  [0x9, 0xA, 0xB, 0xC, 0xD, 0x20, 0x85, 0xA0, 0x1680, 0x2028, 0x2029, 0x202F, 0x205F, 0x3000].contains c.toNat ||
    (0x2000 ≤ c.toNat && c.toNat ≤ 0x200A)

def isBlank (text : Text) : Bool := text.all isSpace

def Placement.acceleratorBinding (p : Placement) : Text :=
  if p.accelerators = [] then if isBlank p.acceleratorUUID then [] else p.acceleratorUUID
  else if p.accelerators.any isBlank then []
  else [','].intercalate p.accelerators

structure ResolvedEdit where
  start : Int
  stop : Int
  replacement : Text
  deriving DecidableEq

structure ResolvedFile where
  path : Text
  sha256 : Text
  edits : List ResolvedEdit
  deriving DecidableEq

structure UpstreamPreview where
  nodeID : Text
  nodeName : Text
  rank : Int
  source : Recipe.Source
  execution : Recipe.UpstreamExecution
  environment : Dict Text
  configuration : List ResolvedFile
  deriving DecidableEq

inductive ResourceKind
  | artifact | recipe | image
  deriving DecidableEq

inductive SourceType
  | huggingface | oci | file | localFile | recipe
  deriving DecidableEq

structure SourceSpec where
  type : SourceType
  reference : Text
  url : Text
  revision : Text
  digest : Text
  deriving DecidableEq

structure ResourceSpec where
  kind : ResourceKind
  identity : Text
  source : SourceSpec
  destination : Text
  platform : Text
  indexDigest : Text
  manifestDigest : Text
  sizeBytes : Option Int
  deriving DecidableEq

inductive ResourceState
  | unknown | missing | incomplete | verifying | available | invalid
  deriving DecidableEq

structure Verification where
  state : ResourceState
  verifiedAt : Option Nat
  stale : Bool
  deriving DecidableEq

structure Resource where
  spec : ResourceSpec
  key : Text
  nodeID : Text
  action : Downloads.Action
  sourceNode : Text
  sourcePath : Text
  credentialID : Text
  verification : Verification
  required : Bool
  deriving DecidableEq

structure PlacementSet where
  entries : List Placement
  workload : Option Int
  variants : Dict Text
  acquisitionResources : List Resource
  upstream : List UpstreamPreview
  deriving DecidableEq

def PlacementSet.entryFor (ps : PlacementSet) (rank : Int) : Option Placement :=
  ps.entries.find? fun entry => entry.rank = rank

structure Row where
  id : Text
  recipeDigest : Text
  parameters : Recipe.Settings
  fabric : Option Text
  placement : PlacementSet
  deriving DecidableEq

end LocalModelWorks.Plan
