import LocalModelWorks.Diag

/-!
# Validation of a fabric

A fabric is a rank-ordered group of nodes with one transport binding for each of them. The
definition of a group is validated against the fabrics that exist and the reports of the nodes.
-/

namespace LocalModelWorks.Fabric

open Diag

inductive NodeStatus
  | pending
  | online
  | offline
  deriving DecidableEq

structure Interface where
  name : String
  addresses : List String

structure RdmaGID where
  index : Int
  value : String

structure RdmaPort where
  gids : List RdmaGID

structure RdmaDevice where
  name : String
  networkInterfaces : List String
  ports : List RdmaPort

structure Inventory where
  interfaces : List Interface
  rdmaDevices : List RdmaDevice

variable (inv : Inventory) (name : String)

def Inventory.hasInterface : Bool := inv.interfaces.any (·.name = name)

def Inventory.interfaceAddresses : List String :=
  ((inv.interfaces.find? (·.name = name)).map (·.addresses)).getD []

def Inventory.rdmaDevice : Option RdmaDevice := inv.rdmaDevices.find? (·.name = name)

inductive Report
  | none
  | unreadable (error : String)
  | parsed (inventory : Inventory)

structure NodeInfo where
  status : NodeStatus
  inventory : Report

structure MemberBinding where
  nodeID : String
  interfaceName : String
  address : String
  rdmaDevice : String
  gidIndex : Option Int
  deriving DecidableEq

structure CreateRequest where
  name : String
  transport : String
  members : List String
  bindings : List MemberBinding
  deriving DecidableEq

def transportRoCE : String := "roce"

def transportTCP : String := "tcp"

structure Surroundings where
  fabrics : List (String × String)
  nodes : String → Option NodeInfo

/-- `%q` of a text without characters to escape. -/
def inQuotes (text : String) : String := "\"" ++ text ++ "\""

def checkName (around : Surroundings) (excludeID name : String) : List Diagnostic :=
  if name = "" then [error "fabric.invalid_name" "name is required"]
  else if name.toList.any (fun c => c = '/' || c = '\\') || name = "." || name = ".." then
    [error "fabric.invalid_name" "name must not contain path separators"]
  else match around.fabrics.find? (fun row => row.2 = name && row.1 != excludeID) with
    | some row =>
      [error "fabric.name_conflict" ("fabric " ++ inQuotes name ++ " already exists (id " ++ row.1 ++ ")")]
    | none => []

def checkTransport (transport : String) : List Diagnostic :=
  if transport = transportRoCE ∨ transport = transportTCP then []
  else [error "fabric.unknown_transport"
    ("transport must be " ++ inQuotes transportRoCE ++ " or " ++ inQuotes transportTCP)]

def checkCounts (req : CreateRequest) : List Diagnostic :=
  (if req.members.length < 2 then
    [error "fabric.too_few_members" "at least two members are required"] else []) ++
  if req.bindings.length ≠ req.members.length then
    [error "fabric.bindings_incomplete" "every ordered member requires one transport binding"] else []

section

variable (nodeID : String)

def checkStatus : NodeStatus → List Diagnostic
  | .pending => [warning "fabric.member_unapproved" ("member " ++ nodeID ++ " is awaiting approval")]
  | .offline => [warning "fabric.member_offline" ("member " ++ nodeID ++ " is offline")]
  | .online => []

def checkReport : Report → List Diagnostic
  | .none => [warning "fabric.no_inventory" ("member " ++ nodeID ++ " has no inventory")]
  | .unreadable error =>
    [warning "fabric.inventory_unreadable" ("member " ++ nodeID ++ " inventory: " ++ error)]
  | .parsed _ => []

def Report.inventory : Report → Option Inventory
  | .parsed inv => some inv
  | _ => Option.none

def NodeInfo.ready (node : NodeInfo) : Bool := node.status ≠ .pending && node.inventory.inventory.isSome

variable (inv : Option Inventory) (binding : MemberBinding)

def checkInterface : List Diagnostic :=
  if binding.interfaceName = "" then
    [error "fabric.interface_required" ("member " ++ nodeID ++ " requires a network interface")]
  else match inv with
    | some inv =>
      if inv.hasInterface binding.interfaceName then []
      else [error "fabric.member_no_interface" ("member " ++ nodeID ++ " lacks interface " ++ binding.interfaceName)]
    | none => []

def checkAddress : List Diagnostic :=
  if binding.address = "" then
    [error "fabric.address_required" ("member " ++ nodeID ++ " requires a fabric address")]
  else match inv with
    | some inv =>
      if binding.interfaceName = "" ∨ binding.address ∈ inv.interfaceAddresses binding.interfaceName then []
      else [error "fabric.address_mismatch" ("address " ++ binding.address ++ " is not assigned to member " ++
        nodeID ++ " interface " ++ binding.interfaceName)]
    | none => []

def RdmaGID.isPopulated (gid : RdmaGID) : Bool := gid.value.toList.any fun c => c ≠ ':' && c ≠ '0'

variable (device : RdmaDevice) (binding : MemberBinding)

def checkGid : List Diagnostic :=
  match binding.gidIndex with
  | none => []
  | some index =>
    let gids := device.ports.flatMap (·.gids)
    if gids = [] then
      [error "fabric.gids_unreported" ("member " ++ nodeID ++ " has not reported its RDMA GID table")]
    else if gids.any fun gid => gid.index = index && gid.isPopulated then []
    else [error "fabric.gid_unavailable" ("GID index " ++ toString index ++ " is empty or absent on member " ++
      nodeID ++ " device " ++ binding.rdmaDevice)]

def checkDevice : List Diagnostic :=
  (if device.networkInterfaces = [] ∨ binding.interfaceName ∈ device.networkInterfaces then []
    else [error "fabric.rdma_interface_mismatch" ("device " ++ binding.rdmaDevice ++ " on member " ++ nodeID ++
      " is not attached to interface " ++ binding.interfaceName)]) ++
  checkGid nodeID device binding

def isGidIndex (index : Option Int) : Bool := index.any fun index => 0 ≤ index && index ≤ 255

def checkRdma : List Diagnostic :=
  (if binding.rdmaDevice = "" then
    [error "fabric.roce_requires_device" ("member " ++ nodeID ++ " requires an RDMA device")]
  else match inv with
    | some inv =>
      match inv.rdmaDevice binding.rdmaDevice with
      | none => [error "fabric.member_no_rdma" ("member " ++ nodeID ++ " lacks device " ++ binding.rdmaDevice)]
      | some device => checkDevice nodeID device binding
    | none => []) ++
  if isGidIndex binding.gidIndex then []
  else [error "fabric.gid_index_required" ("member " ++ nodeID ++ " requires a GID index from 0 to 255")]

end

def checkBinding (transport nodeID : String) (index : Nat) (inv : Option Inventory) (binding : MemberBinding) :
    List Diagnostic :=
  if binding.nodeID ≠ nodeID then
    [error "fabric.binding_order" ("binding " ++ toString index ++ " names " ++ binding.nodeID ++
      ", want ordered member " ++ nodeID)]
  else checkInterface nodeID inv binding ++ checkAddress nodeID inv binding ++
    if transport = transportRoCE then checkRdma nodeID inv binding else []

def checkDuplicate (seen : List String) (nodeID : String) : List Diagnostic :=
  if nodeID ∈ seen then [error "fabric.duplicate_member" nodeID] else []

def checkMember (around : Surroundings) (transport : String) (seen : List String) (index : Nat) (nodeID : String)
    (binding : Option MemberBinding) : List Diagnostic × Bool :=
  match around.nodes nodeID with
  | none => (checkDuplicate seen nodeID ++ [error "fabric.unknown_member" nodeID], true)
  | some node =>
    (checkDuplicate seen nodeID ++ checkStatus nodeID node.status ++ checkReport nodeID node.inventory ++
      binding.toList.flatMap (checkBinding transport nodeID index node.inventory.inventory), node.ready)

def checkMembers (around : Surroundings) (transport : String) (seen : List String) (index : Nat) :
    List String → List MemberBinding → List Diagnostic × Bool
  | [], _ => ([], true)
  | nodeID :: members, bindings =>
    let one := checkMember around transport seen index nodeID bindings.head?
    let rest := checkMembers around transport (nodeID :: seen) (index + 1) members bindings.tail
    (one.1 ++ rest.1, one.2 && rest.2)

inductive FabricState
  | ok
  | incomplete
  deriving DecidableEq

def validate (around : Surroundings) (excludeID : String) (req : CreateRequest) : FabricState × List Diagnostic :=
  let members := checkMembers around req.transport [] 0 req.members req.bindings
  let ds := checkName around excludeID req.name ++ checkTransport req.transport ++ checkCounts req ++ members.1
  (if hasError ds || !members.2 then .incomplete else .ok, ds)

end LocalModelWorks.Fabric
