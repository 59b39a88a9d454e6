import LocalModelWorks.Program
import LocalModelWorks.Table

/-!
# Installation records of the upstream runtime

`upstreamRecord` is kept twice: in the runtime's map and as `record.json` below the
persistent root.
-/

namespace LocalModelWorks.Upstream

abbrev RecordID := String
abbrev ContainerName := String
abbrev ContainerID := String

/-- The states that an engine reports and the phases that a worker writes. The source compares both as texts. -/
inductive RunState
  | created | running | paused | restarting | removing | exited | dead
  | starting | installing | stopping | observing | started
  deriving DecidableEq

inductive Operation
  | start | stop | observe
  deriving DecidableEq

/-- `dir` names the worker's directory, with its `status.json`; `process` is the pair of its pid and identity. -/
structure Job where
  dir : String
  operation : Operation
  process : Nat
  deriving DecidableEq

structure ContainerSpec where
  name : String
  containers : List ContainerName
  auxiliaryContainers : List ContainerName
  observeOnly : Bool
  install : List (List String)
  configuration : List String
  deriving DecidableEq

/-- `Observed` and `Before`: engine ids by container name. A missing name reads as the empty id. -/
abbrev Evidence := List (ContainerName × ContainerID)

namespace Evidence

variable (evidence : Evidence) (name : ContainerName)

def get : ContainerID :=
  match Table.lookup Prod.fst evidence name with
  | some entry => entry.2
  | none => ""

def put (id : ContainerID) : Evidence :=
  (name, id) :: evidence.filter fun entry => entry.1 ≠ name

end Evidence

structure Record where
  id : RecordID
  spec : ContainerSpec
  removed : Bool := false
  observed : Evidence := []
  superseded : Bool := false
  job : Option Job := none
  stopped : Bool := false
  armed : Bool := false
  before : Evidence := []
  attached : List ContainerName := []
  deriving DecidableEq

structure Status where
  phase : Option RunState := none
  done : Bool := false
  exitCode : Int := 0
  error : String := ""
  observed : Evidence := []
  deriving DecidableEq

structure ContainerInfo where
  id : ContainerID := ""
  state : RunState
  exitCode : Int := 0
  error : String := ""
  deriving DecidableEq

def upstreamContainerNames (spec : ContainerSpec) : List ContainerName := spec.containers ++ spec.auxiliaryContainers

def upstreamNamesOverlap (a b : Record) : Bool :=
  (upstreamContainerNames a.spec).any fun name => (upstreamContainerNames b.spec).any fun other => name == other

def stoppedUpstreamContainer (state : RunState) : Bool := state = .exited || state = .created || state = .dead

namespace Record

variable (record : Record)

/-- What makes a record an owner of its names: observed containers, a job, or an armed observer. -/
def hasEvidence : Bool := !record.observed.isEmpty || record.job.isSome || record.armed

def owns : Bool := !record.superseded && record.hasEvidence

def untouched : Bool :=
  record.job.isNone && !record.armed && record.observed.isEmpty && record.before.isEmpty && record.attached.isEmpty

end Record

theorem upstreamNamesOverlap_iff {a b : Record} : upstreamNamesOverlap a b = true ↔
    ∃ name, name ∈ upstreamContainerNames a.spec ∧ name ∈ upstreamContainerNames b.spec := by
  simp only [upstreamNamesOverlap, List.any_eq_true, beq_iff_eq]
  constructor
  · rintro ⟨name, hName, other, hOther, rfl⟩
    exact ⟨name, hName, hOther⟩
  · rintro ⟨name, hName, hOther⟩
    exact ⟨name, hName, name, hOther, rfl⟩

theorem upstreamNamesOverlap_comm (a b : Record) : upstreamNamesOverlap a b = upstreamNamesOverlap b a := by
  rw [Bool.eq_iff_iff, upstreamNamesOverlap_iff, upstreamNamesOverlap_iff]
  constructor
  · rintro ⟨name, hLeft, hRight⟩
    exact ⟨name, hRight, hLeft⟩
  · rintro ⟨name, hLeft, hRight⟩
    exact ⟨name, hRight, hLeft⟩

/-- `memory` is the map of a running agent and `disk` the record files. -/
structure State where
  alive : Bool
  allowExecution : Bool
  memory : List Record
  disk : List Record
  deriving DecidableEq

def replace (records : List Record) (record : Record) : List Record :=
  records.map fun old => if old.id = record.id then record else old

theorem map_id_replace (records : List Record) (record : Record) :
    (replace records record).map Record.id = records.map Record.id := by
  unfold replace
  rw [List.map_map]
  apply List.map_congr_left
  intro old _
  change (if old.id = record.id then record else old).id = old.id
  split
  next hId => exact hId.symm
  · rfl

variable {records : List Record} {record row : Record}

theorem mem_replace (hRow : row ∈ replace records record) : row = record ∨ (row ∈ records ∧ row.id ≠ record.id) := by
  obtain ⟨old, hOld, rfl⟩ := List.mem_map.mp hRow
  split
  · exact .inl rfl
  next hId => exact .inr ⟨hOld, hId⟩

theorem mem_replace_of_ne (hRow : row ∈ records) (hId : row.id ≠ record.id) : row ∈ replace records record :=
  List.mem_map.mpr ⟨row, hRow, if_neg hId⟩

theorem mem_replace_self {record old : Record} (hOld : old ∈ records) (hId : old.id = record.id) :
    record ∈ replace records record :=
  List.mem_map.mpr ⟨old, hOld, if_pos hId⟩

namespace State

variable (s : State) (record : Record)

def store : State := { s with memory := replace s.memory record }

def persist : State := { s with disk := replace s.disk record }

def die : State := { s with alive := false, memory := [] }

end State

/-- The single record that is current for a container. Several make the name ambiguous and give none. -/
def currentOwner (records : List Record) (name : ContainerName) (id : ContainerID) : Option RecordID :=
  if id = "" then none
  else
    match records.filter fun record => !record.superseded && record.observed.get name == id with
    | [owner] => some owner.id
    | _ => none

end LocalModelWorks.Upstream
