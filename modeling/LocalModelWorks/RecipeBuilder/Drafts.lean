import Mathlib.Data.String.Basic
import LocalModelWorks.KeyMap
import LocalModelWorks.Transition

/-!
# The recipe builder's draft row

A draft is one database row.
-/

namespace LocalModelWorks.RecipeBuilder

inductive DraftState
  | needsInput | valid | analyzing | packaged | installed | failed
  deriving DecidableEq

inductive Phase
  | inspect | generate | resolve | package | install | other (kind : String)
  deriving DecidableEq

structure DraftError where
  code : String
  message : String

structure Asset where
  path : String
  sha256 : String
  deriving DecidableEq

structure Operation where
  id : Nat
  kind : Phase
  previousState : DraftState
  deriving DecidableEq

structure ChangeContext where
  kind : String
  baseRecipeDigest : String
  baseSourceStatus : String
  acceptedProposalID : String
  acceptedVersion : Int
  deriving DecidableEq

structure Proposal where
  id : String
  baseVersion : Int
  deriving DecidableEq

structure Row (μ δ : Type) where
  version : Int
  state : DraftState
  manifest : μ
  candidates : List Asset
  selected : List Asset
  packageDigest : Option δ
  runID : Option String
  operation : Option Operation
  proposal : Option Proposal
  change : Option ChangeContext
  deriving DecidableEq

abbrev Bytes := List UInt8

structure Package (μ : Type) where
  config : μ
  layer : List (String × Bytes)
  annotations : List (String × String)
  deriving DecidableEq

/-- How manifests are read and packages are named. The content of a stored blob is settled by its hash. -/
structure Codec (μ δ : Type) where
  assets : μ → Option (List String)
  bytes : String → Bytes
  digest : Package μ → δ

variable {μ δ : Type} (row : Row μ δ)

def Row.changeContext : ChangeContext := row.change.getD ⟨"", "", "", "", 0⟩

def Row.ownedBy (opID : Nat) : Bool := row.operation.any (·.id == opID)

inductive Edit (μ : Type)
  | update (manifest : μ) (selected : List Asset) (clean : Bool)
  | setContext
  | updateGeneratedFile (candidates selected : List Asset) (clean : Bool)
  | dismissDiagnostics
  | acceptProposal (proposalID : String) (manifest : μ) (candidates selected : List Asset) (clean : Bool)
  | discardProposal (proposalID : String)

def editableState (clean : Bool) : DraftState := if clean then .valid else .needsInput

inductive Statement (μ δ : Type)
  | edit (version : Int) (examined : Row μ δ) (e : Edit μ)
  | restoreInterrupted (version : Int)
  | reserve (version : Int) (op : Operation)
  | delete (version : Int)
  | complete (opID : Nat) (columns : Row μ δ)
  | completeGeneration (version : Int) (opID : Nat) (state : DraftState) (proposal : Proposal)
      (runID : Option String)
  | report (op : Operation)

def Edit.matches : Edit μ → Bool
  | .update _ _ _ | .setContext | .dismissDiagnostics => row.operation.isNone
  | .updateGeneratedFile _ _ _ => row.operation.isNone && row.state != .installed
  | .acceptProposal proposalID _ _ _ _ =>
    row.proposal.any (fun p => p.id == proposalID && p.baseVersion == row.version) && row.operation.isNone &&
      row.state != .installed
  | .discardProposal proposalID => row.proposal.any (·.id == proposalID)

def Statement.matches : Statement μ δ → Bool
  | .edit version _ e => row.version == version && e.matches row
  | .restoreInterrupted version => row.version == version && row.state == .analyzing && row.operation.isNone
  | .reserve version _ | .delete version => row.version == version && row.operation.isNone
  | .complete opID _ => row.ownedBy opID
  | .completeGeneration version opID _ _ _ => row.version == version && row.ownedBy opID
  | .report op => row.ownedBy op.id

def Edit.apply (examined row : Row μ δ) : Edit μ → Row μ δ
  | .update manifest selected clean =>
    { examined with manifest := manifest, selected := selected, state := editableState clean }
  | .setContext => examined
  | .updateGeneratedFile candidates selected clean =>
    { row with
      candidates := candidates, selected := selected, state := editableState clean, packageDigest := none }
  | .dismissDiagnostics => row
  | .acceptProposal proposalID manifest candidates selected clean =>
    { row with
      manifest := manifest, candidates := candidates, selected := selected, state := editableState clean,
      packageDigest := none, proposal := none,
      change := some { examined.changeContext with
        kind := if examined.changeContext.kind = "" then "add" else examined.changeContext.kind,
        acceptedProposalID := proposalID, acceptedVersion := examined.version } }
  | .discardProposal _ => { row with proposal := none }

def Statement.apply : Statement μ δ → Option (Row μ δ)
  | .edit _ examined e => some { e.apply examined row with version := row.version + 1, operation := row.operation }
  | .restoreInterrupted _ => some { row with version := row.version + 1, state := .needsInput }
  | .reserve _ op => some { row with version := row.version + 1, state := .analyzing, operation := some op }
  | .delete _ => none
  | .complete _ columns => some { columns with version := row.version + 1, operation := none }
  | .completeGeneration _ _ state proposal runID =>
    some { row with
      version := row.version + 1, state := state, proposal := some proposal, runID := runID, operation := none }
  | .report op => some { row with operation := some op }

def staleVersion : DraftError := ⟨"recipe.draft_stale_version", "draft version changed; refetch and retry"⟩

def operationActive : DraftError := ⟨"recipe.draft_operation_active", "an operation already owns this draft"⟩

def operationConflict (message : String) : DraftError := ⟨"recipe.draft_operation_conflict", message⟩

def proposalStale : DraftError := ⟨"recipe.proposal_stale", "proposal changed; refetch and review it again"⟩

def Edit.immutable : Edit μ → String
  | .update _ _ _ | .setContext => "installed drafts are immutable; fork them instead"
  | _ => "installed drafts are immutable"

variable (version : Int)

def Edit.repeated : Edit μ → Bool
  | .acceptProposal proposalID _ _ _ _ =>
    row.changeContext.acceptedProposalID == proposalID && row.changeContext.acceptedVersion == version &&
      row.version == version + 1 && row.operation.isNone
  | _ => false

def Edit.stale : Edit μ → Bool
  | .acceptProposal proposalID _ _ _ _ =>
    proposalID == "" || !(row.proposal.any fun p => p.id == proposalID && p.baseVersion == row.version)
  | _ => false

def edit (e : Edit μ) (refused : Option DraftError) : Except DraftError (Option (Statement μ δ)) :=
  if e.repeated row version then .ok none
  else if row.version ≠ version then .error staleVersion
  else if row.operation.isSome then .error operationActive
  else if row.state = .installed then .error ⟨"recipe.draft_immutable", e.immutable⟩
  else if e.stale row then .error proposalStale
  else match refused with
    | some objection => .error objection
    | none => .ok (some (.edit version row e))

def reservable : Phase → Except DraftError Unit
  | .inspect =>
    let change := row.changeContext
    let initialChange := change.baseRecipeDigest ≠ "" ∧ row.runID = none
    let missingRepairSource := change.kind = "repair" ∧ change.baseSourceStatus = "unavailable" ∧
      row.state ≠ .installed ∧ row.state ≠ .packaged
    if ¬initialChange ∧ ¬missingRepairSource ∧ row.state ≠ .failed ∧
        ¬(row.state = .needsInput ∧ row.candidates = []) then
      .error (operationConflict "inspect is only allowed before an inventory exists or after a failed inspection")
    else .ok ()
  | .generate | .resolve =>
    if row.state ≠ .needsInput ∧ row.state ≠ .valid ∧ row.state ≠ .failed then
      .error (operationConflict "generation requires an editable draft")
    else .ok ()
  | .package =>
    if row.state ≠ .valid then .error (operationConflict "only validated drafts can be packaged") else .ok ()
  | .install =>
    if row.state ≠ .packaged ∧ row.state ≠ .installed then
      .error (operationConflict "installation requires a packaged draft")
    else .ok ()
  | .other kind => .error (operationConflict ("unknown operation kind: " ++ kind))

/-- The version the caller names is not compared with the version of the row. -/
def reserveOperation (freshID : Nat) (version : Int) (kind : Phase) : Except DraftError (Statement μ δ) :=
  if row.operation.isSome then .error operationActive
  else
    match reservable row kind with
    | .error e => .error e
    | .ok () => .ok (.reserve version ⟨freshID, kind, row.state⟩)

def delete : Except DraftError (Statement μ δ) :=
  if row.operation.isSome then .error operationActive else .ok (.delete version)

/-- `kind` is absent where any kind will do. -/
def requireOperation (opID : Nat) (kind : Option Phase) : Except DraftError Operation :=
  match row.operation with
  | none => .error (operationConflict "draft has no active operation")
  | some op =>
    if op.id ≠ opID then .error (operationConflict "operation does not own this draft")
    else if kind.any (· ≠ op.kind) then
      .error (operationConflict "draft is not reserved for this operation kind")
    else .ok op

variable (op : Operation)

def completeOperation (state : DraftState) (manifest : Option μ)
    (candidates selected : Option (List Asset)) (packageDigest : Option δ) (runID : Option String) :
    Statement μ δ :=
  .complete op.id
    { row with
      state := state, manifest := manifest.getD row.manifest, candidates := candidates.getD row.candidates,
      selected := selected.getD row.selected, packageDigest := packageDigest, runID := runID }

def failedState : DraftState := if op.kind = .inspect then .failed else op.previousState

def latestRow (latest : Option (Row μ δ)) (row : Row μ δ) (op : Operation) : Row μ δ × Operation :=
  match latest with
  | none => (row, op)
  | some latest =>
    match requireOperation latest op.id (some op.kind) with
    | .ok latestOp => (latest, latestOp)
    | .error _ => (row, op)

def failOperation (candidates : Option (List Asset)) : Statement μ δ :=
  completeOperation row op (failedState op) none candidates none row.packageDigest row.runID

inductive Job (μ δ : Type)
  | inspect (found : Except (Option (List Asset)) (μ × Option (List Asset) × Option (List Asset) × Bool))
  | prepareChange (inventory : Option (Option (List Asset))) (change : ChangeContext) (proposal : Option Proposal)
  | generate (proposal : Option Proposal)
  | resolve (resolved : Option (μ × Bool))
  | package (ready : Bool) (annotations : List (String × String))
  | install (expectedDigest : Option δ) (consent current stored ready imports : Bool)

def Job.kind : Job μ δ → Phase
  | .inspect _ | .prepareChange _ _ _ => .inspect
  | .generate _ => .generate
  | .resolve _ => .resolve
  | .package _ _ => .package
  | .install _ _ _ _ _ _ => .install

def duplicatePath (seen : List String) : List Asset → Option String
  | [] => none
  | sel :: rest => if seen.contains sel.path then some sel.path else duplicatePath (sel.path :: seen) rest

/-- The bytes of the candidates that are selected, by path. They have to be the assets the manifest declares. -/
def verifySelectedAssets (codec : Codec μ δ) (row : Row μ δ) : Except DraftError (List (String × Bytes)) :=
  match duplicatePath [] row.selected with
  | some path =>
    .error ⟨"recipe.draft_asset_duplicate", "the selection lists an asset more than once: " ++ path⟩
  | none =>
    let assets := KeyMap.ofEntries
      ((row.candidates.filter (row.selected.contains ·)).map fun c => (c.path, codec.bytes c.sha256))
    match codec.assets row.manifest with
    | none => .error ⟨"recipe.draft_manifest_invalid", "manifest is not parseable"⟩
    | some declared =>
      match declared.find? fun asset => (KeyMap.get asset assets).isNone with
      | some asset => .error ⟨"recipe.draft_source_changed", "selected asset is unavailable: " ++ asset⟩
      | none =>
        if assets.length ≠ declared.length then
          .error ⟨"recipe.draft_selection_mismatch", "selected assets must exactly match manifest assets"⟩
        else .ok assets

inductive Outcome (μ δ : Type)
  | complete (statement : Statement μ δ)
  | packed (package : Package μ) (statement : Statement μ δ)
  | imported (package : Package μ) (statement : Statement μ δ)
  | failed (candidates : Option (List Asset))

variable [DecidableEq μ] [DecidableEq δ] (codec : Codec μ δ)

def package (row : Row μ δ) (op : Operation) (runID : Option String) (ready : Bool)
    (annotations : List (String × String)) : Outcome μ δ :=
  if !ready then .failed none
  else
    match verifySelectedAssets codec row with
    | .error _ => .failed none
    | .ok assets =>
      .packed ⟨row.manifest, assets, annotations⟩ (completeOperation row op .packaged none none none
        (some (codec.digest ⟨row.manifest, assets, annotations⟩)) runID)

variable (packages : List (δ × Package μ)) (row : Row μ δ) (op : Operation) (runID : Option String)

def install (expectedDigest : Option δ) (consent current stored ready imports : Bool) : Outcome μ δ :=
  match row.packageDigest with
  | none => .failed none
  | some digest =>
    if expectedDigest ≠ some digest ∨ !consent ∨ (op.previousState = .installed ∧ !current) then .failed none
    else if op.previousState = .installed ∧ stored then
      .complete (completeOperation row op .installed none none none (some digest) runID)
    else if !ready then .failed none
    else
      match verifySelectedAssets codec row, packages.find? (·.1 == digest) with
      | .ok _, some (_, layout) =>
        if codec.digest layout ≠ digest ∨ layout.config ≠ row.manifest ∨ !imports then .failed none
        else .imported layout (completeOperation row op .installed none none none (some digest) runID)
      | _, _ => .failed none

def Job.work : Job μ δ → Outcome μ δ
  | .inspect (.error candidates) => .failed candidates
  | .inspect (.ok (manifest, candidates, selected, clean)) =>
    .complete (completeOperation row op (editableState clean) (some manifest) candidates selected row.packageDigest
      runID)
  | .prepareChange none _ _ => .failed none
  | .prepareChange (some candidates) change proposal =>
    .complete (completeOperation { row with change := some change, proposal := proposal } op .needsInput none
      candidates none none runID)
  | .generate none => .failed none
  | .generate (some proposal) =>
    .complete (.completeGeneration row.version op.id op.previousState
      { proposal with baseVersion := row.version + 1 } runID)
  | .resolve none => .failed none
  | .resolve (some (manifest, clean)) =>
    .complete (completeOperation row op (editableState clean) (some manifest) none none none runID)
  | .package ready annotations => RecipeBuilder.package codec row op runID ready annotations
  | .install expectedDigest consent current stored ready imports =>
    RecipeBuilder.install codec packages row op runID expectedDigest consent current stored ready imports

/-- After a restart: an interrupted operation returns to the state it was reserved from, except
an install whose package is in the recipe store and current. -/
def reconcileOperations (installed : Bool) : Option (Statement μ δ) :=
  match row.operation with
  | none => if row.state = .analyzing then some (.restoreInterrupted row.version) else none
  | some op =>
    let state := if op.kind = .install ∧ row.packageDigest.isSome ∧ installed then .installed else failedState op
    some (completeOperation row op state none none none row.packageDigest row.runID)

end LocalModelWorks.RecipeBuilder
