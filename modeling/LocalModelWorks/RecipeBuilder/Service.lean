import LocalModelWorks.RecipeBuilder.Drafts

/-!
# Interleaved calls on one draft

Any number of callers work on one draft.
-/

namespace LocalModelWorks.RecipeBuilder

open Transition

variable {μ δ : Type}

inductive Call (μ δ : Type)
  | reserveOperation (version : Int) (kind : Phase)
  | edit (version : Int) (e : Edit μ) (refused : Option DraftError)
  | delete (version : Int)
  | reportOperationProgress (opID : Nat)
  | failOperation (opID : Nat)
  | execute (opID : Nat) (runID : Option String) (job : Job μ δ)
  | reconcileOperations (installed : Bool)

inductive Stage (μ δ : Type)
  | writing (examined : Row μ δ) (statement : Statement μ δ)
  | attaching (examined : Row μ δ) (op : Operation) (runID : Option String) (job : Job μ δ)
  | working (examined : Row μ δ) (op : Operation) (runID : Option String) (job : Job μ δ)
  | failing (examined : Row μ δ) (op : Operation) (candidates : Option (List Asset))
  | removing

inductive Event (μ δ : Type)
  | reserved (op : Operation) (examined replaced : Row μ δ)
  | edited (examined replaced : Row μ δ)
  | deleted (examined replaced : Row μ δ)
  | finished (opID : Nat)
  | imported (op : Operation) (examined : Row μ δ) (current : Option (Row μ δ)) (package : Package μ)

structure World (μ δ : Type) where
  row : Option (Row μ δ)
  /-- Identifiers are drawn in turn, so no two of them agree. -/
  nextID : Nat
  stage : Nat → Option (Stage μ δ)
  packages : List (δ × Package μ)
  history : List (Event μ δ)

/-- What the call does next on the row it read; `none` is a call that is done. The inspection,
packaging and installation of a draft that is not being analyzed are refused. -/
def Call.begin (freshID : Nat) (row : Row μ δ) : Call μ δ → Except DraftError (Option (Stage μ δ))
  | .reserveOperation version kind =>
    (RecipeBuilder.reserveOperation row freshID version kind).map (some ∘ .writing row)
  | .edit version e refused => (RecipeBuilder.edit row version e refused).map (·.map (.writing row))
  | .delete version => (RecipeBuilder.delete row version).map (some ∘ .writing row)
  | .reportOperationProgress opID =>
    (requireOperation row opID none).map fun op => some (.writing row (.report op))
  | .failOperation opID => (requireOperation row opID none).map fun op => some (.failing row op none)
  | .execute opID runID job =>
    match requireOperation row opID (some job.kind) with
    | .error e => .error e
    | .ok op =>
      match job, row.state with
      | .generate _, _ | .resolve _, _ | .prepareChange _ _ _, _ | _, .analyzing =>
        .ok (some (.attaching row op runID job))
      | _, _ => .error (operationConflict "draft is not reserved for this operation")
  | .reconcileOperations installed => .ok ((RecipeBuilder.reconcileOperations row installed).map (.writing row))

def Statement.event (examined replaced : Row μ δ) : Statement μ δ → Option (Event μ δ)
  | .reserve _ op => some (.reserved op examined replaced)
  | .delete _ => some (.deleted examined replaced)
  | .complete opID _ | .completeGeneration _ opID _ _ _ => some (.finished opID)
  | .report _ => none
  | .edit _ _ _ | .restoreInterrupted _ => some (.edited examined replaced)

namespace World

variable (s : World μ δ) (t : Nat) (stage : Option (Stage μ δ))

def setStage : World μ δ :=
  { s with stage := Function.update s.stage t stage }

theorem setStage_self : (s.setStage t stage).stage t = stage := by simp [setStage]

theorem setStage_other {t t' : Nat} (hNe : t' ≠ t) (stage : Option (Stage μ δ)) :
    (s.setStage t stage).stage t' = s.stage t' := by simp [setStage, hNe]

def afterWrite : Statement μ δ → Option (Stage μ δ)
  | .delete _ => some .removing
  | _ => none

section

variable (s : World μ δ) (t : Nat) (examined : Row μ δ)

def write (statement : Statement μ δ) : World μ δ :=
  match s.row with
  | none => s.setStage t none
  | some row =>
    if statement.matches row then
      { s.setStage t (afterWrite statement) with
        row := statement.apply row, history := s.history ++ (statement.event examined row).toList }
    else s.setStage t none

variable (op : Operation)

def attachRun (runID : Option String) (job : Job μ δ) : World μ δ :=
  match s.row with
  | none => s.setStage t (some (.failing examined op none))
  | some row =>
    if row.ownedBy op.id then
      { s.setStage t (some (.working examined op runID job)) with row := some { row with runID := runID } }
    else s.setStage t (some (.failing examined op none))

def fail (candidates : Option (List Asset)) : World μ δ :=
  let (row, op) := latestRow s.row examined op
  s.setStage t (some (.writing row (failOperation row op candidates)))

def call (c : Call μ δ) : World μ δ :=
  match s.row with
  | none => s
  | some row =>
    match c.begin s.nextID row with
    | .error _ => s
    | .ok stage => { s.setStage t stage with nextID := s.nextID + 1 }

end

variable [DecidableEq μ] [DecidableEq δ]

def writeLayout (packages : List (δ × Package μ)) (digest : δ) (package : Package μ) : List (δ × Package μ) :=
  if packages.any (·.1 == digest) then packages else packages ++ [(digest, package)]

variable (codec : Codec μ δ) (s : World μ δ) (t : Nat)

def work (examined : Row μ δ) (op : Operation) (runID : Option String) (job : Job μ δ) : World μ δ :=
  match job.work codec s.packages examined op runID with
  | .complete statement => s.setStage t (some (.writing examined statement))
  | .packed package statement =>
    { s.setStage t (some (.writing examined statement)) with
      packages := writeLayout s.packages (codec.digest package) package }
  | .imported package statement =>
    { s.setStage t (some (.writing examined statement)) with
      history := s.history ++ [.imported op examined s.row package] }
  | .failed candidates => s.setStage t (some (.failing examined op candidates))

def advance : World μ δ :=
  match s.stage t with
  | none => s
  | some (.writing examined statement) => s.write t examined statement
  | some (.attaching examined op runID job) => s.attachRun t examined op runID job
  | some (.working examined op runID job) => s.work codec t examined op runID job
  | some (.failing examined op candidates) => s.fail t examined op candidates
  | some .removing => { s.setStage t none with packages := [] }

end World

inductive Issued (row : Row μ δ) (freshID : Nat) : Statement μ δ → Prop
  | reserve (version : Int) (kind : Phase) (hFree : row.operation = none) (hAllowed : reservable row kind = .ok ()) :
      Issued row freshID (.reserve version ⟨freshID, kind, row.state⟩)
  | edit (e : Edit μ) (hFree : row.operation = none) : Issued row freshID (.edit row.version row e)
  | restore (hFree : row.operation = none) : Issued row freshID (.restoreInterrupted row.version)
  | delete (version : Int) (hFree : row.operation = none) : Issued row freshID (.delete version)
  | report (op : Operation) (hOwner : row.operation = some op) : Issued row freshID (.report op)
  | reconcile (op : Operation) (state : DraftState) (hOwner : row.operation = some op)
      (hState : state = failedState op ∨ state = .installed ∧ op.kind = .install) :
      Issued row freshID (completeOperation row op state none none none row.packageDigest row.runID)

variable {row : Row μ δ} {freshID : Nat}

theorem map_ok {α β : Type} {f : α → β} {x : Except DraftError α} {b : β} (h : x.map f = .ok b) :
    ∃ a, x = .ok a ∧ f a = b := by
  cases x with
  | error e => cases h
  | ok a => exact ⟨a, rfl, Except.ok.inj h⟩

theorem requireOperation_ok {opID : Nat} {kind : Option Phase} {op : Operation}
    (h : requireOperation row opID kind = .ok op) :
    row.operation = some op ∧ op.id = opID ∧ ∀ k, kind = some k → k = op.kind := by
  rw [requireOperation] at h
  split at h
  · cases h
  rename_i owner hOwner
  split at h
  · cases h
  rename_i hID
  split at h
  · cases h
  rename_i hKind
  cases h
  refine ⟨hOwner, Decidable.not_not.mp hID, ?_⟩
  rintro k rfl
  simpa using hKind

theorem edit_ok {version : Int} {e : Edit μ} {refused : Option DraftError} {st : Statement μ δ}
    (h : edit row version e refused = .ok (some st)) :
    row.operation = none ∧ row.state ≠ .installed ∧ st = .edit row.version row e := by
  unfold edit at h
  split at h
  · cases h
  split at h
  · cases h
  rename_i hVer
  split at h
  · cases h
  rename_i hFree
  split at h
  · cases h
  rename_i hState
  split at h
  · cases h
  split at h
  · cases h
  · cases h
    exact ⟨by simpa using hFree, hState, by rw [Decidable.not_not.mp hVer]⟩

theorem reconcileOperations_issued {installed : Bool} {st : Statement μ δ}
    (h : reconcileOperations row installed = some st) : Issued row freshID st := by
  rw [reconcileOperations] at h
  split at h
  next hFree =>
    rw [Option.ite_none_right_eq_some] at h
    cases h.2
    exact .restore hFree
  next op hOwner =>
    cases h
    refine .reconcile op _ hOwner ?_
    split
    next hInstall => exact .inr ⟨rfl, hInstall.1⟩
    · exact .inl rfl

theorem Call.begin_ok {c : Call μ δ} {stage : Stage μ δ} (h : c.begin freshID row = .ok (some stage)) :
    (∃ st, stage = .writing row st ∧ Issued row freshID st ∧
        ∀ version op, st = .reserve version op → ∃ kind, c = .reserveOperation version kind) ∨
      (∃ op, stage = .failing row op none ∧ row.operation = some op) ∨
      ∃ op runID job, stage = .attaching row op runID job ∧ row.operation = some op ∧ job.kind = op.kind := by
  cases c with
  | reserveOperation version kind =>
    obtain ⟨st, hCall, hStage⟩ := map_ok h
    cases hStage
    rw [RecipeBuilder.reserveOperation] at hCall
    split at hCall
    · cases hCall
    rename_i hFree
    split at hCall
    · cases hCall
    rename_i hAllowed
    cases hCall
    exact .inl ⟨_, rfl, .reserve version kind (by simpa using hFree) hAllowed, by rintro _ _ ⟨⟩; exact ⟨kind, rfl⟩⟩
  | edit version e refused =>
    obtain ⟨st, hCall, hStage⟩ := map_ok h
    obtain ⟨st, rfl, rfl⟩ := Option.map_eq_some_iff.mp hStage
    obtain ⟨hFree, _, rfl⟩ := edit_ok hCall
    exact .inl ⟨_, rfl, .edit e hFree, by rintro _ _ ⟨⟩⟩
  | delete version =>
    obtain ⟨st, hCall, hStage⟩ := map_ok h
    cases hStage
    rw [RecipeBuilder.delete] at hCall
    split at hCall
    · cases hCall
    next hFree =>
      cases hCall
      exact .inl ⟨_, rfl, .delete version (by simpa using hFree), by rintro _ _ ⟨⟩⟩
  | reportOperationProgress opID =>
    obtain ⟨op, hCall, hStage⟩ := map_ok h
    cases hStage
    exact .inl ⟨_, rfl, .report op (requireOperation_ok hCall).1, by rintro _ _ ⟨⟩⟩
  | failOperation opID =>
    obtain ⟨op, hCall, hStage⟩ := map_ok h
    cases hStage
    exact .inr (.inl ⟨op, rfl, (requireOperation_ok hCall).1⟩)
  | execute opID runID job =>
    rw [Call.begin] at h
    split at h
    · cases h
    rename_i op hCall
    obtain ⟨hOwner, _, hKind⟩ := requireOperation_ok hCall
    refine .inr (.inr ⟨op, runID, job, ?_, hOwner, hKind _ rfl⟩)
    split at h
    · cases h
      rfl
    · cases h
      rfl
    · cases h
      rfl
    · cases h
      rfl
    · cases h
  | reconcileOperations installed =>
    obtain ⟨st, hCall, rfl⟩ := Option.map_eq_some_iff.mp (Except.ok.inj h)
    refine .inl ⟨st, rfl, reconcileOperations_issued hCall, ?_⟩
    rintro version op rfl
    rw [RecipeBuilder.reconcileOperations] at hCall
    split at hCall
    · rw [Option.ite_none_right_eq_some] at hCall
      cases hCall.2
    · cases hCall

inductive Completes (codec : Codec μ δ) (row : Row μ δ) (op : Operation) : Statement μ δ → Prop
  | editable (columns : Row μ δ) (clean : Bool) (hState : columns.state = editableState clean) :
      Completes codec row op (.complete op.id columns)
  | generated (proposal : Proposal) (runID : Option String) (hKind : op.kind = .generate) :
      Completes codec row op (.completeGeneration row.version op.id op.previousState proposal runID)
  | packaged (assets : List (String × Bytes)) (annotations : List (String × String)) (runID : Option String)
      (hKind : op.kind = .package) (hAssets : verifySelectedAssets codec row = .ok assets) :
      Completes codec row op (completeOperation row op .packaged none none none
        (some (codec.digest ⟨row.manifest, assets, annotations⟩)) runID)
  | installed (runID : Option String) (hKind : op.kind = .install) :
      Completes codec row op (completeOperation row op .installed none none none row.packageDigest runID)

def Outcome.Sound (codec : Codec μ δ) (packages : List (δ × Package μ)) (row : Row μ δ) (op : Operation) :
    Outcome μ δ → Prop
  | .complete st | .packed _ st => Completes codec row op st
  | .imported layout st => op.kind = .install ∧ Completes codec row op st ∧
      row.packageDigest = some (codec.digest layout) ∧ layout.config = row.manifest ∧
      (codec.digest layout, layout) ∈ packages
  | .failed _ => True

variable [DecidableEq μ] [DecidableEq δ] {codec : Codec μ δ} {packages : List (δ × Package μ)} {op : Operation}
  {runID : Option String}

theorem install_sound {expectedDigest : Option δ} {consent current stored ready imports : Bool}
    (hKind : op.kind = .install) :
    (install codec packages row op runID expectedDigest consent current stored ready imports).Sound codec packages
      row op := by
  rw [install]
  split
  · trivial
  rename_i digest hDigest
  have hEnds : Completes codec row op _ := .installed runID hKind
  rw [hDigest] at hEnds
  split
  · trivial
  split
  · exact hEnds
  split
  · trivial
  split
  next named layout _ hLayout =>
    split
    · trivial
    rename_i hContent
    simp only [not_or, not_not] at hContent
    obtain ⟨rfl, hConfig, _⟩ := hContent
    have hSame : named = codec.digest layout := by simpa using List.find?_some hLayout
    exact ⟨hKind, hEnds, hDigest, hConfig, hSame ▸ List.mem_of_find?_eq_some hLayout⟩
  · trivial

theorem Job.work_sound {job : Job μ δ} (hKind : job.kind = op.kind) :
    (job.work codec packages row op runID).Sound codec packages row op := by
  cases job with
  | inspect found =>
    cases found with
    | error candidates => trivial
    | ok found => exact .editable _ _ rfl
  | prepareChange inventory change proposal =>
    cases inventory with
    | none => trivial
    | some inventory => exact .editable _ false rfl
  | generate proposal =>
    cases proposal with
    | none => trivial
    | some proposal => exact .generated _ runID hKind.symm
  | resolve resolved =>
    cases resolved with
    | none => trivial
    | some resolved => exact .editable _ _ rfl
  | package ready annotations =>
    rw [Job.work, RecipeBuilder.package]
    split
    · trivial
    split
    · trivial
    next assets hAssets => exact .packaged assets annotations runID hKind.symm hAssets
  | install expectedDigest consent current stored ready imports => exact install_sound hKind.symm

inductive Action (μ δ : Type)
  | call (t : Nat) (c : Call μ δ)
  | advance (t : Nat)
  | restart

structure World.Fresh (s : World μ δ) : Prop where
  row : ∃ row, s.row = some row ∧ row.version = 1 ∧ (∃ clean, row.state = editableState clean) ∧
    row.operation = none ∧ row.packageDigest = none
  idle : ∀ t, s.stage t = none
  packages : s.packages = []
  history : s.history = []

def builder (codec : Codec μ δ) : System (World μ δ) (Action μ δ) where
  init s := s.Fresh
  enabled s
    | .call t _ => s.stage t = none
    | .advance t => s.stage t ≠ none
    | .restart => True
  next s
    | .call t c => s.call t c
    | .advance t => s.advance codec t
    | .restart => { s with stage := fun _ => none }

def Stage.Owned : Stage μ δ → Prop
  | .attaching x op _ job | .working x op _ job => x.operation = some op ∧ job.kind = op.kind
  | .failing x op _ => x.operation = some op
  | _ => True

def World.Assigned (s : World μ δ) : Prop := ∀ t stage, s.stage t = some stage → stage.Owned

omit [DecidableEq μ] [DecidableEq δ] in
theorem World.Assigned.of_stage {s s' : World μ δ} (hGiven : s.Assigned) (t : Nat) (stage : Option (Stage μ δ))
    (hStages : s'.stage = (s.setStage t stage).stage) (hOwned : ∀ next, stage = some next → next.Owned) :
    s'.Assigned := by
  intro t' next hNext
  rw [hStages] at hNext
  by_cases hSame : t' = t
  · subst hSame
    rw [s.setStage_self] at hNext
    exact hOwned next hNext
  · rw [s.setStage_other hSame] at hNext
    exact hGiven t' next hNext

omit [DecidableEq μ] [DecidableEq δ] in
theorem World.Assigned.call {s : World μ δ} (hGiven : s.Assigned) (t : Nat) (c : Call μ δ) : (s.call t c).Assigned := by
  rw [World.call]
  split
  · exact hGiven
  split
  · exact hGiven
  rename_i stage hBegin
  refine hGiven.of_stage t stage rfl ?_
  rintro next rfl
  rcases Call.begin_ok hBegin with ⟨st, rfl, _⟩ | ⟨op, rfl, hOwner⟩ | ⟨op, runID, job, rfl, hOwner, hKind⟩
  · trivial
  · exact hOwner
  · exact ⟨hOwner, hKind⟩

theorem World.Assigned.advance {s : World μ δ} (hGiven : s.Assigned) (t : Nat) : (s.advance codec t).Assigned := by
  rw [World.advance]
  split
  · exact hGiven
  next x st _ =>
    rw [World.write]
    split
    · exact hGiven.of_stage t none rfl (by simp)
    split
    · refine hGiven.of_stage t _ rfl ?_
      cases st with
      | delete version => simp [World.afterWrite, Stage.Owned]
      | _ => simp [World.afterWrite]
    · exact hGiven.of_stage t none rfl (by simp)
  next x op runID job hStage =>
    have hOwned := hGiven t _ hStage
    rw [World.attachRun]
    split
    · exact hGiven.of_stage t _ rfl (by rintro _ ⟨⟩; exact hOwned.1)
    split
    · exact hGiven.of_stage t _ rfl (by rintro _ ⟨⟩; exact hOwned)
    · exact hGiven.of_stage t _ rfl (by rintro _ ⟨⟩; exact hOwned.1)
  next x op runID job hStage =>
    have hOwned := hGiven t _ hStage
    rw [World.work]
    split
    · exact hGiven.of_stage t _ rfl (by rintro _ ⟨⟩; trivial)
    · exact hGiven.of_stage t _ rfl (by rintro _ ⟨⟩; trivial)
    · exact hGiven.of_stage t _ rfl (by rintro _ ⟨⟩; trivial)
    · exact hGiven.of_stage t _ rfl (by rintro _ ⟨⟩; exact hOwned.1)
  · exact hGiven.of_stage t _ rfl (by rintro _ ⟨⟩; trivial)
  · exact hGiven.of_stage t none rfl (by simp)

end LocalModelWorks.RecipeBuilder
