import LocalModelWorks.RecipeBuilder.Serialised

/-!
# What is installed is what was reviewed

A packaged draft names a package of its own manifest and its own selection.
-/

namespace LocalModelWorks.RecipeBuilder

open List Option

variable {μ δ : Type} {codec : Codec μ δ} {row x : Row μ δ} {op : Operation} {st : Statement μ δ}

def Contains (codec : Codec μ δ) (row : Row μ δ) (package : Package μ) : Prop :=
  row.packageDigest = some (codec.digest package) ∧ package.config = row.manifest ∧
    ∀ path bytes, KeyMap.get path package.layer = some bytes ↔
      ∃ asset ∈ row.selected, asset.path = path ∧ codec.bytes asset.sha256 = bytes

def Row.Packaged (codec : Codec μ δ) (row : Row μ δ) : Prop := ∃ package, Contains codec row package

def DraftState.released (state : DraftState) : Prop := state = .packaged ∨ state = .installed

theorem editableState_not_released (clean : Bool) : ¬(editableState clean).released := by
  cases clean with
  | _ => simp [editableState, DraftState.released]

theorem duplicatePath_none {seen : List String} {selected : List Asset} (h : duplicatePath seen selected = none) :
    (∀ asset ∈ selected, asset.path ∉ seen) ∧ (selected.map (·.path)).Nodup := by
  induction selected generalizing seen with
  | nil => simp
  | cons asset rest ih =>
    rw [duplicatePath] at h
    split at h
    · cases h
    rename_i hNew
    obtain ⟨hRest, hNodup⟩ := ih h
    refine ⟨forall_mem_cons.mpr ⟨by simpa using hNew, fun a ha hMem => hRest a ha (.tail _ hMem)⟩, ?_⟩
    refine nodup_cons.mpr ⟨fun hMem => ?_, hNodup⟩
    obtain ⟨a, ha, hPath⟩ := mem_map.mp hMem
    exact hRest a ha (hPath ▸ .head _)

theorem verifySelectedAssets_ok {assets : List (String × Bytes)} (h : verifySelectedAssets codec row = .ok assets)
    (hListed : ∀ asset ∈ row.selected, asset ∈ row.candidates) (path : String) (bytes : Bytes) :
    KeyMap.get path assets = some bytes ↔
      ∃ asset ∈ row.selected, asset.path = path ∧ codec.bytes asset.sha256 = bytes := by
  rw [verifySelectedAssets] at h
  split at h
  · cases h
  rename_i hApart
  have hSame := inj_on_of_nodup_map (duplicatePath_none hApart).2
  split at h
  · cases h
  dsimp only at h
  split at h
  · cases h
  split at h
  · cases h
  cases h
  rw [KeyMap.get_ofEntries]
  · simp only [List.mem_map, mem_filter, contains_iff_mem, Prod.mk.injEq]
    constructor
    · rintro ⟨asset, ⟨_, hPick⟩, hPath, hBytes⟩
      exact ⟨asset, hPick, hPath, hBytes⟩
    · rintro ⟨asset, hPick, hPath, hBytes⟩
      exact ⟨asset, ⟨hListed asset hPick, hPick⟩, hPath, hBytes⟩
  simp only [List.mem_map, mem_filter, contains_iff_mem]
  rintro _ ⟨a, ⟨_, hA⟩, rfl⟩ _ ⟨b, ⟨_, hB⟩, rfl⟩ hPath
  rw [hSame hA hB hPath]

structure Row.Reviewed (codec : Codec μ δ) (row : Row μ δ) : Prop where
  free : row.operation = none → row.state.released → row.Packaged codec
  owned : ∀ op, row.operation = some op → op.kind = .install ∨ op.previousState.released → row.Packaged codec
  generated : ∀ op, row.operation = some op → op.kind = .generate → ¬op.previousState.released

def Statement.Reviewed (codec : Codec μ δ) : Statement μ δ → Prop
  | .edit _ examined _ => examined.operation = none ∧ examined.Reviewed codec
  | .complete _ columns => columns.state.released → columns.Packaged codec
  | .completeGeneration _ _ state _ _ => ¬state.released
  | .reserve _ op => op.kind = .generate → ¬op.previousState.released
  | _ => True

def Stage.Reviewed (codec : Codec μ δ) : Stage μ δ → Prop
  | .writing x st => x.Reviewed codec ∧ st.Reviewed codec
  | .attaching x _ _ _ | .working x _ _ _ | .failing x _ _ => x.Reviewed codec
  | .removing => True

def Stage.holds : Stage μ δ → Option (Row μ δ × Operation)
  | .attaching x op _ _ | .working x op _ _ | .failing x op _ | .writing x (.report op) => some (x, op)
  | _ => none

def Held (s : World μ δ) (x : Row μ δ) (op : Operation) : Prop :=
  op.id ∈ reservedIDs s.history ∧ ∀ row, s.row = some row → row.ownedBy op.id →
    row.operation = some op ∧ row.manifest = x.manifest ∧ row.selected = x.selected ∧ row.packageDigest = x.packageDigest

def Event.Reviewed (codec : Codec μ δ) : Event μ δ → Prop
  | .imported op x current package => x.operation = some op ∧ Contains codec x package ∧
      ∃ row, current = some row ∧ Contains codec row package
  | _ => True

structure Reviewed (codec : Codec μ δ) (s : World μ δ) : Prop where
  row : ∀ row, s.row = some row → row.Reviewed codec
  stage : ∀ t stage, s.stage t = some stage → stage.Reviewed codec
  held : ∀ t stage x op, s.stage t = some stage → stage.holds = some (x, op) → Held s x op
  named : ∀ digest package, (digest, package) ∈ s.packages → codec.digest package = digest
  events : ∀ e ∈ s.history, e.Reviewed codec

theorem Row.Packaged.congr (h : x.Packaged codec) (hManifest : row.manifest = x.manifest)
    (hPick : row.selected = x.selected) (hDigest : row.packageDigest = x.packageDigest) : row.Packaged codec := by
  obtain ⟨package, hNamed, hConfig, hLayer⟩ := h
  exact ⟨package, hDigest.trans hNamed, hConfig.trans hManifest.symm, hPick ▸ hLayer⟩

theorem Row.Reviewed.failed (h : x.Reviewed codec) (hOwner : x.operation = some op) {state : DraftState}
    (hState : state = failedState op ∨ state = .installed ∧ op.kind = .install) (hFree : state.released) :
    x.Packaged codec := by
  refine h.owned op hOwner ?_
  rcases hState with rfl | ⟨_, hInstall⟩
  · rw [failedState] at hFree
    split at hFree
    · simp [DraftState.released] at hFree
    · exact .inr hFree
  · exact .inl hInstall

theorem Issued.reviewed {freshID : Nat} (h : Issued row freshID st) (hRow : row.Reviewed codec) : st.Reviewed codec := by
  cases h with
  | reserve version kind hFree hMay =>
    rintro rfl hReleased
    rcases hReleased with hState | hState
    all_goals simp [reservable, show row.state = _ from hState] at hMay
  | edit e hFree => exact ⟨hFree, hRow⟩
  | reconcile op state hOwner hState =>
    exact fun hReleased => (hRow.failed hOwner hState hReleased).congr rfl rfl rfl
  | _ => trivial

theorem Completes.reviewed (h : Completes codec row op st) (hRow : row.Reviewed codec) (hOwner : row.operation = some op)
    (hListed : op.kind = .package → ∀ asset ∈ row.selected, asset ∈ row.candidates) : st.Reviewed codec := by
  cases h with
  | editable columns clean hState =>
    intro hFree
    exact absurd (hState ▸ hFree) (editableState_not_released clean)
  | generated proposal runID hKind => exact hRow.generated op hOwner hKind
  | packaged assets annotations runID hKind hAssets =>
    exact fun _ => ⟨_, rfl, rfl, verifySelectedAssets_ok hAssets (hListed hKind)⟩
  | installed runID hKind => exact fun _ => (hRow.owned op hOwner (.inl hKind)).congr rfl rfl rfl

theorem Statement.Reviewed.apply {new : Row μ δ} (h : st.Reviewed codec) (hRow : row.Reviewed codec)
    (hMatch : st.matches row) (hReserve : ∀ version op, st = .reserve version op →
      row.operation = none ∧ op.previousState = row.state ∧ reservable row op.kind = .ok ())
    (hEdit : ∀ version x e, st = .edit version x e → row.operation = none)
    (hReport : ∀ op, st = .report op → row.operation = some op) (hApply : st.apply row = some new) :
    new.Reviewed codec := by
  cases st with
  | edit version y e =>
    cases hApply
    have hFree := hEdit version y e rfl
    refine ⟨fun _ hReleased => ?_, by simp [hFree], by simp [hFree]⟩
    cases e with
    | setContext => exact (h.2.free h.1 hReleased).congr rfl rfl rfl
    | dismissDiagnostics | discardProposal => exact (hRow.free hFree hReleased).congr rfl rfl rfl
    | _ => exact absurd hReleased (editableState_not_released _)
  | restoreInterrupted version =>
    cases hApply
    simp only [Statement.matches, Bool.and_eq_true, isNone_iff_eq_none] at hMatch
    exact ⟨fun _ hReleased => by simp [DraftState.released] at hReleased, by simp [hMatch.2], by simp [hMatch.2]⟩
  | reserve version op =>
    cases hApply
    obtain ⟨hFree, hState, hMay⟩ := hReserve version op rfl
    refine ⟨by rintro ⟨⟩, ?_, by rintro _ ⟨⟩; exact h⟩
    rintro _ ⟨⟩ hReleased
    refine (hRow.free hFree ?_).congr rfl rfl rfl
    rcases hReleased with hInstall | hReleased
    · rw [hInstall, reservable, ite_eq_right_iff] at hMay
      by_contra hOther
      exact absurd (hMay (not_or.mp hOther)) (by simp)
    · exact hState ▸ hReleased
  | delete version => cases hApply
  | complete opID columns =>
    cases hApply
    exact ⟨fun _ hReleased => (h hReleased).congr rfl rfl rfl, by rintro _ ⟨⟩, by rintro _ ⟨⟩⟩
  | completeGeneration version opID state proposal runID =>
    cases hApply
    exact ⟨fun _ hReleased => absurd hReleased h, by rintro _ ⟨⟩, by rintro _ ⟨⟩⟩
  | report op =>
    cases hApply
    have hSame : { row with operation := some op } = row := by rw [← hReport op rfl]
    rw [hSame]
    exact hRow

variable {s s' : World μ δ}

theorem Held.of_row (hSerial : Serial s) (hRow : s.row = some row) (hOwner : row.operation = some op) : Held s row op := by
  have hCount := count_finishes op.id hSerial.owner
  rw [hRow, bind_some, hOwner, map_some, if_pos rfl, if_neg (by simp)] at hCount
  refine ⟨count_pos_iff.mp (by omega), ?_⟩
  rintro current hNow _
  cases hRow.symm.trans hNow
  exact ⟨hOwner, rfl, rfl, rfl⟩

section

def Joins (codec : Codec μ δ) (s : World μ δ) (next : Stage μ δ) : Prop :=
  next.Reviewed codec ∧ ∀ x op, next.holds = some (x, op) → Held s x op

variable (h : Reviewed codec s)
include h

variable (t : Nat) (stage : Option (Stage μ δ))

namespace Reviewed

theorem thread (hStages : s'.stage = (s.setStage t stage).stage)
    (hRow : ∀ row, s'.row = some row → row.Reviewed codec) (hStage : ∀ next, stage = some next → Joins codec s next)
    (hHeld : ∀ x op, Held s x op → Held s' x op)
    (hNamed : ∀ digest package, (digest, package) ∈ s'.packages → codec.digest package = digest)
    (hEvents : ∀ e ∈ s'.history, e.Reviewed codec) : Reviewed codec s' := by
  refine ⟨hRow, ?_, ?_, hNamed, hEvents⟩
  · intro t' next hNext
    rw [hStages] at hNext
    by_cases hSame : t' = t
    · subst hSame
      exact (hStage next (s.setStage_self t' stage ▸ hNext)).1
    · exact h.stage t' next (s.setStage_other hSame stage ▸ hNext)
  intro t' next x op hNext hHolds
  rw [hStages] at hNext
  refine hHeld x op ?_
  by_cases hSame : t' = t
  · subst hSame
    exact (hStage next (s.setStage_self t' stage ▸ hNext)).2 x op hHolds
  · exact h.held t' next x op (s.setStage_other hSame stage ▸ hNext) hHolds

theorem setStage (hStage : ∀ next, stage = some next → Joins codec s next) : Reviewed codec (s.setStage t stage) :=
  h.thread t stage rfl h.row hStage (fun _ _ hHeld => hHeld) h.named h.events

theorem call (hSerial : Serial s) (t : Nat) (c : Call μ δ) : Reviewed codec (s.call t c) := by
  rw [World.call]
  split
  · exact h
  rename_i row hRow
  have hReviewed := h.row row hRow
  split
  · exact h
  rename_i stage hBegin
  refine h.thread t stage rfl h.row ?_ (fun _ _ hHeld => hHeld) h.named h.events
  rintro next rfl
  have hOwn {op} (hOwner : row.operation = some op) : ∀ x o, some (row, op) = some (x, o) → Held s x o := by
    rintro _ _ ⟨⟩
    exact .of_row hSerial hRow hOwner
  rcases Call.begin_ok hBegin with ⟨st, rfl, hIssued, _⟩ | ⟨op, rfl, hOwner⟩ | ⟨op, runID, job, rfl, hOwner, _⟩
  · refine ⟨⟨hReviewed, hIssued.reviewed hReviewed⟩, ?_⟩
    cases hIssued with
    | report op hOwner => exact hOwn hOwner
    | _ => rintro _ _ ⟨⟩
  · exact ⟨hReviewed, hOwn hOwner⟩
  · exact ⟨hReviewed, hOwn hOwner⟩

theorem write (hSerial : Serial s) {t : Nat} (hStage : s.stage t = some (.writing x st)) :
    Reviewed codec (s.write t x st) := by
  rw [World.write]
  split
  · exact h.setStage t none (by simp)
  rename_i row hRow
  split
  next hMatch =>
    have hSame := hSerial.replaced hStage hRow hMatch
    have hFree : st.replaces → row.operation = none := fun hReplaces => (hSame hReplaces).1 ▸ (hSame hReplaces).2.free
    have hReport : ∀ op, st = .report op → row.operation = some op := by
      rintro op rfl
      exact ((h.held t _ x op hStage rfl).2 row hRow hMatch).1
    refine h.thread t (World.afterWrite st) rfl ?_ ?_ ?_ h.named ?_
    · intro new hApply
      refine (h.stage t _ hStage).2.apply (h.row row hRow) hMatch ?_ ?_ hReport hApply
      · rintro version op rfl
        obtain ⟨rfl, hWait⟩ := hSame rfl
        exact ⟨hWait.free, hWait.justified.2.2, hWait.justified.2.1⟩
      · rintro version y e rfl
        exact hFree rfl
    · cases st with
      | delete version =>
        rintro _ ⟨⟩
        exact ⟨trivial, by rintro _ _ ⟨⟩⟩
      | _ => rintro _ ⟨⟩
    · rintro y op ⟨hMem, hContent⟩
      refine ⟨by rw [reservedIDs_append]; exact mem_append_left _ hMem, ?_⟩
      intro new hApply hOwned
      obtain ⟨owner, hOwner, hID⟩ := Row.ownedBy_iff.mp hOwned
      cases st with
      | edit | restoreInterrupted =>
        cases hApply
        cases (hFree rfl).symm.trans hOwner
      | reserve version other =>
        cases hApply
        cases hOwner
        exact absurd (hID ▸ hMem) ((hSame rfl).2.drawn _ rfl).2
      | delete version => cases hApply
      | complete | completeGeneration =>
        cases hApply
        cases hOwner
      | report other =>
        cases hApply
        cases hOwner
        have hRowOwner := hReport _ rfl
        obtain ⟨hSameOp, hRest⟩ := hContent row hRow (Row.ownedBy_iff.mpr ⟨_, hRowOwner, hID⟩)
        exact ⟨hRowOwner.symm.trans hSameOp, hRest⟩
    intro e hMem
    rcases mem_append.mp hMem with hOld | hNew
    · exact h.events e hOld
    cases st with
    | report op => cases hNew
    | _ =>
      cases mem_singleton.mp hNew
      trivial
  · exact h.setStage t none (by simp)

theorem attachRun {t : Nat} {runID : Option String} {job : Job μ δ}
    (hStage : s.stage t = some (.attaching x op runID job)) : Reviewed codec (s.attachRun t x op runID job) := by
  have hX : x.Reviewed codec := h.stage t _ hStage
  have hHeld : ∀ y o, some (x, op) = some (y, o) → Held s y o := by
    rintro _ _ ⟨⟩
    exact h.held t _ x op hStage rfl
  have hFail : Reviewed codec (s.setStage t (some (.failing x op none))) := by
    refine h.setStage t _ ?_
    rintro _ ⟨⟩
    exact ⟨hX, hHeld⟩
  rw [World.attachRun]
  split
  · exact hFail
  rename_i row hRow
  split
  · refine h.thread t (some (.working x op runID job)) rfl ?_ ?_ ?_ h.named h.events
    · rintro _ ⟨⟩
      obtain ⟨hFree, hOwned, hGenerated⟩ := h.row row hRow
      exact ⟨fun hNone hReleased => (hFree hNone hReleased).congr rfl rfl rfl,
        fun o hO hReleased => (hOwned o hO hReleased).congr rfl rfl rfl, hGenerated⟩
    · rintro _ ⟨⟩
      exact ⟨hX, hHeld⟩
    · rintro y o ⟨hMem, hContent⟩
      refine ⟨hMem, ?_⟩
      rintro _ ⟨⟩ hOwned
      exact hContent row hRow hOwned
  · exact hFail

theorem fail (hGiven : s.Assigned) {t : Nat} {candidates : Option (List Asset)}
    (hStage : s.stage t = some (.failing x op candidates)) : Reviewed codec (s.fail t x op candidates) := by
  have hLatest : (latestRow s.row x op).1.Reviewed codec ∧
      (latestRow s.row x op).1.operation = some (latestRow s.row x op).2 := by
    unfold latestRow
    split
    · exact ⟨h.stage t _ hStage, hGiven t _ hStage⟩
    rename_i latest hRow
    split
    next hOwner => exact ⟨h.row latest hRow, (requireOperation_ok hOwner).1⟩
    · exact ⟨h.stage t _ hStage, hGiven t _ hStage⟩
  refine h.setStage t _ ?_
  rintro _ ⟨⟩
  refine ⟨⟨hLatest.1, fun hFree => (hLatest.1.failed hLatest.2 (.inl rfl) hFree).congr rfl rfl rfl⟩, ?_⟩
  rintro _ _ ⟨⟩

end Reviewed

end

/-- What is packaged is among the candidates, and an operation that imports still owns the draft. -/
def Job.Fit (s : World μ δ) (x : Row μ δ) (op : Operation) : Job μ δ → Prop
  | .package _ _ => ∀ asset ∈ x.selected, asset ∈ x.candidates
  | .install .. => ∃ row, s.row = some row ∧ row.ownedBy op.id
  | _ => True

/-- The condition: a reservation names no version its caller has not read, and jobs do their work where they fit. -/
def Listed (s : World μ δ) (action : Action μ δ) : Prop :=
  Current s action ∧ ∀ t x op runID job, action = .advance t → s.stage t = some (.working x op runID job) → job.Fit s x op

variable [DecidableEq μ] [DecidableEq δ]

theorem Reviewed.work (h : Reviewed codec s) (hGiven : s.Assigned) (hDigest : Function.Injective codec.digest)
    {t : Nat} {runID : Option String} {job : Job μ δ} (hStage : s.stage t = some (.working x op runID job))
    (hListed : Listed s (.advance t)) : Reviewed codec (s.work codec t x op runID job) := by
  have hX : x.Reviewed codec := h.stage t _ hStage
  have hHeld := h.held t _ x op hStage rfl
  obtain ⟨hOwner, hKind⟩ := hGiven t _ hStage
  have hSound : (job.work codec s.packages x op runID).Sound codec s.packages x op := Job.work_sound hKind
  have hWriting : ∀ {st}, Completes codec x op st →
      ∀ next, some (Stage.writing x st) = some next → Joins codec s next := by
    rintro st hEnds _ ⟨⟩
    refine ⟨⟨hX, hEnds.reviewed hX hOwner fun hPack => ?_⟩, fun _ _ hHolds => ?_⟩
    · cases job with
      | package ready annotations => exact hListed.2 t x op runID _ rfl hStage
      | _ => cases hKind.trans hPack
    · cases hEnds with
      | _ => cases hHolds
  rw [World.work]
  split
  next st hOut =>
    rw [hOut] at hSound
    exact h.setStage t _ (hWriting hSound)
  next package st hOut =>
    rw [hOut] at hSound
    refine h.thread t _ rfl h.row (hWriting hSound) (fun _ _ hHeld => hHeld) ?_ h.events
    intro digest layout hMem
    rw [World.writeLayout] at hMem
    split at hMem
    · exact h.named digest layout hMem
    rcases mem_append.mp hMem with hOld | hNew
    · exact h.named digest layout hOld
    · cases mem_singleton.mp hNew
      rfl
  next package st hOut =>
    rw [hOut] at hSound
    obtain ⟨hInstall, hEnds, hNamed, _, _⟩ := hSound
    obtain ⟨reviewed, hReviewed⟩ := hX.owned op hOwner (.inl hInstall)
    have hSame : reviewed = package := hDigest (Option.some.inj (hReviewed.1.symm.trans hNamed))
    subst hSame
    refine h.thread t _ rfl h.row (hWriting hEnds) ?_ h.named ?_
    · rintro y o ⟨hMem, hContent⟩
      exact ⟨by rw [reservedIDs_append]; exact mem_append_left _ hMem, hContent⟩
    intro e hMem
    rcases mem_append.mp hMem with hOld | hNew
    · exact h.events e hOld
    cases mem_singleton.mp hNew
    have hOwned : ∃ row, s.row = some row ∧ row.ownedBy op.id := by
      cases job with
      | install => exact hListed.2 t x op runID _ rfl hStage
      | _ => cases hKind.trans hInstall
    obtain ⟨row, hRow, hOwned⟩ := hOwned
    obtain ⟨_, hManifest, hPick, hPack⟩ := hHeld.2 row hRow hOwned
    exact ⟨hOwner, hReviewed, row, hRow, hPack.trans hReviewed.1, hReviewed.2.1.trans hManifest.symm,
      hPick ▸ hReviewed.2.2⟩
  · refine h.setStage t _ ?_
    rintro _ ⟨⟩
    refine ⟨hX, ?_⟩
    rintro _ _ ⟨⟩
    exact hHeld

theorem Reviewed.advance (h : Reviewed codec s) (hGiven : s.Assigned) (hSerial : Serial s)
    (hDigest : Function.Injective codec.digest) {t : Nat} (hListed : Listed s (.advance t)) :
    Reviewed codec (s.advance codec t) := by
  rw [World.advance]
  split
  · exact h
  · exact h.write hSerial ‹_›
  · exact h.attachRun ‹_›
  · exact h.work hGiven hDigest ‹_› hListed
  · exact h.fail hGiven ‹_›
  · exact h.thread t none rfl h.row (by simp) (fun _ _ hHeld => hHeld) (by simp) h.events

structure InstalledAsReviewed (codec : Codec μ δ) (s : World μ δ) : Prop where
  packaged : ∀ row, s.row = some row → row.operation = none → row.state = .packaged ∨ row.state = .installed →
    ∃ package, Contains codec row package
  imported : ∀ op x current package, Event.imported op x current package ∈ s.history →
    x.operation = some op ∧ Contains codec x package ∧ ∃ row, current = some row ∧ Contains codec row package

theorem installed_as_reviewed (hDigest : Function.Injective codec.digest)
    (hReach : (builder codec).Reachable Listed s) : InstalledAsReviewed codec s := by
  have hAll : (s.Assigned ∧ Serial s) ∧ Reviewed codec s := by
    refine hReach.invariant (I := fun s => (s.Assigned ∧ Serial s) ∧ Reviewed codec s) ?_ ?_
    · intro s hFresh
      refine ⟨serial_fresh hFresh, ?_⟩
      obtain ⟨⟨row, hRow, _, ⟨clean, hState⟩, hFree, _⟩, hIdle, hPackages, hHist⟩ := hFresh
      refine ⟨?_, ?_, ?_, by simp [hPackages], by simp [hHist]⟩
      · intro current hNow
        cases hRow.symm.trans hNow
        exact ⟨fun _ hReleased => absurd (hState ▸ hReleased) (editableState_not_released clean), by simp [hFree],
          by simp [hFree]⟩
      · intro t stage hStage
        cases (hIdle t).symm.trans hStage
      · intro t stage x op hStage
        cases (hIdle t).symm.trans hStage
    rintro s action ⟨⟨hGiven, hSerial⟩, hReviewed⟩ _ hListed
    refine ⟨serial_next ⟨hGiven, hSerial⟩ hListed.1, ?_⟩
    cases action with
    | call t c => exact hReviewed.call hSerial t c
    | advance t => exact hReviewed.advance hGiven hSerial hDigest hListed
    | restart =>
      refine { hReviewed with stage := ?_, held := ?_ }
      · rintro t stage ⟨⟩
      · rintro t stage x op ⟨⟩
  exact ⟨fun row hRow => (hAll.2.row row hRow).free, fun op x current package hMem => hAll.2.events _ hMem⟩

def packagingSample : List (Action (List String) (Package (List String))) :=
  [.call 0 (.reserveOperation 1 .package), .advance 0, .call 0 (.execute 0 none (.package true [])), .advance 0,
    .advance 0, .advance 0]

def samplePackage : Package (List String) := ⟨["run.sh"], [("run.sh", [1])], []⟩

def installing : Job (List String) (Package (List String)) := .install (some samplePackage) true true false true true

def installedSample : World (List String) (Package (List String)) :=
  (builder sampleCodec).exec sampleStart (packagingSample ++ [.call 0 (.reserveOperation 3 .install), .advance 0,
    .call 0 (.execute 2 none installing), .advance 0, .advance 0, .advance 0])

theorem installed_as_reviewed_packaging : InstalledAsReviewed sampleCodec installedSample ∧
    installedSample.row.map (·.state) = some .installed ∧
    installedSample.history.any (fun e => e matches .imported _ _ (some _) _) = true := by
  refine ⟨installed_as_reviewed Function.injective_id (.of_allowed sampleStart_fresh ?_), rfl, rfl⟩
  exact ⟨⟨rfl, fun _ h => by cases h; decide, by rintro _ _ _ _ _ ⟨⟩⟩,
    ⟨some_ne_none _, trivial, by rintro _ _ _ _ _ ⟨⟩ ⟨⟩⟩, ⟨rfl, trivial, by rintro _ _ _ _ _ ⟨⟩⟩,
    ⟨some_ne_none _, trivial, by rintro _ _ _ _ _ ⟨⟩ ⟨⟩⟩,
    ⟨some_ne_none _, trivial, by rintro _ _ _ _ _ ⟨⟩ ⟨⟩; unfold Job.Fit; decide⟩,
    ⟨some_ne_none _, trivial, by rintro _ _ _ _ _ ⟨⟩ ⟨⟩⟩,
    ⟨rfl, fun _ h => by cases h; decide, by rintro _ _ _ _ _ ⟨⟩⟩,
    ⟨some_ne_none _, trivial, by rintro _ _ _ _ _ ⟨⟩ ⟨⟩⟩, ⟨rfl, trivial, by rintro _ _ _ _ _ ⟨⟩⟩,
    ⟨some_ne_none _, trivial, by rintro _ _ _ _ _ ⟨⟩ ⟨⟩⟩,
    ⟨some_ne_none _, trivial, by rintro _ _ _ _ _ ⟨⟩ ⟨⟩; exact ⟨_, rfl, rfl⟩⟩,
    ⟨some_ne_none _, trivial, by rintro _ _ _ _ _ ⟨⟩ ⟨⟩⟩, trivial⟩

theorem installs_unreviewed_selection :
    ∃ s, (builder sampleCodec).Reachable (fun _ _ => True) s ∧ ¬InstalledAsReviewed sampleCodec s := by
  refine ⟨(builder sampleCodec).exec sampleStart (packagingSample ++
    [.call 0 (.reserveOperation 4 .install), .call 1 (.edit 3 (.update ["run.sh"] [⟨"run.sh", "bb"⟩] true) none),
      .advance 1, .advance 0, .call 0 (.execute 2 none installing),
      .advance 0, .advance 0, .advance 0]), .of_allowed sampleStart_fresh ?_, ?_⟩
  · exact ⟨⟨rfl, trivial⟩, ⟨some_ne_none _, trivial⟩, ⟨rfl, trivial⟩, ⟨some_ne_none _, trivial⟩,
      ⟨some_ne_none _, trivial⟩, ⟨some_ne_none _, trivial⟩, ⟨rfl, trivial⟩, ⟨rfl, trivial⟩,
      ⟨some_ne_none _, trivial⟩, ⟨some_ne_none _, trivial⟩, ⟨rfl, trivial⟩,
      ⟨some_ne_none _, trivial⟩, ⟨some_ne_none _, trivial⟩, ⟨some_ne_none _, trivial⟩, trivial⟩
  intro hReviewed
  obtain ⟨package, hDigest, _, hLayer⟩ := hReviewed.packaged
    { sampleDraft with
      version := 6, state := .installed, selected := [⟨"run.sh", "bb"⟩], packageDigest := some samplePackage }
    rfl rfl (.inr rfl)
  cases hDigest
  exact absurd ((hLayer "run.sh" [1]).mp rfl) (by decide)

end LocalModelWorks.RecipeBuilder
