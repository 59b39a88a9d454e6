import LocalModelWorks.Upstream.Owner

/-!
# What `Remove` and `Stop` act on

Both calls ask the engine for the containers of a record and act on the answers. Each is
cut here at its act: the checks before it, and what they established when they return.
-/

namespace LocalModelWorks.Upstream

open Program

/-- The record holds the engine id under the name, and no other record that is not superseded does. -/
structure Owned (s : State) (id : RecordID) (name : ContainerName) (engine : ContainerID) : Prop where
  held : ∃ record ∈ s.memory, record.id = id ∧ record.superseded = false ∧ record.observed.get name = engine
  alone : ∀ other ∈ s.memory, other.superseded = false → other.observed.get name = engine → other.id = id

variable {env : Env} {n m : Nat} {s t : State} {id : RecordID} {name : ContainerName} {engine : ContainerID}
  {record : Record}

theorem owned_of_currentOwner (h : currentOwner s.memory name engine = some id) : Owned s id name engine := by
  unfold currentOwner at h
  split at h
  · cases h
  split at h
  next owner hOwner =>
    cases h
    have hMem record : record ∈ s.memory ∧ record.superseded = false ∧ record.observed.get name = engine ↔
        record = owner := by
      have hFilter := @List.mem_filter _ (fun record => !record.superseded && record.observed.get name == engine)
        s.memory record
      rw [hOwner, List.mem_singleton, Bool.and_eq_true, Bool.not_eq_true', beq_iff_eq] at hFilter
      exact hFilter.symm
    obtain ⟨hIn, hActive, hHeld⟩ := (hMem owner).mpr rfl
    refine ⟨⟨owner, hIn, rfl, hActive, hHeld⟩, fun other hOther hNow hSame => ?_⟩
    rw [(hMem other).mp ⟨hOther, hNow, hSame⟩]
  · cases h

theorem inspectContainer_bind {α : Type} (f : Reply → Action α) :
    (inspectContainer name >>= f) env n s = f (env.engine n name) env (n + 1) s := rfl

theorem ownerOf_bind {α : Type} (f : Option RecordID → Action α) :
    (ownerOf name engine >>= f) env n s = f (currentOwner s.memory name engine) env n s := rfl

theorem attempt_eq_value (h : Upstream.attempt env n s = ⟨.value (), m, t⟩) : m = n + 1 ∧ t = s := by
  obtain ⟨fault, k, r, hAsk, h⟩ := bind_eq_value h
  cases hAsk
  dsimp only at h
  cases hFault : env.fault n with
  | none => rw [hFault] at h; cases h; exact ⟨rfl, rfl⟩
  | some message => rw [hFault] at h; cases h

/-- The engine id that `Remove` goes on to remove, if any. -/
def removal (record : Record) (name : ContainerName) : Action (Option ContainerID) := do
  match ← inspectContainer name with
  | .missing => pure none
  | .failed message => fail message
  | .found ci =>
    match ← ownerOf name ci.id with
    | none => fail ("upstream.remove_ownership_changed: " ++ name)
    | some owner =>
      if owner ≠ record.id then pure none
      else if !stoppedUpstreamContainer ci.state then fail ("upstream.remove_container_active: " ++ name)
      else if record.spec.observeOnly then pure none
      else pure (some ci.id)

/-- The engine's own `Remove`, which may fail. -/
def engineRemove : Option ContainerID → Action Unit
  | none => pure ()
  | some _ => attempt

theorem removeName_eq (record : Record) (name : ContainerName) :
    removeName record name = removal record name >>= engineRemove := by
  unfold removal removeName
  rw [Program.bind_assoc]
  congr 1
  funext reply
  cases reply with
  | missing | failed => rfl
  | found ci =>
    dsimp only
    rw [Program.bind_assoc]
    congr 1
    funext owner
    cases owner with
    | none => rfl
    | some owner =>
      dsimp only
      split_ifs <;> rfl

theorem removal_owned (h : removal record name env n s = ⟨.value (some engine), m, t⟩) :
    t = s ∧ Owned s record.id name engine ∧
      ∃ ci, env.engine n name = .found ci ∧ ci.id = engine ∧ stoppedUpstreamContainer ci.state = true := by
  unfold removal at h
  rw [inspectContainer_bind] at h
  cases hEngine : env.engine n name with
  | missing | failed => rw [hEngine] at h; cases h
  | found ci =>
    rw [hEngine] at h
    dsimp only at h
    rw [ownerOf_bind] at h
    cases hNow : currentOwner s.memory name ci.id with
    | none => rw [hNow] at h; cases h
    | some owner =>
      rw [hNow] at h
      dsimp only at h
      split_ifs at h with hMine hStop hObserve
      · cases h
      · cases h
      · cases h
      cases h
      rw [not_not.mp hMine] at hNow
      exact ⟨rfl, owned_of_currentOwner hNow, ci, rfl, rfl, by simpa using hStop⟩

/-- What `Stop` finds before it launches the authored command: the containers there, and whether the source is. -/
def stopChecks (record : Record) : Action (Evidence × Bool) := do
  let before ← preflight record false
  attempt
  let present ← ask fun env n => env.exists? n
  pure (before, present)

def stopLaunch (record : Record) : Evidence × Bool → Action Unit
  | (before, present) =>
    if present then do
      match ← launch record .stop with
      | .error message => fail message
      | .ok record => do
        let patience ← ask fun env n => env.ticks n
        waitFor stopRound "upstream.stop_timeout" patience record
    else if before.isEmpty then do
      let _ ← update { record with stopped := true }
      pure ()
    else fail "upstream.source_missing"

theorem stopManaged_eq (record : Record) : stopManaged record =
    cancel record >>= fun _ => inspect record >>= fun seen => stopChecks seen.2 >>= stopLaunch seen.2 := by
  unfold stopChecks
  simp only [Program.bind_assoc]
  rfl

/-- The engine's answer at one of the questions: there is no such container, or it is the record's own. -/
def Seen (env : Env) (n m : Nat) (s : State) (id : RecordID) (name : ContainerName) : Prop :=
  ∃ k, n ≤ k ∧ k < m ∧ (env.engine k name = .missing ∨ ∃ ci, env.engine k name = .found ci ∧ Owned s id name ci.id)

theorem preflightName_seen {before after : Evidence}
    (h : preflightName record false before name env n s = ⟨.value after, m, t⟩) :
    t = s ∧ m = n + 1 ∧ Seen env n m s record.id name := by
  unfold preflightName at h
  rw [inspectContainer_bind] at h
  cases hEngine : env.engine n name with
  | missing =>
    rw [hEngine] at h
    cases h
    exact ⟨rfl, rfl, n, Nat.le_refl n, Nat.lt_succ_self n, .inl hEngine⟩
  | failed message => rw [hEngine] at h; cases h
  | found ci =>
    rw [hEngine] at h
    dsimp only at h
    rw [ownerOf_bind] at h
    split at h
    next hMine =>
      cases h
      exact ⟨rfl, rfl, n, Nat.le_refl n, Nat.lt_succ_self n, .inr ⟨ci, hEngine, owned_of_currentOwner hMine⟩⟩
    · cases h

theorem preflight_seen {names : List ContainerName} {before after : Evidence}
    (h : fold (preflightName record false) names before env n s = ⟨.value after, m, t⟩) :
    t = s ∧ n ≤ m ∧ ∀ name ∈ names, Seen env n m s record.id name := by
  induction names generalizing before n with
  | nil =>
    cases h
    exact ⟨rfl, Nat.le_refl _, fun _ hName => (by cases hName)⟩
  | cons name names ih =>
    obtain ⟨between, k, r, hFirst, hRest⟩ := bind_eq_value h
    obtain ⟨rfl, rfl, j, hFrom, hTo, hSeen⟩ := preflightName_seen hFirst
    obtain ⟨hSame, hLe, hAll⟩ := ih hRest
    refine ⟨hSame, by omega, List.forall_mem_cons.mpr ⟨⟨j, hFrom, by omega, hSeen⟩, fun other hOther => ?_⟩⟩
    obtain ⟨i, hi, hRange⟩ := hAll other hOther
    exact ⟨i, by omega, hRange⟩

theorem stopChecks_seen {before : Evidence} {present : Bool}
    (h : stopChecks record env n s = ⟨.value (before, present), m, t⟩) :
    t = s ∧ ∀ name ∈ upstreamContainerNames record.spec, Seen env n m s record.id name := by
  obtain ⟨found, k, r, hPreflight, h⟩ := bind_eq_value h
  obtain ⟨_, j, r', hTry, h⟩ := bind_eq_value h
  cases h
  obtain ⟨_, i, r'', hFold, hPure⟩ := bind_eq_value hPreflight
  cases hPure
  obtain ⟨rfl, -, hSeen⟩ := preflight_seen hFold
  obtain ⟨rfl, rfl⟩ := attempt_eq_value hTry
  refine ⟨rfl, fun name hName => ?_⟩
  obtain ⟨l, hFrom, hTo, hAns⟩ := hSeen name hName
  exact ⟨l, hFrom, by omega, hAns⟩

theorem acts_on_owned (record : Record) (name : ContainerName) (env : Env) (n : Nat) (s : State) :
    (removeName record name = removal record name >>= engineRemove ∧
      ∀ engine m t, removal record name env n s = ⟨.value (some engine), m, t⟩ →
        t = s ∧ Owned s record.id name engine ∧
          ∃ ci, env.engine n name = .found ci ∧ ci.id = engine ∧ stoppedUpstreamContainer ci.state = true) ∧
    ((stopManaged record =
        cancel record >>= fun _ => inspect record >>= fun seen => stopChecks seen.2 >>= stopLaunch seen.2) ∧
      ∀ before present m t, stopChecks record env n s = ⟨.value (before, present), m, t⟩ →
        t = s ∧ ∀ name ∈ upstreamContainerNames record.spec, Seen env n m s record.id name) :=
  ⟨⟨removeName_eq record name, fun _ _ _ => removal_owned⟩, stopManaged_eq record, fun _ _ _ _ => stopChecks_seen⟩

def occupied : Env := { calm with engine := fun _ _ => .found { id := "c1", state := .exited }, exists? := fun _ => true }

def holder : Record := { id := "~lmw-upstream-1", spec := modelSpec "first", observed := [("model", "c1")] }

theorem acts_on_owned_holder : removal holder "model" occupied 0 ⟨true, true, [holder], [holder]⟩ =
      ⟨.value (some "c1"), 1, ⟨true, true, [holder], [holder]⟩⟩ ∧
    Owned ⟨true, true, [holder], [holder]⟩ holder.id "model" "c1" ∧
    stopChecks holder occupied 0 ⟨true, true, [holder], [holder]⟩ =
      ⟨.value ([("model", "c1")], true), 3, ⟨true, true, [holder], [holder]⟩⟩ ∧
    Seen occupied 0 3 ⟨true, true, [holder], [holder]⟩ holder.id "model" := by
  obtain ⟨⟨_, hRemove⟩, _, hStop⟩ := acts_on_owned holder "model" occupied 0 ⟨true, true, [holder], [holder]⟩
  exact ⟨rfl, (hRemove "c1" 1 _ rfl).2.1, rfl, (hStop _ true 3 _ rfl).2 "model" (by decide)⟩

/-- The one container there is has this name, is stopped, and is what the workers report. -/
def named (name : ContainerName) : Env :=
  { calm with
    engine := fun _ asked => if asked = name then .found { id := "c1", state := .exited } else .missing
    status := fun _ _ => .read { phase := some .started, done := true, observed := [(name, "c1")] } }

/-- Two installations with a container name each, and a container that is renamed from one name to the other. -/
def afterRename : State :=
  system.exec ⟨false, false, [], []⟩
    [.restart calm true, .call calm (.create "~lmw-upstream-1" (modelSpec "first")),
      .call calm (.create "~lmw-upstream-2" { modelSpec "second" with containers := ["other"] }),
      .call calm (.start "first"), .call calm (.start "second"), .call (named "model") (.inspect "first"),
      .call (named "other") (.inspect "second")]

/-- The second installation removes the container, which the first one still holds under its old name. -/
theorem removes_renamed : system.Reachable (fun _ _ => True) afterRename ∧
    ∃ first ∈ afterRename.memory, ∃ second ∈ afterRename.memory, first.id ≠ second.id ∧
      first.superseded = false ∧ first.observed.get "model" = "c1" ∧
      (removal second "other" (named "other") 0 afterRename).1 = .value (some "c1") :=
  ⟨.of_allowed rfl (by decide +kernel), by decide +kernel⟩

end LocalModelWorks.Upstream
