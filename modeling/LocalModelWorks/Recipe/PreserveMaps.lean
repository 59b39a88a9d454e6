import LocalModelWorks.Recipe.Preserve

/-!
# Saved changes, key by key

The loops over the members of an object, or over the named entries of an array, give at every
key the value that the three sides at that key determine.
-/

namespace LocalModelWorks.Recipe.Preserve

open KeyMap
open Json (Text)

variable {ε : Type} {merge : LineMerge ε}

def MergedAt (value : Json → Json → Json → Except (PreserveError ε) Json) (t : Option Json) :
    Option Json → Option Json → Option Json → Prop
  | none, none, merged => merged = t
  | none, some saved, merged => merged = some saved
  | some _, none, merged => merged = none
  | some base, some saved, merged =>
    if base = saved then merged = t else ∃ v, value base saved (t.getD .null) = .ok v ∧ merged = some v

theorem mergedAt_some {value : Json → Json → Json → Except (PreserveError ε) Json} {t merged : Option Json}
    {base saved : Json} : MergedAt value t (some base) (some saved) merged ↔
      if base = saved then merged = t else ∃ v, value base saved (t.getD .null) = .ok v ∧ merged = some v := Iff.rfl

def mergeAll (value : Json → Json → Json → Except (PreserveError ε) Json) (saved : List (Text × Json)) :
    List (Text × Json) → List (Text × Json) → Except (PreserveError ε) (List (Text × Json))
  | [], target => .ok target
  | (name, base) :: rest, target =>
    match preserveEntry name base saved target (value base) with
    | .error e => .error e
    | .ok target => mergeAll value saved rest target

theorem preserveMembers_eq (base saved target : List (Text × Json)) :
    preserveMembers merge base saved target = mergeAll (preserveSavedValue merge) saved base target := by
  induction base generalizing target with
  | nil => rw [preserveMembers, mergeAll]
  | cons m rest ih =>
    rw [preserveMembers, mergeAll]
    cases preserveEntry m.1 m.2 saved target (preserveSavedValue merge m.2) with
    | error e => rfl
    | ok target => exact ih target

def named (key : Text) (values : List Json) : List (Text × Json) :=
  values.filterMap fun value => (entryName key value).map fun name => (name, value)

theorem preserveEntries_eq (key : Text) (base : List Json) (saved target : List (Text × Json)) :
    preserveEntries merge key base saved target =
      mergeAll (preserveSavedValue merge) saved (named key base) target := by
  induction base generalizing target with
  | nil =>
    rw [preserveEntries]
    rfl
  | cons b rest ih =>
    rw [preserveEntries, named, List.filterMap_cons]
    cases entryName key b with
    | none => exact ih target
    | some name =>
      dsimp only [Option.map_some]
      rw [mergeAll]
      cases preserveEntry name b saved target (preserveSavedValue merge b) with
      | error e => rfl
      | ok target => exact ih target

section Maps

variable {value : Json → Json → Json → Except (PreserveError ε) Json} {entries base saved target out : List (Text × Json)}

theorem preserveEntry_ok {name : Text} {b : Json} (h : preserveEntry name b saved target (value b) = .ok out) :
    MergedAt value (get name target) (some b) (get name saved) (get name out) ∧
      (∀ k, k ≠ name → get k out = get k target) ∧ (Ordered target → Ordered out) := by
  unfold preserveEntry at h
  split at h
  next hSaved =>
    cases h
    rw [hSaved]
    refine ⟨by rw [get_erase, if_pos rfl]; rfl, fun k hk => by rw [get_erase, if_neg hk], ?_⟩
    exact ordered_erase
  next s hSaved =>
    rw [hSaved]
    split at h
    next hSame =>
      cases h
      exact ⟨by rw [mergedAt_some, if_pos hSame], fun k _ => rfl, id⟩
    next hDiffer =>
      split at h
      · cases h
      rename_i v hValue
      cases h
      refine ⟨?_, fun k hk => by rw [get_put, if_neg hk], ordered_put⟩
      rw [mergedAt_some, if_neg hDiffer, get_put, if_pos rfl]
      exact ⟨v, hValue, rfl⟩

theorem MergedAt.unique {t b s o o' : Option Json} (h : MergedAt value t b s o) (h' : MergedAt value t b s o') : o = o' := by
  cases b with
  | none =>
    cases s with
    | none | some => exact h.trans h'.symm
  | some b =>
    cases s with
    | none => exact h.trans h'.symm
    | some s =>
      rw [mergedAt_some] at h h'
      split at h
      next hSame =>
        rw [if_pos hSame] at h'
        exact h.trans h'.symm
      next hDiffer =>
        rw [if_neg hDiffer] at h'
        obtain ⟨v, hv, rfl⟩ := h
        obtain ⟨v', hv', rfl⟩ := h'
        rw [hv] at hv'
        cases hv'
        rfl

theorem preserveEntry_total {name : Text} {b : Json} {o : Option Json}
    (h : MergedAt value (get name target) (some b) (get name saved) o) :
    ∃ out, preserveEntry name b saved target (value b) = .ok out := by
  unfold preserveEntry
  cases hSaved : get name saved with
  | none => exact ⟨_, rfl⟩
  | some s =>
    rw [hSaved] at h
    rw [mergedAt_some] at h
    dsimp only
    split at h
    next hSame =>
      rw [if_pos hSame]
      exact ⟨_, rfl⟩
    next hDiffer =>
      obtain ⟨v, hValue, _⟩ := h
      rw [if_neg hDiffer, hValue]
      exact ⟨_, rfl⟩

theorem mergeAll_get (hNodup : (entries.map Prod.fst).Nodup) (h : mergeAll value saved entries target = .ok out) :
    (∀ k, get k entries = none → get k out = get k target) ∧
      (∀ k b, get k entries = some b → MergedAt value (get k target) (some b) (get k saved) (get k out)) ∧
      (Ordered target → Ordered out) := by
  induction entries generalizing target with
  | nil =>
    cases h
    exact ⟨fun _ _ => rfl, (fun _ _ h => nomatch h), id⟩
  | cons entry rest ih =>
    obtain ⟨name, b⟩ := entry
    obtain ⟨hFresh, hNodup⟩ := List.nodup_cons.mp hNodup
    have hRest : get name rest = none :=
      get_eq_none_iff.mpr fun x hx hSame => hFresh (List.mem_map.mpr ⟨x, hx, hSame.symm⟩)
    rw [mergeAll] at h
    split at h
    · cases h
    rename_i middle hEntry
    obtain ⟨hOwn, hOthers, hOrd⟩ := preserveEntry_ok hEntry
    obtain ⟨hNone, hSome, hOrd'⟩ := ih hNodup h
    refine ⟨fun k hk => ?_, fun k c hk => ?_, hOrd' ∘ hOrd⟩
    · rw [KeyMap.get] at hk
      split at hk
      · cases hk
      next hOther => rw [hNone k hk, hOthers k hOther]
    rw [KeyMap.get] at hk
    split at hk
    next hSame =>
      cases hk
      subst hSame
      rw [hNone k hRest]
      exact hOwn
    next hOther =>
      rw [← hOthers k hOther]
      exact hSome k c hk

theorem mergeAll_total {o : Text → Option Json} (hNodup : (entries.map Prod.fst).Nodup)
    (h : ∀ m ∈ entries, MergedAt value (get m.1 target) (some m.2) (get m.1 saved) (o m.1)) :
    ∃ out, mergeAll value saved entries target = .ok out := by
  induction entries generalizing target with
  | nil => exact ⟨target, rfl⟩
  | cons entry rest ih =>
    obtain ⟨hFresh, hNodup⟩ := List.nodup_cons.mp hNodup
    obtain ⟨hHead, hRest⟩ := List.forall_mem_cons.mp h
    obtain ⟨middle, hMiddle⟩ := preserveEntry_total hHead
    obtain ⟨_, hOthers, _⟩ := preserveEntry_ok hMiddle
    rw [mergeAll, hMiddle]
    refine ih hNodup fun m hm => ?_
    rw [hOthers m.1 fun hSame => hFresh (List.mem_map.mpr ⟨m, hm, hSame⟩)]
    exact hRest m hm

theorem get_addMembers (hSaved : Ordered saved) (k : Text) : get k (addMembers base saved target) =
      if (get k base).isSome then get k target
      else (get k saved).or (get k target) := by
  induction saved generalizing target with
  | nil => simp [addMembers, KeyMap.get]
  | cons m rest ih =>
    obtain ⟨name, v⟩ := m
    have hRest : get name rest = none := get_head_tail hSaved
    rw [addMembers, List.foldl_cons]
    refine (ih (ordered_cons.mp hSaved).2).trans ?_
    by_cases hKey : k = name
    · subst hKey
      cases hBase : get k base with
      | none => simp [KeyMap.get, hRest, get_put]
      | some b => simp
    have hTarget : get k (if (get name base).isSome then target else put name v target) = get k target := by
      split
      · rfl
      · rw [get_put, if_neg hKey]
    rw [hTarget, KeyMap.get, if_neg hKey]

theorem ordered_addMembers (h : Ordered target) : Ordered (addMembers base saved target) := by
  induction saved generalizing target with
  | nil => exact h
  | cons m rest ih =>
    refine ih ?_
    dsimp only
    split
    · exact h
    · exact ordered_put h

section

variable (hNodup : (entries.map Prod.fst).Nodup) (hBase : ∀ k, get k base = get k entries) (hSaved : Ordered saved)
include hNodup hBase hSaved

theorem merged_get (h : mergeAll value saved entries target = .ok out) (k : Text) :
    MergedAt value (get k target) (get k base) (get k saved)
      (get k (addMembers base saved out)) := by
  obtain ⟨hNone, hSome, _⟩ := mergeAll_get hNodup h
  rw [get_addMembers hSaved, hBase k]
  cases hEntry : get k entries with
  | none =>
    rw [hNone k hEntry]
    cases get k saved with
    | none | some => rfl
  | some b => exact hSome k b hEntry

theorem merged_eq (hTarget : Ordered target) (hOut : Ordered out)
    (h : ∀ k, MergedAt value (get k target) (get k base) (get k saved) (get k out)) :
    ∃ middle, mergeAll value saved entries target = .ok middle ∧ addMembers base saved middle = out := by
  have hEach : ∀ m ∈ entries, MergedAt value (get m.1 target) (some m.2) (get m.1 saved)
      (get m.1 out) := by
    intro m hm
    rw [← get_of_nodup hNodup hm, ← hBase m.1]
    exact h m.1
  obtain ⟨middle, hMiddle⟩ := mergeAll_total (o := fun k => get k out) hNodup hEach
  refine ⟨middle, hMiddle, ?_⟩
  refine ext (ordered_addMembers ((mergeAll_get hNodup hMiddle).2.2 hTarget)) hOut fun k => ?_
  exact (merged_get hNodup hBase hSaved hMiddle k).unique (h k)

end

end Maps

theorem preserve_same (j target : Json) : preserveSavedValue merge j j target = .ok target := by
  unfold preserveSavedValue
  cases j with
  | _ => exact if_pos rfl

theorem preserve_scalar {base : Json} (h : base.isScalar = true) (saved target : Json) :
    preserveSavedValue merge base saved target = if base = saved then .ok target else .ok saved := by
  cases base with
  | array | object => cases h
  | _ => simp [preserveSavedValue]

theorem preserve_object {base saved target : List (Text × Json)} (h : base ≠ saved) :
    preserveSavedValue merge (.object base) (.object saved) (.object target) =
      match mergeAll (preserveSavedValue merge) saved base target with
      | .error e => .error e
      | .ok merged => .ok (.object (addMembers base saved merged)) := by
  rw [preserveSavedValue, preserveMembers_eq]
  exact if_neg fun hSame => h (Json.object.inj hSame)

theorem preserve_object_eq {base saved target out : List (Text × Json)} (h : base ≠ saved)
    (hBase : Ordered base) (hSaved : Ordered saved) (hTarget : Ordered target)
    (hOut : Ordered out)
    (hAt : ∀ k, MergedAt (preserveSavedValue merge) (get k target) (get k base) (get k saved) (get k out)) :
    preserveSavedValue merge (.object base) (.object saved) (.object target) = .ok (.object out) := by
  obtain ⟨middle, hMiddle, rfl⟩ := merged_eq (nodup_of_ordered hBase) (fun _ => rfl) hSaved hTarget hOut hAt
  rw [preserve_object h, hMiddle]

end LocalModelWorks.Recipe.Preserve
