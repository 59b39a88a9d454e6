import LocalModelWorks.Recipe.PreserveMaps

/-!
# The laws of the saved-change merge

The laws of a three-way merge, by induction on the base, with one change: an array of named
entries that was saved in another order comes in the order of the target.
-/

namespace LocalModelWorks.Recipe.Preserve

open List Option KeyMap
open Json (Text)

variable {ε : Type} {merge : LineMerge ε}

/-- The line merge returns the other side when one equals the original, and either when both are equal. -/
structure TakesSides (merge : LineMerge ε) : Prop where
  unchanged : ∀ original incoming, merge original original incoming = .ok incoming
  incoming : ∀ original own, merge original own original = .ok own
  agreed : ∀ original both, merge original both both = .ok both

section Named

variable {key : Text} {values : List Json} {found m : List (Text × Json)} {value : Json} {name : Text}

theorem named_cons (h : entryName key value = some name) (rest : List Json) :
    named key (value :: rest) = (name, value) :: named key rest := by
  rw [named, filterMap_cons, h]
  rfl

structure Indexed (key : Text) (values : List Json) (m : List (Text × Json)) : Prop where
  ordered : Ordered m
  get_eq : ∀ name, get name m = get name (named key values)
  nodup : ((named key values).map Prod.fst).Nodup
  all : ∀ value ∈ values, ∃ name, entryName key value = some name

theorem indexFrom_spec (h : indexFrom key found values = some m) (hFound : Ordered found) :
    Ordered m ∧ (∀ name, get name m = (get name (named key values)).or (get name found)) ∧
      ((named key values).map Prod.fst).Nodup ∧ (∀ entry ∈ named key values, get entry.1 found = none) ∧
      ∀ value ∈ values, ∃ name, entryName key value = some name := by
  induction values generalizing found with
  | nil =>
    cases h
    exact ⟨hFound, fun _ => rfl, nodup_nil, forall_mem_nil _, forall_mem_nil _⟩
  | cons value rest ih =>
    rw [indexFrom] at h
    split at h
    · cases h
    rename_i name hName
    split at h
    · cases h
    rename_i hFresh
    rw [not_isSome_iff_eq_none] at hFresh
    obtain ⟨hOrd, hGet, hNodup, hApart, hAll⟩ := ih h (ordered_put hFound)
    have hOthers : ∀ entry ∈ named key rest, entry.1 ≠ name := by
      intro entry hEntry hSame
      have hNone := hApart entry hEntry
      rw [get_put, if_pos hSame] at hNone
      cases hNone
    rw [named_cons hName]
    refine ⟨hOrd, fun k => ?_, ?_, ?_, ?_⟩
    · rw [hGet k, get_put, KeyMap.get]
      by_cases hKey : k = name
      · subst hKey
        have hRest : get k (named key rest) = none := get_eq_none_iff.mpr fun x hx hSame => hOthers x hx hSame.symm
        rw [if_pos rfl, if_pos rfl, hRest]
        rfl
      · rw [if_neg hKey, if_neg hKey]
    · refine nodup_cons.mpr ⟨fun hMem => ?_, hNodup⟩
      obtain ⟨entry, hEntry, hSame⟩ := mem_map.mp hMem
      exact hOthers entry hEntry hSame
    · refine forall_mem_cons.mpr ⟨hFresh, fun entry hEntry => ?_⟩
      have hNone := hApart entry hEntry
      rwa [get_put, if_neg (hOthers entry hEntry)] at hNone
    · exact forall_mem_cons.mpr ⟨⟨name, hName⟩, hAll⟩

theorem indexed (h : index key values = some m) : Indexed key values m := by
  obtain ⟨hOrd, hGet, hNodup, _, hAll⟩ := indexFrom_spec h List.Pairwise.nil
  exact ⟨hOrd, fun name => (hGet name).trans (by simp [KeyMap.get]), hNodup, hAll⟩

theorem mem_named : (name, value) ∈ named key values ↔ value ∈ values ∧ entryName key value = some name := by
  simp [named]

theorem Indexed.mem (h : Indexed key values m) (hGet : get name m = some value) : value ∈ values :=
  (mem_named.mp (mem_of_get ((h.get_eq name).symm.trans hGet))).1

def lookupEntry (key : Text) (m : List (Text × Json)) (value : Json) : Option Json :=
  (entryName key value).bind fun name => get name m

theorem lookupEntry_self (hNodup : ((named key values).map Prod.fst).Nodup) (h : value ∈ values)
    (hName : entryName key value = some name) : lookupEntry key (named key values) value = some value := by
  rw [lookupEntry, hName]
  exact get_of_nodup hNodup (mem_named.mpr ⟨h, hName⟩)

theorem lookupEntry_congr {n : List (Text × Json)} (h : ∀ k, get k m = get k n) :
    lookupEntry key m = lookupEntry key n := by
  funext value
  rw [lookupEntry, lookupEntry]
  simp only [h]

theorem collect_eq (hNodup : ((named key values).map Prod.fst).Nodup) :
    (collect key values m).1 = values.filterMap (lookupEntry key m) ∧
      ∀ k, get k (collect key values m).2 = if get k (named key values) = none then get k m else none := by
  induction values generalizing m with
  | nil => exact ⟨rfl, fun k => by simp [collect, named, KeyMap.get]⟩
  | cons value rest ih =>
    rw [collect, filterMap_cons]
    cases hName : entryName key value with
    | none =>
      have hNamed : named key (value :: rest) = named key rest := by rw [named, filterMap_cons, hName]; rfl
      rw [hNamed] at hNodup ⊢
      have hLookup : lookupEntry key m value = none := by rw [lookupEntry, hName]; rfl
      rw [hLookup]
      exact ih hNodup
    | some name =>
      rw [named_cons hName] at hNodup ⊢
      obtain ⟨hFresh, hNodup⟩ := nodup_cons.mp hNodup
      have hRest : get name (named key rest) = none :=
        get_eq_none_iff.mpr fun x hx hSame => hFresh (mem_map.mpr ⟨x, hx, hSame.symm⟩)
      have hLookup : lookupEntry key m value = get name m := by rw [lookupEntry, hName]; rfl
      rw [hLookup, bind_some]
      cases hGet : get name m with
      | none =>
        refine ⟨(ih hNodup).1, fun k => ((ih hNodup).2 k).trans ?_⟩
        rw [KeyMap.get]
        by_cases hKey : k = name
        · subst hKey
          rw [if_pos hRest, if_neg (by simp), hGet]
        · rw [if_neg hKey]
      | some entry =>
        dsimp only [map_some]
        refine ⟨?_, fun k => ((ih hNodup).2 k).trans ?_⟩
        · rw [(ih hNodup).1]
          congr 1
          refine filterMap_congr fun v hv => ?_
          rw [lookupEntry, lookupEntry]
          cases hv' : entryName key v with
          | none => rfl
          | some name' =>
            have hOther : name' ≠ name := by
              rintro rfl
              exact hFresh (mem_map.mpr ⟨(name', v), mem_named.mpr ⟨hv, hv'⟩, rfl⟩)
            rw [bind_some, bind_some, get_erase, if_neg hOther]
        rw [KeyMap.get, get_erase]
        by_cases hKey : k = name
        · subst hKey
          rw [if_pos hRest, if_pos rfl, if_neg (by simp)]
        · rw [if_neg hKey, if_neg hKey]

theorem arrange_eq {target saved : List Json} (hTarget : ((named key target).map Prod.fst).Nodup)
    (hSaved : ((named key saved).map Prod.fst).Nodup) :
    arrange key target saved m = target.filterMap (lookupEntry key m) ++
      saved.filterMap fun value =>
        if lookupEntry key (named key target) value = none then lookupEntry key m value else none := by
  obtain ⟨hFirst, hLeft⟩ := @collect_eq key target m hTarget
  rw [arrange, (collect_eq hSaved).1]
  congr 1
  refine filterMap_congr fun value _ => ?_
  rw [lookupEntry, lookupEntry, lookupEntry]
  cases entryName key value with
  | none => rfl
  | some name => exact hLeft name

theorem filterMap_lookupEntry_self (hNodup : ((named key values).map Prod.fst).Nodup)
    (hAll : ∀ value ∈ values, ∃ name, entryName key value = some name) :
    values.filterMap (lookupEntry key (named key values)) = values := by
  have hSelf : ∀ value ∈ values, lookupEntry key (named key values) value = some value := by
    intro value hValue
    obtain ⟨name, hName⟩ := hAll value hValue
    exact lookupEntry_self hNodup hValue hName
  rw [filterMap_congr hSelf, filterMap_some]

theorem arrange_self (h : Indexed key values m) : arrange key values values m = values := by
  rw [arrange_eq h.nodup h.nodup, lookupEntry_congr h.get_eq, filterMap_lookupEntry_self h.nodup h.all]
  have hNone : (values.filterMap fun value => if lookupEntry key (named key values) value = none
      then lookupEntry key (named key values) value else none) = [] := by
    rw [filterMap_eq_nil_iff]
    intro value _
    split
    · assumption
    · rfl
  rw [hNone, append_nil]

end Named

variable {saved base target : List Json}

theorem indexes_eq_some {key : Text} {found : Indexes} (h : indexes key base saved target = some found) :
    index key base = some found.base ∧ index key saved = some found.saved ∧ index key target = some found.target := by
  simp only [indexes, bind_eq_bind, bind_eq_some_iff] at h
  obtain ⟨b, hb, s, hs, t, ht, hFound⟩ := h
  cases hFound
  exact ⟨hb, hs, ht⟩

theorem preserveNamed_eq {key : Text} {found : Indexes} {out : List (Text × Json)}
    (h : indexes key base saved target = some found) (hOut : Ordered out)
    (hAt : ∀ k, MergedAt (preserveSavedValue merge) (get k found.target) (get k found.base)
      (get k found.saved) (get k out)) :
    preserveNamed key saved target found (preserveEntries merge key base found.saved found.target) =
      .ok (.array (arrange key target saved out)) := by
  obtain ⟨hBase, hSaved, hTarget⟩ := indexes_eq_some h
  have hb := indexed hBase
  have hs := indexed hSaved
  have ht := indexed hTarget
  unfold preserveNamed
  split
  next hSame =>
    have hMap : found.target = out := by
      refine ext ht.ordered hOut fun k => ?_
      have hk := hAt k
      rw [hSame] at hk
      cases hEntry : get k found.saved with
      | none =>
        rw [hEntry] at hk
        exact hk.symm
      | some s =>
        rw [hEntry, mergedAt_some, if_pos rfl] at hk
        exact hk.symm
    rw [hMap]
  · obtain ⟨middle, hMiddle, hAll⟩ := merged_eq hb.nodup hb.get_eq hs.ordered ht.ordered hOut hAt
    rw [preserveEntries_eq, hMiddle]
    dsimp only
    rw [hAll]

theorem preserve_object_other {base : List (Text × Json)} {saved target : Json} (h : .object base ≠ saved)
    (hShape : (∀ members, saved ≠ .object members) ∨ ∀ members, target ≠ .object members) :
    preserveSavedValue merge (.object base) saved target = .ok saved := by
  unfold preserveSavedValue
  rw [if_neg h]
  split
  · rcases hShape with hSaved | hTarget
    · exact absurd rfl (hSaved _)
    · exact absurd rfl (hTarget _)
  · rfl

theorem preserve_array_other {saved target : Json} (h : .array base ≠ saved) (hShape : ∀ items, saved ≠ .array items) :
    preserveSavedValue merge (.array base) saved target = .ok saved := by
  unfold preserveSavedValue
  rw [if_neg h]
  split
  · exact absurd rfl (hShape _)
  · rfl

theorem preserveItems_agreed (hLen : base.length = saved.length)
    (h : ∀ b ∈ base, ∀ s ∈ saved, preserveSavedValue merge b s s = .ok s) :
    preserveItems merge base saved saved = .ok saved := by
  induction base generalizing saved with
  | nil =>
    cases saved with
    | nil => rw [preserveItems]; simp
    | cons s rest => cases hLen
  | cons b bases ih =>
    cases saved with
    | nil => cases hLen
    | cons s saveds =>
      have hRest := ih (Nat.succ.inj hLen) fun b hb s hs => h b (mem_cons_of_mem _ hb) s (mem_cons_of_mem _ hs)
      rw [preserveItems, h b mem_cons_self s mem_cons_self, hRest]

theorem mergedAt_agreed {base saved : Option Json}
    (h : ∀ b s, base = some b → saved = some s → preserveSavedValue merge b s s = .ok s) :
    MergedAt (preserveSavedValue merge) saved base saved saved := by
  cases base with
  | none =>
    cases saved with
    | none | some => rfl
  | some b =>
    cases saved with
    | none => rfl
    | some s =>
      rw [mergedAt_some]
      split
      · rfl
      · exact ⟨s, h b s rfl rfl, rfl⟩

theorem preserve_agreed (hMerge : TakesSides merge) {base : Json} :
    base.isCanonical = true → ∀ {saved : Json}, saved.isCanonical = true →
      preserveSavedValue merge base saved saved = .ok saved := by
  induction base using Json.induct with
  | scalar b hScalar =>
    intro _ saved _
    rw [preserve_scalar hScalar]
    split <;> rfl
  | object base ih =>
    intro hBase saved hSaved
    by_cases hSame : .object base = saved
    · rw [← hSame, preserve_same]
    cases saved with
    | object saved =>
      obtain ⟨hBase, hBases⟩ := Json.object_canonical.mp hBase
      obtain ⟨hSaved, hSaveds⟩ := Json.object_canonical.mp hSaved
      refine preserve_object_eq (fun h => hSame (congrArg Json.object h)) hBase hSaved hSaved hSaved fun k => ?_
      refine mergedAt_agreed fun b s hb hs => ?_
      have hMem := mem_of_get hb
      exact ih _ hMem (hBases _ hMem) (hSaveds _ (mem_of_get hs))
    | _ => exact preserve_object_other hSame (.inl (by simp))
  | array base ih =>
    intro hBase saved hSaved
    by_cases hSame : .array base = saved
    · rw [← hSame, preserve_same]
    cases saved with
    | array saved =>
      rw [Json.array_canonical] at hBase hSaved
      have hItem : ∀ b ∈ base, ∀ s ∈ saved, preserveSavedValue merge b s s = .ok s := fun b hb s hs =>
        ih b hb (hBase b hb) (hSaved s hs)
      have hNamed : ∀ {key found}, indexes key base saved saved = some found →
          preserveNamed key saved saved found (preserveEntries merge key base found.saved found.target) =
            .ok (.array saved) := by
        intro key found hFound
        obtain ⟨hb, hs, ht⟩ := indexes_eq_some hFound
        rw [hs] at ht
        have hTarget := Option.some.inj ht
        rw [preserveNamed_eq hFound (indexed hs).ordered, arrange_self (indexed hs)]
        intro k
        rw [← hTarget]
        exact mergedAt_agreed fun b s hb' hs' => hItem b ((indexed hb).mem hb') s ((indexed hs).mem hs')
      rw [preserveSavedValue, if_neg hSame]
      split
      · exact hNamed ‹_›
      split
      · exact hNamed ‹_›
      split
      next hLen => rw [preserveItems_agreed hLen.1 hItem]
      rw [preserveLines, hMerge.agreed]
      dsimp only
      rw [Json.decodeAll_encodeLines hSaved]
    | _ => exact preserve_array_other hSame (by simp)

end LocalModelWorks.Recipe.Preserve
