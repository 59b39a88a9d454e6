import LocalModelWorks.Recipe.PreserveLaws

/-!
# Saved changes survive an update

What the merge gives when only one side changed, when both made the same change, and at the
paths where scalars differ.
-/

namespace LocalModelWorks.Recipe.Preserve

open List Option KeyMap Json

variable {ε : Type} {merge : LineMerge ε}

def namingKey (base saved : List Json) : Option Text :=
  if (index nameKey base).isSome ∧ (index nameKey saved).isSome then some nameKey
  else if (index pathKey base).isSome ∧ (index pathKey saved).isSome then some pathKey
  else none

def inBaseOrder (key : Text) (base items : List Json) : List Json :=
  base.filterMap (lookupEntry key (named key items)) ++
    items.filter fun item => (lookupEntry key (named key base) item).isNone

mutual

def arranged : Json → Json → Json
  | base, .object saved =>
    match base with
    | .object base => .object (arrangedMembers base saved)
    | _ => .object saved
  | base, .array saved =>
    match base with
    | .array base =>
      match namingKey base saved with
      | some key => .array (inBaseOrder key base (arrangedNamed key base saved))
      | none => if base.length = saved.length then .array (arrangedItems base saved) else .array saved
    | _ => .array saved
  | _, saved => saved

def arrangedMembers (base : List (Text × Json)) : List (Text × Json) → List (Text × Json)
  | [] => []
  | (name, saved) :: rest =>
    (name, match get name base with
      | some b => arranged b saved
      | none => saved) :: arrangedMembers base rest

def arrangedNamed (key : Text) (base : List Json) : List Json → List Json
  | [] => []
  | saved :: rest =>
    (match lookupEntry key (named key base) saved with
      | some b => arranged b saved
      | none => saved) :: arrangedNamed key base rest

def arrangedItems : List Json → List Json → List Json
  | b :: base, saved :: rest => arranged b saved :: arrangedItems base rest
  | _, _ => []

end

def follow (base : Option Json) (saved : Json) : Json :=
  match base with
  | some b => arranged b saved
  | none => saved

variable (base saved : List (Text × Json))

theorem arrangedMembers_eq : arrangedMembers base saved = saved.map fun m => (m.1, follow (get m.1 base) m.2) := by
  induction saved with
  | nil => rw [arrangedMembers]; rfl
  | cons m rest ih =>
    rw [arrangedMembers, ih]
    rfl

variable (key : Text)

theorem arrangedNamed_eq (base saved : List Json) :
    arrangedNamed key base saved = saved.map fun s => follow (lookupEntry key (named key base) s) s := by
  induction saved with
  | nil => rw [arrangedNamed]; rfl
  | cons s rest ih =>
    rw [arrangedNamed, ih]
    rfl

theorem get_arrangedMembers (k : Text) :
    get k (arrangedMembers base saved) = (get k saved).map (follow (get k base)) := by
  rw [arrangedMembers_eq]
  exact get_map (fun k => follow (get k base)) saved

theorem ordered_arrangedMembers {base saved : List (Text × Json)} (h : Ordered saved) :
    Ordered (arrangedMembers base saved) := by
  rw [arrangedMembers_eq]
  exact pairwise_map.mpr h

theorem arranged_scalar {saved : Json} (h : saved.isScalar = true) (base : Json) : arranged base saved = saved := by
  cases saved with
  | array | object => cases h
  | _ => simp [arranged]

theorem arranged_of_scalar {base : Json} (h : base.isScalar = true) (saved : Json) : arranged base saved = saved := by
  cases saved with
  | array items =>
    cases base with
    | array items => cases h
    | _ => simp [arranged]
  | object members =>
    cases base with
    | object members => cases h
    | _ => simp [arranged]
  | _ => simp [arranged]

theorem arranged_shape (base saved : Json) : arranged base saved = saved ∨
    (∃ items items', saved = .array items ∧ arranged base saved = .array items') ∨
      ∃ b s, saved = .object s ∧ arranged base saved = .object (arrangedMembers b s) := by
  cases saved with
  | object saved =>
    cases base with
    | object base => exact .inr (.inr ⟨base, saved, rfl, by rw [arranged]⟩)
    | _ => exact .inl (by simp [arranged])
  | array saved =>
    cases base with
    | array base =>
      rw [arranged]
      split
      · exact .inr (.inl ⟨_, _, rfl, rfl⟩)
      split <;> exact .inr (.inl ⟨_, _, rfl, rfl⟩)
    | _ => exact .inl (by simp [arranged])
  | _ => exact .inl (by simp [arranged])

theorem entryName_arranged (base saved : Json) : entryName key (arranged base saved) = entryName key saved := by
  rcases arranged_shape base saved with hSame | ⟨_, _, rfl, hArray⟩ | ⟨b, s, rfl, hObject⟩
  · rw [hSame]
  · rw [hArray]
    rfl
  rw [hObject, entryName, entryName, get_arrangedMembers]
  cases get key s with
  | none => rfl
  | some value =>
    cases get key b with
    | none => rfl
    | some b =>
      rw [map_some, follow]
      rcases arranged_shape b value with hSame | ⟨_, _, rfl, hArray⟩ | ⟨_, _, rfl, hObject⟩
      · rw [hSame]
      · rw [hArray]
      · rw [hObject]

theorem entryName_follow (base : Option Json) (saved : Json) :
    entryName key (follow base saved) = entryName key saved := by
  cases base with
  | none => rfl
  | some b => exact entryName_arranged key b saved

section Entries

variable {key : Text} {values : List Json} {g : Json → Json}

theorem get_named_map (hName : ∀ v, entryName key (g v) = entryName key v) (k : Text) :
    get k (named key (values.map g)) = (get k (named key values)).map g := by
  induction values with
  | nil => rfl
  | cons v rest ih =>
    rw [map_cons]
    cases hEntry : entryName key v with
    | none =>
      have hLeft : named key (g v :: rest.map g) = named key (rest.map g) := by
        rw [named, filterMap_cons, hName, hEntry]
        rfl
      have hRight : named key (v :: rest) = named key rest := by
        rw [named, filterMap_cons, hEntry]
        rfl
      rw [hLeft, hRight, ih]
    | some name =>
      rw [named_cons hEntry, named_cons ((hName v).trans hEntry), KeyMap.get, KeyMap.get, ih]
      split <;> rfl

theorem lookupEntry_of_name {m : List (Text × Json)} (hName : ∀ v, entryName key (g v) = entryName key v) (v : Json) :
    lookupEntry key m (g v) = lookupEntry key m v := by
  rw [lookupEntry, lookupEntry, hName]

theorem filterMap_some_filter (p : Json → Bool) :
    (values.filterMap fun v => if p v then some (g v) else none) = (values.filter p).map g := by
  induction values with
  | nil => rfl
  | cons v rest ih =>
    rw [filterMap_cons, filter_cons]
    cases p v with
    | true | false => simpa using ih

end Entries

variable {base saved : List Json} {key : Text} {b s : List (Text × Json)}

theorem arrange_arranged (hb : Indexed key base b) (hs : Indexed key saved s) :
    arrange key base saved (arrangedMembers b s) = inBaseOrder key base (arrangedNamed key base saved) := by
  have hName : ∀ v, entryName key (follow (lookupEntry key (named key base) v) v) = entryName key v := fun v =>
    entryName_follow key _ v
  have hGet : ∀ k, get k (arrangedMembers b s) =
      get k (named key (saved.map fun v => follow (lookupEntry key (named key base) v) v)) := by
    intro k
    rw [get_arrangedMembers, get_named_map hName, hs.get_eq, hb.get_eq]
    cases hEntry : get k (named key saved) with
    | none => rfl
    | some v =>
      rw [map_some, map_some, lookupEntry, (mem_named.mp (mem_of_get hEntry)).2, bind_some]
  rw [arrange_eq hb.nodup hs.nodup, arrangedNamed_eq, lookupEntry_congr hGet]
  congr 1
  rw [List.filter_map]
  refine Eq.trans (filterMap_congr fun v hv => ?_) (filterMap_some_filter _)
  obtain ⟨name, hEntry⟩ := hs.all v hv
  have hSelf : get name (named key saved) = some v := get_of_nodup hs.nodup (mem_named.mpr ⟨hv, hEntry⟩)
  have hItem : lookupEntry key (named key (saved.map fun v => follow (lookupEntry key (named key base) v) v)) v =
      some (follow (lookupEntry key (named key base) v) v) := by
    rw [lookupEntry, hEntry, bind_some, get_named_map hName, hSelf]
    rfl
  rw [hItem, Function.comp_apply, lookupEntry_of_name hName]
  simp only [isNone_iff_eq_none]

variable {items : List Json}

theorem arrangedItems_self (h : ∀ j ∈ items, arranged j j = j) : arrangedItems items items = items := by
  induction items with
  | nil => rw [arrangedItems]; simp
  | cons j rest ih =>
    obtain ⟨hHead, hRest⟩ := forall_mem_cons.mp h
    rw [arrangedItems, hHead, ih hRest]

theorem inBaseOrder_self {m : List (Text × Json)} (h : Indexed key items m) : inBaseOrder key items items = items := by
  have hNone : (items.filter fun item => (lookupEntry key (named key items) item).isNone) = [] := by
    rw [filter_eq_nil_iff]
    intro item hItem
    obtain ⟨name, hName⟩ := h.all item hItem
    rw [lookupEntry_self h.nodup hItem hName]
    simp
  rw [inBaseOrder, filterMap_lookupEntry_self h.nodup h.all, hNone, append_nil]

theorem namingKey_eq_some (h : namingKey base saved = some key) :
    ∃ b s, index key base = some b ∧ index key saved = some s := by
  have hBoth : (index key base).isSome ∧ (index key saved).isSome := by
    unfold namingKey at h
    split at h
    next hName => cases h; exact hName
    split at h
    next hPath => cases h; exact hPath
    · cases h
  obtain ⟨b, hb⟩ := isSome_iff_exists.mp hBoth.1
  obtain ⟨s, hs⟩ := isSome_iff_exists.mp hBoth.2
  exact ⟨b, s, hb, hs⟩

theorem arranged_self {j : Json} : j.isCanonical = true → arranged j j = j := by
  induction j using induct with
  | scalar j hScalar => exact fun _ => arranged_scalar hScalar j
  | object members ih =>
    intro hCanon
    obtain ⟨hOrd, hMembers⟩ := object_canonical.mp hCanon
    rw [arranged, arrangedMembers_eq]
    congr 1
    refine Eq.trans (map_congr_left fun m hm => ?_) (map_id members)
    rw [(get_of_nodup (nodup_of_ordered hOrd) hm), follow, ih m hm (hMembers m hm)]
    rfl
  | array items ih =>
    intro hCanon
    rw [array_canonical] at hCanon
    have hItems : ∀ j ∈ items, arranged j j = j := fun j hj => ih j hj (hCanon j hj)
    rw [arranged]
    split
    next key hKey =>
      obtain ⟨b, _, hb, _⟩ := namingKey_eq_some hKey
      have hIndexed := indexed hb
      have hNamed : arrangedNamed key items items = items := by
        rw [arrangedNamed_eq]
        refine Eq.trans (map_congr_left fun j hj => ?_) (map_id items)
        obtain ⟨name, hName⟩ := hIndexed.all j hj
        rw [lookupEntry_self hIndexed.nodup hj hName, follow, hItems j hj]
        rfl
      rw [hNamed, inBaseOrder_self hIndexed]
    · rw [if_pos rfl, arrangedItems_self hItems]

theorem mergedAt_follow {base saved : Option Json}
    (h : ∀ b s, base = some b → saved = some s → preserveSavedValue merge b s b = .ok (arranged b s))
    (hSelf : ∀ b, base = some b → arranged b b = b) :
    MergedAt (preserveSavedValue merge) base base saved (saved.map (follow base)) := by
  cases base with
  | none =>
    cases saved with
    | none | some => rfl
  | some b =>
    cases saved with
    | none => rfl
    | some s =>
      rw [mergedAt_some]
      split
      next hSame => rw [← hSame, map_some, follow, hSelf b rfl]
      · exact ⟨arranged b s, h b s rfl rfl, rfl⟩

theorem preserveItems_unchanged (hLen : base.length = saved.length)
    (h : ∀ b ∈ base, ∀ s ∈ saved, preserveSavedValue merge b s b = .ok (arranged b s)) :
    preserveItems merge base saved base = .ok (arrangedItems base saved) := by
  induction base generalizing saved with
  | nil =>
    cases saved with
    | nil =>
      rw [preserveItems, arrangedItems] <;> simp
    | cons s rest => cases hLen
  | cons b bases ih =>
    cases saved with
    | nil => cases hLen
    | cons s saveds =>
      have hRest := ih (Nat.succ.inj hLen) fun b hb s hs => h b (mem_cons_of_mem _ hb) s (mem_cons_of_mem _ hs)
      rw [preserveItems, h b mem_cons_self s mem_cons_self, hRest, arrangedItems]

theorem indexes_of_some (hb : index key base = some b)
    (hs : index key saved = some s) : indexes key base saved base = some ⟨b, s, b⟩ := by
  rw [indexes, hb, hs]
  rfl

theorem indexes_of_not (h : ¬((index key base).isSome ∧ (index key saved).isSome)) :
    indexes key base saved base = none := by
  cases hFound : indexes key base saved base with
  | none => rfl
  | some found =>
    obtain ⟨hb, hs, _⟩ := indexes_eq_some hFound
    exact absurd ⟨by rw [hb]; rfl, by rw [hs]; rfl⟩ h

theorem preserve_unchanged (hMerge : TakesSides merge) {base : Json} :
    base.isCanonical = true → ∀ {saved : Json}, saved.isCanonical = true →
      preserveSavedValue merge base saved base = .ok (arranged base saved) := by
  induction base using induct with
  | scalar b hScalar =>
    intro _ saved _
    rw [preserve_scalar hScalar, arranged_of_scalar hScalar]
    split
    · subst_vars
      rfl
    · rfl
  | object base ih =>
    intro hBase saved hSaved
    by_cases hSame : .object base = saved
    · rw [← hSame, preserve_same, arranged_self hBase]
    cases saved with
    | object saved =>
      obtain ⟨hBase, hBases⟩ := object_canonical.mp hBase
      obtain ⟨hSaved, hSaveds⟩ := object_canonical.mp hSaved
      rw [arranged]
      refine preserve_object_eq (fun h => hSame (congrArg object h)) hBase hSaved hBase
        (ordered_arrangedMembers hSaved) fun k => ?_
      rw [get_arrangedMembers]
      refine mergedAt_follow (fun b s hb hs => ?_) fun b hb => ?_
      · have hMem := mem_of_get hb
        exact ih _ hMem (hBases _ hMem) (hSaveds _ (mem_of_get hs))
      · exact arranged_self (hBases _ (mem_of_get hb))
    | array items =>
      rw [preserve_object_other hSame (.inl (by simp))]
      simp [arranged]
    | _ => rw [preserve_object_other hSame (.inl (by simp)), arranged_scalar rfl]
  | array base ih =>
    intro hBase saved hSaved
    by_cases hSame : .array base = saved
    · rw [← hSame, preserve_same, arranged_self hBase]
    cases saved with
    | array saved =>
      rw [array_canonical] at hBase hSaved
      have hItem : ∀ b ∈ base, ∀ s ∈ saved, preserveSavedValue merge b s b = .ok (arranged b s) := fun b hb s hs =>
        ih b hb (hBase b hb) (hSaved s hs)
      have hNamed : ∀ {key}, (index key base).isSome ∧ (index key saved).isSome → ∃ b s,
          indexes key base saved base = some ⟨b, s, b⟩ ∧
            preserveNamed key saved base ⟨b, s, b⟩ (preserveEntries merge key base s b) =
              .ok (.array (inBaseOrder key base (arrangedNamed key base saved))) := by
        intro key h
        obtain ⟨b, hb⟩ := isSome_iff_exists.mp h.1
        obtain ⟨s, hs⟩ := isSome_iff_exists.mp h.2
        refine ⟨b, s, indexes_of_some hb hs, ?_⟩
        rw [← arrange_arranged (indexed hb) (indexed hs)]
        refine preserveNamed_eq (indexes_of_some hb hs) (ordered_arrangedMembers (indexed hs).ordered) fun k => ?_
        rw [get_arrangedMembers]
        exact mergedAt_follow (fun x y hx hy => hItem x ((indexed hb).mem hx) y ((indexed hs).mem hy)) fun x hx =>
          arranged_self (hBase x ((indexed hb).mem hx))
      rw [preserveSavedValue, if_neg hSame, arranged, namingKey]
      by_cases hName : (index nameKey base).isSome ∧ (index nameKey saved).isSome
      · obtain ⟨b, s, hFound, hMerged⟩ := hNamed hName
        rwa [hFound, if_pos hName]
      rw [indexes_of_not hName, if_neg hName]
      by_cases hPath : (index pathKey base).isSome ∧ (index pathKey saved).isSome
      · obtain ⟨b, s, hFound, hMerged⟩ := hNamed hPath
        rwa [hFound, if_pos hPath]
      rw [indexes_of_not hPath, if_neg hPath]
      by_cases hLen : base.length = saved.length
      · rw [if_pos ⟨hLen, rfl⟩, if_pos hLen, preserveItems_unchanged hLen hItem]
      rw [if_neg fun h => hLen h.1, if_neg hLen, preserveLines, hMerge.incoming]
      dsimp only
      rw [decodeAll_encodeLines hSaved]
    | object members =>
      rw [preserve_array_other hSame (by simp)]
      simp [arranged]
    | _ => rw [preserve_array_other hSame (by simp), arranged_scalar rfl]

def atPath : List Text → Json → Option Json
  | [], j => some j
  | name :: rest, .object members => (get name members).bind (atPath rest)
  | _ :: _, _ => none

theorem atPath_cons {name : Text} {rest : List Text} {j a : Json} (h : atPath (name :: rest) j = some a) :
    ∃ members member, j = .object members ∧ get name members = some member ∧ atPath rest member = some a := by
  cases j with
  | object members =>
    obtain ⟨member, hMem, hRest⟩ := bind_eq_some_iff.mp h
    exact ⟨members, member, rfl, hMem, hRest⟩
  | _ => cases h

theorem atPath_preserve (path : List Text) {base saved target v b s : Json} (hBase : base.isCanonical = true)
    (hSaved : saved.isCanonical = true) (hb : atPath path base = some b) (hs : atPath path saved = some s)
    (hScalar : b.isScalar = true) (hDiffer : b ≠ s) (h : preserveSavedValue merge base saved target = .ok v) :
    atPath path v = some s := by
  induction path generalizing base saved target v with
  | nil =>
    cases hb
    cases hs
    rw [preserve_scalar hScalar, if_neg hDiffer] at h
    cases h
    rfl
  | cons name rest ih =>
    obtain ⟨bases, b', rfl, hGetBase, hRestBase⟩ := atPath_cons hb
    obtain ⟨saveds, s', rfl, hGetSaved, hRestSaved⟩ := atPath_cons hs
    have hInner : b' ≠ s' := by
      rintro rfl
      rw [hRestBase] at hRestSaved
      exact hDiffer (Option.some.inj hRestSaved)
    have hOuter : bases ≠ saveds := by
      rintro rfl
      rw [hGetBase] at hGetSaved
      exact hInner (Option.some.inj hGetSaved)
    obtain ⟨hBase, hBases⟩ := object_canonical.mp hBase
    obtain ⟨hSaved, hSaveds⟩ := object_canonical.mp hSaved
    by_cases hTarget : ∃ members, target = .object members
    · obtain ⟨targets, rfl⟩ := hTarget
      rw [preserve_object hOuter] at h
      split at h
      · cases h
      rename_i merged hMerged
      cases h
      have hAt := merged_get (nodup_of_ordered hBase) (fun _ => rfl) hSaved hMerged name
      rw [hGetBase, hGetSaved, mergedAt_some, if_neg hInner] at hAt
      obtain ⟨w, hValue, hGet⟩ := hAt
      rw [atPath, hGet]
      exact ih (hBases _ (mem_of_get hGetBase)) (hSaveds _ (mem_of_get hGetSaved)) hRestBase hRestSaved
        hValue
    rw [preserve_object_other (fun hSame => hOuter (object.inj hSame))
      (.inr fun members hSame => hTarget ⟨members, hSame⟩)] at h
    cases h
    exact hs

/-- The laws of a three-way merge; the second one up to the order of named entries. -/
theorem saved_changes_survive (hMerge : TakesSides merge) :
    (∀ base target : Json.Value, preserveSavedValue merge base.1 base.1 target.1 = .ok target.1) ∧
      (∀ base saved : Json.Value, preserveSavedValue merge base.1 saved.1 base.1 = .ok (arranged base.1 saved.1)) ∧
      (∀ base saved : Json.Value, preserveSavedValue merge base.1 saved.1 saved.1 = .ok saved.1) ∧
      ∀ (base saved target : Json.Value) (path : List Text) (b s v : Json), atPath path base.1 = some b →
        atPath path saved.1 = some s → b.isScalar = true → s.isScalar = true → b ≠ s →
        preserveSavedValue merge base.1 saved.1 target.1 = .ok v → atPath path v = some s := by
  refine ⟨fun base target => preserve_same base.1 target.1, fun base saved => ?_, fun base saved => ?_, ?_⟩
  · exact preserve_unchanged hMerge base.2 saved.2
  · exact preserve_agreed hMerge base.2 saved.2
  · intro base saved target path b s v hb hs hScalar _ hDiffer h
    exact atPath_preserve path base.2 saved.2 hb hs hScalar hDiffer h

def plainMerge : LineMerge Unit := fun original own incoming =>
  if original = own then .ok incoming else if original = incoming then .ok own else .ok incoming

theorem plainMerge_takesSides : TakesSides plainMerge where
  unchanged original incoming := by rw [plainMerge, if_pos rfl]
  incoming original own := by
    rw [plainMerge]
    split
    · subst_vars
      rfl
    · rw [if_pos rfl]
  agreed original both := by
    rw [plainMerge]
    split <;> rfl

def sampleEntry (name : String) : Json := .object [(nameKey, .string name.toList)]

def samplePort (text : String) : Json.Value := ⟨.object [("port".toList, .string text.toList)], by rfl⟩

theorem saved_changes_survive_plain :
    preserveSavedValue plainMerge (samplePort "a").1 (samplePort "a").1 (samplePort "c").1 = .ok (samplePort "c").1 ∧
      preserveSavedValue plainMerge (samplePort "a").1 (samplePort "b").1 (samplePort "a").1 =
        .ok (arranged (samplePort "a").1 (samplePort "b").1) ∧
      preserveSavedValue plainMerge (samplePort "a").1 (samplePort "b").1 (samplePort "b").1 = .ok (samplePort "b").1 ∧
      ∃ v, preserveSavedValue plainMerge (samplePort "a").1 (samplePort "b").1 (samplePort "c").1 = .ok v ∧
        atPath ["port".toList] v = some (.string "b".toList) := by
  obtain ⟨hTarget, hSaved, hAgreed, hScalar⟩ := saved_changes_survive plainMerge_takesSides
  refine ⟨hTarget _ _, hSaved _ _, hAgreed _ _, (samplePort "b").1, by decide +kernel, ?_⟩
  exact hScalar (samplePort "a") (samplePort "b") (samplePort "c") _ (.string "a".toList) _ _ (by decide +kernel)
    (by decide +kernel) rfl rfl (by decide) (by decide +kernel)

theorem saved_order_is_lost : TakesSides plainMerge ∧
      preserveSavedValue plainMerge (.array [sampleEntry "port", sampleEntry "context"])
        (.array [sampleEntry "context", sampleEntry "port"]) (.array [sampleEntry "port", sampleEntry "context"]) ≠
      .ok (.array [sampleEntry "context", sampleEntry "port"]) :=
  ⟨plainMerge_takesSides, by decide +kernel⟩

end LocalModelWorks.Recipe.Preserve
