import LocalModelWorks.Cjson
import LocalModelWorks.Recipe.SavedChanges

/-!
# Comparison of configurations

`compareConfiguration` lists the places where two decoded documents differ, each by its JSON
pointer with the value before and the value after. A number stands for what it decodes to.
-/

namespace LocalModelWorks.RecipeBuilder

open List Json
open KeyMap hiding get
open Recipe.Preserve (atPath)

structure ChangeAt (π : Type) where
  path : π
  before : Option Json
  after : Option Json

abbrev ConfigurationChange := ChangeAt Text

def keys (before after : List (Text × Json)) : List Text :=
  ((before ++ after).map Prod.fst).dedup.insertionSort (· ≤ ·)

theorem sizeOf_get (name : Text) (members : List (Text × Json)) :
    sizeOf (KeyMap.get name members) < sizeOf (some (Json.object members)) := by
  cases h : KeyMap.get name members with
  | none =>
    simp only [Option.none.sizeOf_spec, Option.some.sizeOf_spec, Json.object.sizeOf_spec]
    omega
  | some j =>
    have hLess := Cjson.sizeOf_member (mem_of_get h)
    simp only [Option.some.sizeOf_spec] at hLess ⊢
    omega

/-- `extend` makes the path of a member. -/
def compareWith {π : Type} (extend : π → Text → π) (path : π) (before after : Option Json) : List (ChangeAt π) :=
  if before.isSome ∧ before = after then []
  else match before, after with
    | some (.object b), some (.object a) =>
      (keys b a).flatMap fun name => compareWith extend (extend path name) (KeyMap.get name b) (KeyMap.get name a)
    | _, _ => [⟨path, before, after⟩]
termination_by before
decreasing_by exact sizeOf_get name b

def escape (name : Text) : Text :=
  name.flatMap fun c => if c = '~' then ['~', '0'] else if c = '/' then ['~', '1'] else [c]

def compareConfiguration (path : Text) (before after : Option Json) : List ConfigurationChange :=
  compareWith (fun path name => path ++ '/' :: escape name) path before after

/-! ### Pointers and patches -/

def unescape : Text → Text
  | '~' :: '1' :: rest => '/' :: unescape rest
  | '~' :: '0' :: rest => '~' :: unescape rest
  | c :: rest => c :: unescape rest
  | [] => []

/-- What stands before the first slash, and after each of them. -/
def splitSlashes : Text → Text × List Text
  | [] => ([], [])
  | c :: rest =>
    let (first, others) := splitSlashes rest
    if c = '/' then ([], first :: others) else (c :: first, others)

/-- The names of a JSON pointer. -/
def pointer (path : Text) : List Text := (splitSlashes path).2.map unescape

def setMember (name : Text) (value : Option Json) (members : List (Text × Json)) : List (Text × Json) :=
  match value with
  | none => erase name members
  | some j => put name j members

def patchAt : List Text → Option Json → Option Json → Option Json
  | [], value, _ => value
  | name :: rest, value, some (.object members) =>
    some (.object (setMember name (patchAt rest value (KeyMap.get name members)) members))
  | _, _, j => j

/-- The changes, one after the other. -/
def patch (changes : List (ChangeAt (List Text))) (j : Option Json) : Option Json :=
  changes.foldl (fun j c => patchAt c.path c.after j) j

/-- No path leads to or below another. -/
def Apart (p q : List Text) : Prop := ¬p <+: q ∧ ¬q <+: p

def ChangeAt.mapPath {π ρ : Type} (f : π → ρ) (c : ChangeAt π) : ChangeAt ρ := ⟨f c.path, c.before, c.after⟩

/-- The changes by the names of the members on the way to them. -/
def diff (before after : Option Json) : List (ChangeAt (List Text)) :=
  compareWith (fun path name => path ++ [name]) [] before after

section Paths

variable {π ρ : Type} {extend : π → Text → π} {extend' : ρ → Text → ρ} {f : π → ρ} {b a : List (Text × Json)}

theorem compareWith_self (path : π) (j : Json) : compareWith extend path (some j) (some j) = [] := by
  rw [compareWith.eq_def, if_pos ⟨rfl, rfl⟩]

theorem compareWith_object (path : π) (h : b ≠ a) : compareWith extend path (some (.object b)) (some (.object a)) =
    (keys b a).flatMap fun name => compareWith extend (extend path name) (KeyMap.get name b) (KeyMap.get name a) := by
  rw [compareWith.eq_def, if_neg fun hSame => h (Json.object.inj (Option.some.inj hSame.2))]

theorem compare_induct {motive : Option Json → Option Json → Prop} (same : ∀ j, motive (some j) (some j))
    (leaf : ∀ b a, (∀ {π : Type} (extend : π → Text → π) path, compareWith extend path b a = [⟨path, b, a⟩]) → motive b a)
    (object : ∀ b a, b ≠ a → (∀ name, motive (KeyMap.get name b) (KeyMap.get name a)) →
      motive (some (.object b)) (some (.object a))) (before after : Option Json) : motive before after := by
  have hNone : ∀ after, motive none after := fun after => leaf _ _ fun extend path => by
    rw [compareWith.eq_def, if_neg (by simp)]
  cases before with
  | none => exact hNone after
  | some j =>
    induction j using induct generalizing after with
    | scalar j hScalar =>
      by_cases hSame : some j = after
      · exact hSame ▸ same j
      · refine leaf _ _ fun extend path => ?_
        rw [compareWith.eq_def, if_neg fun h => hSame h.2]
        cases j <;> first | rfl | cases hScalar
    | array items =>
      by_cases hSame : some (.array items) = after
      · exact hSame ▸ same _
      · exact leaf _ _ fun extend path => by rw [compareWith.eq_def, if_neg fun h => hSame h.2]
    | object b ih =>
      by_cases hSame : some (.object b) = after
      · exact hSame ▸ same _
      match after with
      | some (.object a) =>
        refine object b a (fun h => hSame (h ▸ rfl)) fun name => ?_
        cases hOld : KeyMap.get name b with
        | none => exact hNone _
        | some old => exact ih (name, old) (mem_of_get hOld) _
      | none | some .null | some (.bool _) | some (.number _) | some (.string _) | some (.array _) =>
        exact leaf _ _ fun extend path => by rw [compareWith.eq_def, if_neg fun h => hSame h.2]

theorem compareWith_map (hExtend : ∀ path name, f (extend path name) = extend' (f path) name) (before after : Option Json) :
    ∀ path, compareWith extend' (f path) before after = (compareWith extend path before after).map (.mapPath f) := by
  induction before, after using compare_induct with
  | same j => exact fun path => by rw [compareWith_self, compareWith_self, map_nil]
  | leaf b a hLeaf => exact fun path => by rw [hLeaf, hLeaf]; rfl
  | object b a hNe ih =>
    intro path
    rw [compareWith_object _ hNe, compareWith_object _ hNe, map_flatMap]
    exact flatMap_congr fun name _ => by rw [← hExtend, ih name]

theorem diff_object (h : b ≠ a) : diff (some (.object b)) (some (.object a)) =
    (keys b a).flatMap fun name => (diff (KeyMap.get name b) (KeyMap.get name a)).map (.mapPath (name :: ·)) := by
  rw [diff, compareWith_object _ h]
  exact flatMap_congr fun name _ => compareWith_map (f := (name :: ·)) (fun _ _ => rfl) _ _ []

end Paths

section Patch

variable {b a x : List (Text × Json)} {name k : Text} {value : Option Json}

theorem nodup_keys : (keys b a).Nodup := (perm_insertionSort _ _).nodup_iff.mpr (nodup_dedup _)

theorem get_of_notMem_keys (h : name ∉ keys b a) : KeyMap.get name b = KeyMap.get name a := by
  rw [keys, mem_insertionSort, mem_dedup, mem_map] at h
  have hNone : ∀ members, (∀ m ∈ members, m ∈ b ++ a) → KeyMap.get name members = none := fun members hAll =>
    get_eq_none_iff.mpr fun m hm hSame => h ⟨m, hAll m hm, hSame.symm⟩
  rw [hNone b fun m => mem_append_left a, hNone a fun m => mem_append_right b]

theorem diff_at (before after : Option Json) : ∀ c ∈ diff before after,
    before.bind (atPath c.path) = c.before ∧ after.bind (atPath c.path) = c.after := by
  induction before, after using compare_induct with
  | same j =>
    rw [diff, compareWith_self]
    nofun
  | leaf b a hLeaf =>
    rw [diff, hLeaf]
    exact forall_mem_singleton.mpr ⟨Option.bind_fun_some _, Option.bind_fun_some _⟩
  | object b a hNe ih =>
    rw [diff_object hNe]
    intro c hc
    obtain ⟨name, -, hc⟩ := mem_flatMap.mp hc
    obtain ⟨d, hd, rfl⟩ := mem_map.mp hc
    exact ih name d hd

theorem diff_apart (before after : Option Json) : (diff before after).Pairwise fun c d => Apart c.path d.path := by
  induction before, after using compare_induct with
  | same j =>
    rw [diff, compareWith_self]
    exact Pairwise.nil
  | leaf b a hLeaf =>
    rw [diff, hLeaf]
    exact pairwise_singleton _ _
  | object b a hNe ih =>
    rw [diff_object hNe, pairwise_flatMap]
    refine ⟨fun name _ => pairwise_map.mpr ((ih name).imp fun h => ?_), nodup_keys.imp fun {name other} hOther => ?_⟩
    · simpa [Apart, ChangeAt.mapPath] using h
    · intro c hc d hd
      obtain ⟨c, -, rfl⟩ := mem_map.mp hc
      obtain ⟨d, -, rfl⟩ := mem_map.mp hd
      exact ⟨fun h => hOther (cons_prefix_cons.mp h).1, fun h => hOther (cons_prefix_cons.mp h).1.symm⟩

theorem ordered_setMember (h : Ordered x) : Ordered (setMember name value x) := by
  cases value with
  | none => exact ordered_erase h
  | some j => exact ordered_put h

theorem get_setMember : KeyMap.get k (setMember name value x) = if k = name then value else KeyMap.get k x := by
  cases value with
  | none =>
    rw [setMember, get_erase]
    congr
  | some j =>
    rw [setMember, get_put]
    congr

/-- The changes below a member change nothing else. -/
theorem patch_member (name : Text) (changes : List (ChangeAt (List Text))) (hx : Ordered x) :
    ∃ y, patch (changes.map (.mapPath (name :: ·))) (some (.object x)) = some (.object y) ∧ Ordered y ∧
      ∀ k, KeyMap.get k y = if k = name then patch changes (KeyMap.get name x) else KeyMap.get k x := by
  induction changes generalizing x with
  | nil => exact ⟨x, rfl, hx, fun k => by split <;> simp_all [patch]⟩
  | cons c rest ih =>
    have hFirst : Ordered (setMember name (patchAt c.path c.after (KeyMap.get name x)) x) := ordered_setMember hx
    obtain ⟨y, hy, hOrdered, hGet⟩ := ih hFirst
    refine ⟨y, hy, hOrdered, fun k => ?_⟩
    rw [hGet k, get_setMember, get_setMember, if_pos rfl]
    split <;> rfl

/-- After the changes of some members, those are as they are after. -/
theorem patch_members (hPatch : ∀ name, patch (diff (KeyMap.get name b) (KeyMap.get name a)) (KeyMap.get name b) =
      KeyMap.get name a) {names : List Text} (hNodup : names.Nodup) (hx : Ordered x)
    (hSame : ∀ name ∈ names, KeyMap.get name x = KeyMap.get name b) :
    ∃ y, patch (names.flatMap fun name => (diff (KeyMap.get name b) (KeyMap.get name a)).map (.mapPath (name :: ·)))
        (some (.object x)) = some (.object y) ∧ Ordered y ∧
      ∀ k, KeyMap.get k y = if k ∈ names then KeyMap.get k a else KeyMap.get k x := by
  induction names generalizing x with
  | nil => exact ⟨x, rfl, hx, fun k => (if_neg not_mem_nil).symm⟩
  | cons name names ih =>
    obtain ⟨hFresh, hNodup⟩ := nodup_cons.mp hNodup
    obtain ⟨hFirst, hRest⟩ := forall_mem_cons.mp hSame
    obtain ⟨z, hz, hOrdered, hGet⟩ := patch_member name (diff (KeyMap.get name b) (KeyMap.get name a)) hx
    rw [hFirst, hPatch] at hGet
    have hKept : ∀ other ∈ names, KeyMap.get other z = KeyMap.get other b := fun other hOther => by
      rw [hGet other, if_neg (ne_of_mem_of_not_mem hOther hFresh), hRest other hOther]
    obtain ⟨y, hy, hOrdered, hAll⟩ := ih hNodup hOrdered hKept
    refine ⟨y, ?_, hOrdered, fun k => ?_⟩
    · rw [flatMap_cons, patch, foldl_append]
      exact (congrArg (patch _) hz).trans hy
    · rw [hAll k, hGet k]
      grind

theorem patch_diff (before after : Option Json) : (∀ j ∈ before, j.isCanonical = true) →
    (∀ j ∈ after, j.isCanonical = true) → patch (diff before after) before = after := by
  induction before, after using compare_induct with
  | same j =>
    rw [diff, compareWith_self]
    exact fun _ _ => rfl
  | leaf b a hLeaf =>
    rw [diff, hLeaf]
    exact fun _ _ => rfl
  | object b a hNe ih =>
    intro hb ha
    obtain ⟨hOrdered, hItems⟩ := object_canonical.mp (hb _ rfl)
    obtain ⟨hOrdered', hItems'⟩ := object_canonical.mp (ha _ rfl)
    obtain ⟨y, hy, hy', hGet⟩ := patch_members (fun name => ih name (fun j hj => hItems _ (mem_of_get hj))
      fun j hj => hItems' _ (mem_of_get hj)) nodup_keys hOrdered fun _ _ => rfl
    rw [diff_object hNe, hy, KeyMap.ext hy' hOrdered' fun k => ?_]
    rw [hGet k]
    split
    · rfl
    next hNone => exact get_of_notMem_keys hNone

end Patch

section Pointers

def path (names : List Text) : Text := names.flatMap fun name => '/' :: escape name

theorem slash_notMem_escape (name : Text) : '/' ∉ escape name := by
  rw [escape, mem_flatMap]
  rintro ⟨c, -, hc⟩
  split at hc
  · exact absurd hc (by decide)
  split at hc
  · exact absurd hc (by decide)
  next hSlash => exact hSlash (mem_singleton.mp hc).symm

theorem unescape_escape (name : Text) : unescape (escape name) = name := by
  induction name with
  | nil => rfl
  | cons c rest ih =>
    rw [escape, flatMap_cons, ← escape]
    split
    next hTilde => rw [hTilde]; exact congrArg _ ih
    split
    next hSlash => rw [hSlash]; exact congrArg _ ih
    next hTilde _ =>
      rw [singleton_append, unescape.eq_def]
      split <;> simp_all

theorem splitSlashes_append {first : Text} (h : '/' ∉ first) (rest : Text) :
    splitSlashes (first ++ rest) = (first ++ (splitSlashes rest).1, (splitSlashes rest).2) := by
  induction first with
  | nil => rfl
  | cons c first ih =>
    obtain ⟨hc, hFirst⟩ := not_or.mp (mt mem_cons.mpr h)
    rw [cons_append, splitSlashes, ih hFirst]
    exact if_neg fun hSlash => hc hSlash.symm

theorem splitSlashes_path (names : List Text) : splitSlashes (path names) = ([], names.map escape) := by
  induction names with
  | nil => rfl
  | cons name names ih =>
    rw [path, flatMap_cons, cons_append, splitSlashes, splitSlashes_append (slash_notMem_escape name), ← path, ih]
    simp

theorem pointer_path (names : List Text) : pointer (path names) = names := by
  rw [pointer, splitSlashes_path, map_map]
  exact (map_congr_left fun name _ => unescape_escape name).trans (map_id _)

theorem compareConfiguration_eq (before after : Option Json) :
    compareConfiguration [] before after = (diff before after).map (.mapPath path) :=
  compareWith_map (f := path) (fun names name => by simp [path]) before after []

theorem map_pointer (before after : Option Json) :
    (compareConfiguration [] before after).map (.mapPath pointer) = diff before after := by
  rw [compareConfiguration_eq, map_map]
  refine (map_congr_left fun c _ => ?_).trans (map_id _)
  rw [Function.comp, ChangeAt.mapPath, ChangeAt.mapPath, pointer_path]
  rfl

/-- The changes, read by their pointers, take the document before to the one after, and each has the values at its
pointer before and after. -/
theorem comparison_is_patch (before after : Value) :
    let changes := (compareConfiguration [] (some before.1) (some after.1)).map (.mapPath pointer)
    patch changes (some before.1) = some after.1 ∧ changes.Pairwise (fun c d => Apart c.path d.path) ∧
      (∀ c ∈ changes, atPath c.path before.1 = c.before ∧ atPath c.path after.1 = c.after) ∧
      (compareConfiguration [] (some before.1) (some after.1) = [] ↔ before = after) := by
  rw [map_pointer]
  have hPatch := patch_diff (some before.1) (some after.1) (by simp [before.2]) (by simp [after.2])
  refine ⟨hPatch, diff_apart _ _, diff_at _ _, fun h => Subtype.ext ?_, fun h => ?_⟩
  · rw [compareConfiguration_eq, map_eq_nil_iff] at h
    rw [h] at hPatch
    exact Option.some.inj hPatch
  · rw [h, compareConfiguration, compareWith_self]

end Pointers

end LocalModelWorks.RecipeBuilder
