import LocalModelWorks.Plan.RenderSpec
import Mathlib.Algebra.Ring.Int.Defs
import Mathlib.Data.List.Induction

/-!
# Storage of a download plan

`storagePlan` groups the planned resources by filesystem and adds up in 64 bits what is
still to be fetched, once for the resource and once for its staging.
-/

namespace LocalModelWorks.Downloads

open List Int64 Option
open Recipe (Text)

structure Planned extends Plan.Resource where
  bytesRemaining : Option Int64

structure StorageObservation where
  filesystem : Text
  availableBytes : Option Int64
  totalBytes : Option Int64

structure Storage where
  nodeID : Text
  filesystem : Text
  destination : Text
  resourceKeys : List Text
  requiredBytes : Option Int64
  stagingBytes : Option Int64
  availableBytes : Option Int64
  totalBytes : Option Int64
  reserveBytes : Int64
  sufficient : Option Bool

def storageReserveBytes : Int64 := 5 * 1024 * 1024 * 1024

structure Group where
  nodeID : Text
  filesystem : Text
  destination : Text
  resourceKeys : List Text
  required : Int64
  staging : Int64
  available : Option Int64
  total : Option Int64
  unknown : Bool

abbrev Observations := Text → Option StorageObservation

variable (observations : Observations) (r : Planned)

def filesystemOf : Text :=
  match observations r.key with
  | some obs => if obs.filesystem ≠ [] then obs.filesystem else r.spec.destination
  | none => r.spec.destination

def filesystemKey (nodeID filesystem : Text) : Text := nodeID ++ '\n' :: filesystem

def groupKey : Text :=
  filesystemKey r.nodeID (filesystemOf observations r)

namespace Group

variable (observations : Observations) (r : Planned)

def new : Group :=
  ⟨r.nodeID, filesystemOf observations r, r.spec.destination, [], 0, 0, none, none, false⟩

def least (known : Option Int64) (bytes : Int64) : Int64 :=
  match known with
  | some least => if bytes < least then bytes else least
  | none => bytes

def observe (obs : Option StorageObservation) (g : Group) : Group :=
  match obs with
  | none => g
  | some obs =>
    { g with
      available := match obs.availableBytes with
        | some bytes => some (least g.available bytes)
        | none => g.available
      total := obs.totalBytes }

variable (g : Group)

def charge : Group :=
  if r.action = .reuse then g
  else match r.bytesRemaining with
    | none => { g with unknown := true }
    | some bytes =>
      if bytes < 0 || (1 : Int64) <<< 62 - g.required < bytes then { g with unknown := true }
      else { g with required := g.required + bytes, staging := g.staging + bytes }

def add (r : Planned) : Group :=
  ({ g with resourceKeys := g.resourceKeys ++ [r.key] }.observe (observations r.key)).charge r

def entry (required staging : Option Int64) (sufficient : Option Bool) : Storage :=
  ⟨g.nodeID, g.filesystem, g.destination, g.resourceKeys, required, staging, g.available, g.total, storageReserveBytes,
    sufficient⟩

def finish : Storage :=
  if g.unknown then g.entry none none none
  else
    match g.available with
    | none => g.entry (some g.required) (some g.staging) none
    | some available =>
      let need := g.required + g.staging
      if need ≤ maxValue - storageReserveBytes then
        g.entry (some g.required) (some g.staging) (some (decide (need + storageReserveBytes ≤ available)))
      else g.entry (some g.required) (some g.staging) none

end Group

def insertResource (observations : Observations) (r : Planned) : List (Text × Group) → List (Text × Group)
  | [] => [(groupKey observations r, (Group.new observations r).add observations r)]
  | (key, g) :: rest =>
    if key = groupKey observations r then (key, g.add observations r) :: rest
    else (key, g) :: insertResource observations r rest

def groups (observations : Observations) (resources : List Planned) : List (Text × Group) :=
  resources.foldl (fun groups r => insertResource observations r groups) []

variable (resources : List Planned) (observations : Observations)

def storagePlan : List Storage :=
  (Plan.sortText ((groups observations resources).map Prod.fst)).filterMap fun key =>
    ((groups observations resources).lookup key).map Group.finish

def onFilesystem (resources : List Planned) (key : Text) : List Planned :=
  resources.filter fun r => groupKey observations r = key

def collect (resources : List Planned) : Option Group :=
  resources.foldl (fun g r => some ((g.getD (Group.new observations r)).add observations r)) none

variable {observations : Observations} {resources : List Planned}

theorem lookup_insertResource (r : Planned) (gs : List (Text × Group)) (key : Text) :
    (insertResource observations r gs).lookup key =
      if groupKey observations r = key then
        some (((gs.lookup key).getD (Group.new observations r)).add observations r)
      else gs.lookup key := by
  induction gs with
  | nil =>
    by_cases h : groupKey observations r = key
    · simp [insertResource, h]
    · simp [insertResource, h, List.lookup_cons, beq_eq_false_iff_ne.mpr (Ne.symm h)]
  | cons head rest ih =>
    obtain ⟨k, g⟩ := head
    rw [insertResource]
    by_cases hHead : k = groupKey observations r
    · subst hHead
      by_cases h : groupKey observations r = key
      · simp [h]
      · simp [h, List.lookup_cons, beq_eq_false_iff_ne.mpr (Ne.symm h)]
    rw [if_neg hHead, List.lookup_cons, List.lookup_cons, ih]
    by_cases hKey : key = k
    · subst hKey
      simp [Ne.symm hHead]
    · simp [beq_eq_false_iff_ne.mpr hKey]

theorem onFilesystem_append (rs ss : List Planned) (key : Text) :
    onFilesystem observations (rs ++ ss) key = onFilesystem observations rs key ++ onFilesystem observations ss key :=
  filter_append rs ss

theorem collect_append_singleton (rs : List Planned) (r : Planned) : collect observations (rs ++ [r]) =
      some (((collect observations rs).getD (Group.new observations r)).add observations r) := by
  rw [collect, foldl_append, ← collect, foldl_cons, foldl_nil]

variable {rs : List Planned} {g : Group} {r : Planned}

theorem collect_eq_none : collect observations rs = none ↔ rs = [] := by
  rcases eq_nil_or_concat' rs with rfl | ⟨init, last, rfl⟩
  · simp [collect]
  · simp [collect_append_singleton]

theorem lookup_groups (key : Text) :
    (groups observations resources).lookup key = collect observations (onFilesystem observations resources key) := by
  induction resources using List.reverseRecOn with
  | nil => rfl
  | append_singleton processed r ih =>
    rw [groups, foldl_append, ← groups, foldl_cons, foldl_nil, lookup_insertResource, ih, onFilesystem_append]
    by_cases h : groupKey observations r = key
    · have hOne : onFilesystem observations [r] key = [r] := by simp [onFilesystem, h]
      rw [if_pos h, hOne, collect_append_singleton]
    · have hNone : onFilesystem observations [r] key = [] := by simp [onFilesystem, h]
      rw [if_neg h, hNone, append_nil]

theorem mem_storagePlan {st : Storage} : st ∈ storagePlan resources observations ↔
      ∃ key g, collect observations (onFilesystem observations resources key) = some g ∧ st = g.finish := by
  rw [storagePlan, mem_filterMap]
  constructor
  · rintro ⟨key, _, h⟩
    obtain ⟨g, hg, rfl⟩ := Option.map_eq_some_iff.mp h
    exact ⟨key, g, by rw [← lookup_groups, hg], rfl⟩
  rintro ⟨key, g, hg, rfl⟩
  rw [← lookup_groups] at hg
  refine ⟨key, ?_, by rw [hg]; rfl⟩
  obtain ⟨before, after, hSplit, _⟩ := lookup_eq_some_iff.mp hg
  rw [Plan.sortText, hSplit]
  simp

def remaining : List Planned → Int
  | [] => 0
  | r :: rs => (if r.action = .reuse then 0 else (r.bytesRemaining.map toInt).getD 0) + remaining rs

def Sized (rs : List Planned) : Prop :=
  ∀ r ∈ rs, r.action ≠ .reuse → ∃ bytes, r.bytesRemaining = some bytes ∧ 0 ≤ bytes.toInt

def reported (observations : Observations) (r : Planned) : Option Int64 :=
  (observations r.key).bind StorageObservation.availableBytes

def AtLeast (observations : Observations) (rs : List Planned) (bytes : Int) : Prop :=
  ∀ r ∈ rs, ∀ available, reported observations r = some available → bytes ≤ available.toInt

theorem remaining_append (rs ss : List Planned) : remaining (rs ++ ss) = remaining rs + remaining ss := by
  induction rs with
  | nil => simp [remaining]
  | cons r rs ih =>
    rw [cons_append, remaining, remaining]
    omega

theorem sized_append {ss : List Planned} : Sized (rs ++ ss) ↔ Sized rs ∧ Sized ss := forall_mem_append

theorem remaining_nonneg (h : Sized rs) : 0 ≤ remaining rs := by
  induction rs with
  | nil => exact le_refl 0
  | cons r rs ih =>
    have hRest := ih fun s hs => h s (mem_cons_of_mem r hs)
    rw [remaining]
    split
    · omega
    rename_i hAction
    obtain ⟨bytes, hBytes, hNonneg⟩ := h r mem_cons_self hAction
    rw [hBytes, Option.map_some, Option.getD_some]
    omega

theorem toInt_add_of_fits {a b : Int64} (hLow : -2 ^ 63 ≤ a.toInt + b.toInt) (hHigh : a.toInt + b.toInt < 2 ^ 63) :
    (a + b).toInt = a.toInt + b.toInt := by
  rw [toInt_add]
  exact Int.bmod_eq_of_le (by omega) (by omega)

theorem toInt_limit : ((1 : Int64) <<< 62).toInt = 2 ^ 62 := by decide

theorem toInt_reserve : storageReserveBytes.toInt = 5 * 2 ^ 30 := by decide

theorem toInt_ceiling : (maxValue - storageReserveBytes).toInt = 2 ^ 63 - 1 - 5 * 2 ^ 30 := by decide

structure Sums (rs : List Planned) (g : Group) : Prop where
  staging : g.staging = g.required
  low : 0 ≤ g.required.toInt
  high : g.required.toInt ≤ 2 ^ 62
  known : g.unknown = false ↔ Sized rs ∧ remaining rs ≤ 2 ^ 62
  required : g.unknown = false → g.required.toInt = remaining rs

structure Reports (observations : Observations) (rs : List Planned) (available : Option Int64) : Prop where
  unreported : available = none ↔ ∀ r ∈ rs, reported observations r = none
  least : ∀ least, available = some least → ∀ bytes, bytes ≤ least.toInt ↔ AtLeast observations rs bytes

theorem sums_nil (hStaging : g.staging = 0) (hMust : g.required = 0) (hKnown : g.unknown = false) : Sums [] g := by
  have hZero : g.required.toInt = 0 := by rw [hMust]; rfl
  refine ⟨hStaging.trans hMust.symm, by omega, by omega, ⟨fun _ => ⟨?_, ?_⟩, fun _ => hKnown⟩, fun _ => hZero⟩
  · exact fun _ h => absurd h not_mem_nil
  · exact (by decide)

theorem le_toInt_least (known : Option Int64) (report : Int64) (bytes : Int) :
    bytes ≤ (Group.least known report).toInt ↔
      bytes ≤ report.toInt ∧ ∀ least, known = some least → bytes ≤ least.toInt := by
  cases known with
  | none => simp [Group.least]
  | some least =>
    simp only [Group.least, some.injEq, forall_eq']
    split
    next h =>
      rw [lt_iff_toInt_lt] at h
      omega
    next h =>
      rw [lt_iff_toInt_lt] at h
      omega

theorem observe_available (g : Group) (r : Planned) : (g.observe (observations r.key)).available =
      match reported observations r with
      | some bytes => some (Group.least g.available bytes)
      | none => g.available := by
  unfold reported
  cases observations r.key <;> rfl

theorem atLeast_append_singleton {bytes : Int} : AtLeast observations (rs ++ [r]) bytes ↔
      AtLeast observations rs bytes ∧ ∀ available, reported observations r = some available → bytes ≤ available.toInt := by
  simp [AtLeast, or_imp, forall_and]

inductive Charged (r : Planned) (g g' : Group) : Prop
  | reused (hAction : r.action = .reuse) (hSame : g' = g)
  | counted (bytes : Int64) (hAction : r.action ≠ .reuse) (hBytes : r.bytesRemaining = some bytes)
      (hLow : 0 ≤ bytes.toInt) (hHigh : bytes.toInt ≤ 2 ^ 62 - g.required.toInt)
      (hAdded : g' = { g with required := g.required + bytes, staging := g.staging + bytes })
  | unknown (hAction : r.action ≠ .reuse)
      (hBytes : ∀ bytes, r.bytesRemaining = some bytes → 0 ≤ bytes.toInt → 2 ^ 62 - g.required.toInt < bytes.toInt)
      (hMarked : g' = { g with unknown := true })

theorem charged_charge (hLow : 0 ≤ g.required.toInt) (hHigh : g.required.toInt ≤ 2 ^ 62) (r : Planned) :
    Charged r g (g.charge r) := by
  have hLimit : ((1 : Int64) <<< 62 - g.required).toInt = 2 ^ 62 - g.required.toInt := by
    rw [toInt_sub, Int.bmod_eq_of_le] <;> rw [toInt_limit] <;> omega
  unfold Group.charge
  split
  next hAction => exact .reused hAction rfl
  next hAction =>
    split
    next hBytes =>
      refine .unknown hAction (fun bytes h => ?_) rfl
      rw [hBytes] at h
      cases h
    next bytes hBytes =>
      have hZero : (0 : Int64).toInt = 0 := rfl
      split
      next hBad =>
        rw [Bool.or_eq_true, decide_eq_true_iff, decide_eq_true_iff, lt_iff_toInt_lt, lt_iff_toInt_lt] at hBad
        refine .unknown hAction (fun bytes' h hNonneg => ?_) rfl
        rw [hBytes, some.injEq] at h
        subst h
        omega
      next hGood =>
        rw [Bool.or_eq_true, decide_eq_true_iff, decide_eq_true_iff, lt_iff_toInt_lt, lt_iff_toInt_lt] at hGood
        exact .counted bytes hAction hBytes (by omega) (by omega) rfl

theorem Sums.charge {g' : Group} (hSums : Sums rs g) (h : Charged r g g') : Sums (rs ++ [r]) g' := by
  have hKnown := hSums.known
  cases h with
  | reused hAction hSame =>
    subst hSame
    have hOne : Sized [r] := fun s hs hNot => absurd (by rw [mem_singleton.mp hs, hAction]) hNot
    have hSum : remaining (rs ++ [r]) = remaining rs := by simp [remaining_append, remaining, hAction]
    refine { hSums with known := ?_, required := ?_ }
    · rw [hSum, sized_append, hKnown]
      exact ⟨fun h => ⟨⟨h.1, hOne⟩, h.2⟩, fun h => ⟨h.1.1, h.2⟩⟩
    · rw [hSum]
      exact hSums.required
  | counted bytes hAction hBytes hLow hHigh hAdded =>
    have hOne : Sized [r] := fun s hs _ => ⟨bytes, by rw [mem_singleton.mp hs, hBytes], hLow⟩
    have hSum : remaining (rs ++ [r]) = remaining rs + bytes.toInt := by
      simp [remaining_append, remaining, hAction, hBytes]
    have hMust : (g.required + bytes).toInt = g.required.toInt + bytes.toInt :=
      toInt_add_of_fits (by have := hSums.low; omega) (by omega)
    have hStart := hSums.low
    have hTotal := hSums.required
    subst hAdded
    refine ⟨by rw [hSums.staging], by simp only; omega, by simp only; omega, ?_, ?_⟩
    · rw [sized_append]
      refine ⟨fun h => ?_, fun h => hKnown.mpr ⟨h.1.1, by omega⟩⟩
      have hPre := hTotal h
      exact ⟨⟨(hKnown.mp h).1, hOne⟩, by omega⟩
    intro h
    have hPre := hTotal h
    simp only
    omega
  | unknown hAction hBytes hMarked =>
    subst hMarked
    refine ⟨hSums.staging, hSums.low, hSums.high, ⟨fun h => ?_, fun h => ?_⟩, fun h => ?_⟩
    · cases h
    · -- the resource has a size, and with it the sum is over the limit
      obtain ⟨hAll, hLimit⟩ := h
      obtain ⟨hPre, hOne⟩ := sized_append.mp hAll
      obtain ⟨bytes, hSome, hNonneg⟩ := hOne r (mem_singleton_self r) hAction
      have hSum : remaining (rs ++ [r]) = remaining rs + bytes.toInt := by
        simp [remaining_append, remaining, hAction, hSome]
      have hOver := hBytes bytes hSome hNonneg
      have hSame := hSums.required (hKnown.mpr ⟨hPre, by omega⟩)
      omega
    · cases h

theorem Reports.observe (hReports : Reports observations rs g.available) :
    Reports observations (rs ++ [r]) (g.observe (observations r.key)).available := by
  rw [observe_available]
  cases hReport : reported observations r with
  | none =>
    refine ⟨?_, fun least hLeast bytes => ?_⟩
    · simp [hReports.unreported, or_imp, forall_and, hReport]
    · rw [hReports.least least hLeast, atLeast_append_singleton, hReport]
      simp
  | some report =>
    refine ⟨?_, fun least hLeast bytes => ?_⟩
    · simp [hReport]
    rw [some.injEq] at hLeast
    rw [← hLeast, le_toInt_least, atLeast_append_singleton, hReport]
    simp only [some.injEq, forall_eq']
    rw [and_comm, and_congr_left_iff]
    intro _
    cases hKnown : g.available with
    | none =>
      have hNone := hReports.unreported.mp hKnown
      refine ⟨fun _ s hs available h => ?_, fun _ least h => nomatch h⟩
      rw [hNone s hs] at h
      cases h
    | some known => simp [hReports.least known hKnown]

theorem charge_frame (g : Group) (r : Planned) : (g.charge r).nodeID = g.nodeID ∧
    (g.charge r).filesystem = g.filesystem ∧ (g.charge r).available = g.available := by
  unfold Group.charge
  split
  · exact ⟨rfl, rfl, rfl⟩
  split
  · exact ⟨rfl, rfl, rfl⟩
  · split <;> exact ⟨rfl, rfl, rfl⟩

theorem Sums.observe (h : Sums rs g) (obs : Option StorageObservation) : Sums rs (g.observe obs) := by
  cases obs <;> exact { h with }

theorem collect_spec : ∀ {g : Group}, collect observations rs = some g →
    Sums rs g ∧ Reports observations rs g.available := by
  induction rs using List.reverseRecOn with
  | nil => exact nofun
  | append_singleton rs r ih =>
    intro g h
    rw [collect_append_singleton, some.injEq] at h
    subst h
    generalize hStart : (collect observations rs).getD (Group.new observations r) = g
    obtain ⟨hSums, hReports⟩ : Sums rs g ∧ Reports observations rs g.available := by
      subst hStart
      cases hCollect : collect observations rs with
      | some g => exact ih hCollect
      | none =>
        rw [collect_eq_none.mp hCollect]
        exact ⟨sums_nil rfl rfl rfl, ⟨⟨fun _ _ h => absurd h not_mem_nil, fun _ => rfl⟩, fun _ h => nomatch h⟩⟩
    have hNamed : Sums rs { g with resourceKeys := g.resourceKeys ++ [r.key] } := { hSums with }
    have hSeen := hNamed.observe (observations r.key)
    refine ⟨hSeen.charge (charged_charge hSeen.low hSeen.high r), ?_⟩
    rw [Group.add, (charge_frame _ r).2.2]
    exact Reports.observe hReports

theorem add_place (g : Group) (r : Planned) :
    (g.add observations r).nodeID = g.nodeID ∧ (g.add observations r).filesystem = g.filesystem := by
  rw [Group.add, (charge_frame _ r).1, (charge_frame _ r).2.1]
  cases observations r.key <;> exact ⟨rfl, rfl⟩

theorem collect_place {key : Text} (hKey : ∀ r ∈ rs, groupKey observations r = key) :
    ∀ {g : Group}, collect observations rs = some g → filesystemKey g.nodeID g.filesystem = key := by
  induction rs using List.reverseRecOn with
  | nil => exact nofun
  | append_singleton rs r ih =>
    intro g h
    rw [collect_append_singleton, some.injEq] at h
    rw [← h, (add_place _ r).1, (add_place _ r).2]
    cases hCollect : collect observations rs with
    | some g' => exact ih (fun s hs => hKey s (mem_append_left _ hs)) hCollect
    | none => exact hKey r (mem_append_right _ (mem_singleton_self r))

theorem finish_place (g : Group) : g.finish.nodeID = g.nodeID ∧ g.finish.filesystem = g.filesystem ∧
    g.finish.availableBytes = g.available := by
  unfold Group.finish
  split
  · exact ⟨rfl, rfl, rfl⟩
  split
  · exact ⟨rfl, rfl, by simp [Group.entry]⟩
  next hAvail =>
    simp only
    split <;> exact ⟨rfl, rfl, rfl⟩

theorem finish_sufficient (g : Group) : g.finish.sufficient = some true ↔
      g.unknown = false ∧ ∃ available, g.available = some available ∧
        g.required + g.staging ≤ maxValue - storageReserveBytes ∧
        g.required + g.staging + storageReserveBytes ≤ available := by
  unfold Group.finish
  cases g.unknown with
  | true => simp [Group.entry]
  | false =>
    cases g.available with
    | none => simp [Group.entry]
    | some available =>
      simp only [Bool.false_eq_true, if_false]
      split
      next hFits => simp [Group.entry, hFits]
      next hFits => simp [Group.entry, hFits]

theorem sufficient_iff (hSums : Sums rs g) : g.finish.sufficient = some true ↔
      g.unknown = false ∧ ∃ available, g.available = some available ∧
        if remaining rs = 2 ^ 62 then -2 ^ 63 + storageReserveBytes.toInt ≤ available.toInt
        else 2 * remaining rs + storageReserveBytes.toInt ≤ available.toInt := by
  rw [finish_sufficient, and_congr_right_iff]
  intro hKnown
  refine exists_congr fun available => and_congr_right fun _ => ?_
  have hMust := hSums.required hKnown
  have hLow := hSums.low
  have hHigh := hSums.high
  have hReserve := toInt_reserve
  have hTop := available.toInt_lt
  rw [le_iff_toInt_le, le_iff_toInt_le, toInt_ceiling, hSums.staging]
  by_cases hLimit : remaining rs = 2 ^ 62
  · -- twice 2^62 wraps around to the smallest number
    have hNeed : (g.required + g.required).toInt = -2 ^ 63 := by
      rw [toInt_add, hMust, hLimit]
      decide
    have hTotal : (g.required + g.required + storageReserveBytes).toInt = -2 ^ 63 + storageReserveBytes.toInt := by
      rw [toInt_add_of_fits] <;> rw [hNeed] <;> omega
    rw [if_pos hLimit]
    omega
  have hNeed : (g.required + g.required).toInt = 2 * remaining rs := by
    rw [toInt_add_of_fits] <;> omega
  rw [if_neg hLimit]
  constructor
  · rintro ⟨hFits, hEnough⟩
    rwa [toInt_add_of_fits (by omega) (by omega), hNeed] at hEnough
  intro hEnough
  refine ⟨by omega, ?_⟩
  rw [toInt_add_of_fits (by omega) (by omega), hNeed]
  exact hEnough

def SufficientSound (resources : List Planned) (observations : Observations) : Prop :=
  ∀ st ∈ storagePlan resources observations, st.sufficient = some true →
    ∃ available, st.availableBytes = some available ∧
      2 * remaining (onFilesystem observations resources (filesystemKey st.nodeID st.filesystem)) +
        storageReserveBytes.toInt ≤ available.toInt

/-- The resources to fetch add up to 2^62 bytes, on a filesystem with reported room. -/
def Wraps (observations : Observations) (rs : List Planned) : Prop :=
  Sized rs ∧ remaining rs = 2 ^ 62 ∧ (∃ r ∈ rs, reported observations r ≠ none) ∧
    AtLeast observations rs (-2 ^ 63 + storageReserveBytes.toInt)

theorem sufficient_unsound_iff (hCollect : collect observations rs = some g) : (g.finish.sufficient = some true ∧
      ¬ ∃ available, g.available = some available ∧
        2 * remaining rs + storageReserveBytes.toInt ≤ available.toInt) ↔ Wraps observations rs := by
  obtain ⟨hSums, hReports⟩ := collect_spec hCollect
  rw [sufficient_iff hSums, hSums.known]
  have hReserve := toInt_reserve
  constructor
  · rintro ⟨⟨⟨hKnown, _⟩, available, hAvail, hEnough⟩, hNot⟩
    split at hEnough
    next hLimit =>
      refine ⟨hKnown, hLimit, ?_, (hReports.least available hAvail _).mp hEnough⟩
      by_contra hNone
      push Not at hNone
      rw [hReports.unreported.mpr hNone] at hAvail
      cases hAvail
    · exact absurd ⟨available, hAvail, hEnough⟩ hNot
  rintro ⟨hKnown, hLimit, ⟨r, hr, hReported⟩, hAtLeast⟩
  cases hAvail : g.available with
  | none => exact absurd (hReports.unreported.mp hAvail r hr) hReported
  | some available =>
    refine ⟨⟨⟨hKnown, by omega⟩, available, rfl, ?_⟩, ?_⟩
    · rw [if_pos hLimit]
      exact (hReports.least available hAvail _).mpr hAtLeast
    rintro ⟨least, hLeast, hEnough⟩
    have hTop := least.toInt_lt
    omega

theorem storagePlan_sufficient_iff (resources : List Planned) (observations : Observations) :
    SufficientSound resources observations ↔
      ∀ r ∈ resources, ¬ Wraps observations (onFilesystem observations resources (groupKey observations r)) := by
  have hMember : ∀ key r, r ∈ onFilesystem observations resources key → groupKey observations r = key :=
    fun key r hr => by simpa using (mem_filter.mp hr).2
  constructor
  · intro hSound r hr hWraps
    cases hCollect : collect observations (onFilesystem observations resources (groupKey observations r)) with
    | none =>
      have hMem : r ∈ onFilesystem observations resources (groupKey observations r) := mem_filter.mpr ⟨hr, by simp⟩
      rw [collect_eq_none.mp hCollect] at hMem
      cases hMem
    | some g =>
      obtain ⟨hSufficient, hNot⟩ := (sufficient_unsound_iff hCollect).mpr hWraps
      have hEnough := hSound g.finish (mem_storagePlan.mpr ⟨_, g, hCollect, rfl⟩) hSufficient
      obtain ⟨hNode, hFiles, hAvail⟩ := finish_place g
      rw [hNode, hFiles, hAvail, collect_place (hMember _) hCollect] at hEnough
      exact hNot hEnough
  intro hFits st hst hSufficient
  obtain ⟨key, g, hCollect, rfl⟩ := mem_storagePlan.mp hst
  obtain ⟨hNode, hFiles, hAvail⟩ := finish_place g
  rw [hNode, hFiles, hAvail, collect_place (hMember _) hCollect]
  by_contra hNot
  have hWraps := (sufficient_unsound_iff hCollect).mp ⟨hSufficient, hNot⟩
  obtain ⟨r, hr, _⟩ := hWraps.2.2.1
  refine hFits r (mem_filter.mp hr).1 ?_
  rwa [hMember _ r hr]

def vastImage : Planned :=
  { Plan.sampleResource .image "i".toList with action := .downloadOrigin, bytesRemaining := some ((1 : Int64) <<< 62) }

def fullDisk : Observations := fun _ => some ⟨"/dev/sda".toList, some 0, none⟩

theorem storagePlan_sufficient_full :
    (storagePlan [vastImage] fullDisk).map (fun st => (st.availableBytes, st.sufficient)) = [(some 0, some true)] ∧
      ¬ SufficientSound [vastImage] fullDisk := by
  have hPlan : (storagePlan [vastImage] fullDisk).map (fun st => (st.availableBytes, st.sufficient)) =
      [(some 0, some true)] := by decide +kernel
  refine ⟨hPlan, fun hSound => ?_⟩
  have hMem : ((some 0, some true) : Option Int64 × Option Bool) ∈
      (storagePlan [vastImage] fullDisk).map fun st => (st.availableBytes, st.sufficient) := by
    exact mem_singleton_self _
  obtain ⟨st, hst, hEntry⟩ := mem_map.mp hMem
  obtain ⟨hAvail, hSufficient⟩ := Prod.mk.inj hEntry
  obtain ⟨available, hSome, hEnough⟩ := hSound st hst hSufficient
  rw [hAvail, some.injEq] at hSome
  have hKnown : Sized (onFilesystem fullDisk [vastImage] (filesystemKey st.nodeID st.filesystem)) := by
    intro r hr _
    rw [mem_singleton.mp (mem_filter.mp hr).1]
    exact ⟨_, rfl, by decide⟩
  have hNonneg := remaining_nonneg hKnown
  have hReserve := toInt_reserve
  have hZero : available.toInt = 0 := by rw [← hSome]; rfl
  omega

end LocalModelWorks.Downloads
