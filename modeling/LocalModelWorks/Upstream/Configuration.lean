import LocalModelWorks.SourceConfig.Apply
import LocalModelWorks.SourceConfig.MergeEdits
import LocalModelWorks.Transition
import Mathlib.Data.Char
import Mathlib.Data.List.Lex

/-!
# Configuring a checkout (`upstream_configuration.go`)

`configureUpstreamSource` renders the requested files from their pinned blobs and merges each
rendering with the working file, relative to the rendering it wrote there before. Everything
is planned before the first write.
-/

namespace LocalModelWorks.Upstream.Configuration

open Transition SourceConfig List
open Shell (Text)
open Merge (Bytes)
open Table (lookup)

structure Saved where
  original : Text
  result : Text
  applied : Option Bytes
  deriving DecidableEq

/-- The regular files of the working tree, and `configuration-state.json`. -/
structure Checkout where
  files : Text → Option Bytes
  saved : List (Text × Saved)

structure Request where
  sourcePath : Text
  configuration : List ResolvedFile

/-- What one call meets: the checks of the whole source before and after it, and paths that are no
regular files of the allowed size. -/
structure Env where
  verify : Option String
  path : Text → Option String
  merge : Merge.Env
  record : Option String

def Request.relative (request : Request) (file : ResolvedFile) : Text := Downloads.join [request.sourcePath, file.path]

def Request.find (request : Request) (relative : Text) : Option ResolvedFile :=
  request.configuration.reverse.find? fun file => request.relative file = relative

def about (message : String) (relative : Text) : String := "upstream.configuration_" ++ message ++ ": " ++ String.ofList relative

section Configure

variable (sha256 : Bytes → Text) (blob : Text → Except String Bytes)

def recover (request : Request) (relative : Text) (original : Bytes) (result : Text) :
    List ResolvedFile → Except String Bytes
  | [] => .error (about "ownership_unavailable" relative)
  | file :: rest =>
    if request.relative file ≠ relative then recover request relative original result rest
    else match apply original file.edits with
      | .error e => .error e
      | .ok applied => if sha256 applied = result then .ok applied else recover request relative original result rest

variable (request : Request) (relative : Text) (original : Bytes)

def upstreamConfiguredBaseline (current : Option Bytes) (prior : Saved) : Except String Bytes :=
  if prior.original ≠ sha256 original then .error (about "original_changed" relative)
  else match prior.applied.filter fun applied => sha256 applied = prior.result with
    | some applied => .ok applied
    | none =>
      let current := current.getD []
      if sha256 current = prior.result then .ok current
      else recover sha256 request relative original prior.result request.configuration

variable (c : Checkout)

def baselineOf (request : Request) (relative : Text) (original : Bytes) : Except String Bytes :=
  match lookup Prod.fst c.saved relative with
  | none => .ok original
  | some (_, prior) => upstreamConfiguredBaseline sha256 request relative original (c.files relative) prior

def render : Except String (Bytes × Option Saved) :=
  match request.find relative with
  | none => .ok (original, none)
  | some file =>
    match apply original file.edits with
    | .error e => .error (about "edit_invalid" relative ++ ": " ++ e)
    | .ok result => .ok (result, some ⟨sha256 original, sha256 result, some result⟩)

def mismatched : Bool :=
  (request.find relative).any fun file => file.sha256.map Char.toLower ≠ (sha256 original).map Char.toLower

variable (env : Env) (c : Checkout) (request : Request)

/-- What is saved of a file, and the bytes it has afterwards. A file that was deleted is not made again. -/
def plan (relative : Text) : Except String (Option Saved × Option Bytes) :=
  match env.path relative with
  | some message => .error message
  | none => match blob relative with
    | .error e => .error e
    | .ok original =>
      if mismatched sha256 request relative original then .error (about "hash_mismatch" relative)
      else match baselineOf sha256 c request relative original with
      | .error e => .error e
      | .ok baseline => match render sha256 request relative original with
        | .error e => .error e
        | .ok (result, next) => match c.files relative with
          | none => .ok (next, none)
          | some current => match Merge.mergeLocalChanges env.merge baseline current result with
            | .error e => .error (about "preservation" relative ++ ": " ++ e.text)
            | .ok merged => .ok (next, some merged)

def paths : List Text :=
  (c.saved.map Prod.fst ++ request.configuration.map request.relative).dedup.insertionSort (· ≤ ·)

def failure (x : Except String (Option Saved × Option Bytes)) : Option String :=
  match x with
  | .error e => some e
  | .ok _ => none

def configure : Except String Checkout :=
  match validateResolved request.configuration with
  | .error e => .error e
  | .ok () => match env.verify with
    | some message => .error message
    | none => match request.configuration.find? fun file => !safePath (request.relative file) with
      | some file => .error (about "path_invalid" (request.relative file))
      | none =>
        let planned := plan sha256 blob env c request
        match (paths c request).findSome? fun relative => failure (planned relative) with
        | some e => .error e
        | none => .ok {
            files := fun relative => match planned relative with
              | .ok (_, after) => if (paths c request).contains relative then after else c.files relative
              | .error _ => c.files relative
            saved := (paths c request).filterMap fun relative =>
              ((planned relative).toOption.bind Prod.fst).map (relative, ·) }

def configureUpstreamSource : Checkout × Option String :=
  match configure sha256 blob env c request with
  | .error e => (c, some e)
  | .ok next => (next, env.record)

/-- Calls on one checkout. The request is the last one that was applied, at first an empty one. -/
def system : System (Checkout × Request) (Env × Request) where
  init s := (∀ relative original, blob relative = .ok original → s.1.files relative = some original) ∧
    s.1.saved = [] ∧ s.2 = ⟨[], []⟩
  enabled _ _ := True
  next s e := ((configureUpstreamSource sha256 blob e.1 s.1 e.2).1,
    if (configure sha256 blob e.1 s.1 e.2).isOk then e.2 else s.2)

end Configure

variable {sha256 : Bytes → Text} {blob : Text → Except String Bytes} {env : Env} {c c' : Checkout}
  {request last : Request} {relative : Text} {original out : Bytes}

/-- The file is its blob, or the rendering of it that the request asks for. -/
def Renders (request : Request) (relative : Text) (original : Bytes) (data : Option Bytes) : Prop :=
  match request.find relative with
  | none => data = some original
  | some file => ∃ out, apply original file.edits = .ok out ∧ data = some out

structure Configured (sha256 : Bytes → Text) (last : Request) (relative : Text) (original : Bytes) (c : Checkout) : Prop where
  renders : Renders last relative original (c.files relative)
  requested : (∃ file, last.find relative = some file) → ∃ entry, lookup Prod.fst c.saved relative = some entry
  saved : ∀ entry, lookup Prod.fst c.saved relative = some entry →
    ∃ out, c.files relative = some out ∧ entry.2 = ⟨sha256 original, sha256 out, some out⟩

theorem Configured.unsaved (h : Configured sha256 last relative original c)
    (hNone : lookup Prod.fst c.saved relative = none) : c.files relative = some original := by
  have hRenders := h.renders
  unfold Renders at hRenders
  split at hRenders
  · exact hRenders
  rename_i file hFile
  obtain ⟨entry, hEntry⟩ := h.requested ⟨file, hFile⟩
  rw [hNone] at hEntry
  cases hEntry

theorem Configured.baseline (h : Configured sha256 last relative original c) {baseline : Bytes}
    (hBase : baselineOf sha256 c request relative original = .ok baseline) : c.files relative = some baseline := by
  unfold baselineOf at hBase
  split at hBase
  next hNone =>
    cases hBase
    exact h.unsaved hNone
  next key prior hPrior =>
    obtain ⟨out, hOut, hEntry⟩ := h.saved (key, prior) hPrior
    obtain rfl : prior = ⟨sha256 original, sha256 out, some out⟩ := hEntry
    simp only [upstreamConfiguredBaseline, ne_eq, not_true_eq_false, if_false, Option.filter_some, decide_true, if_true,
      Except.ok.injEq] at hBase
    rw [hOut, hBase]

theorem merge_unchanged {merge : Merge.Env} {data incoming merged : Bytes}
    (h : Merge.mergeLocalChanges merge data data incoming = .ok merged) : merged = incoming := by
  unfold Merge.mergeLocalChanges at h
  split at h
  · cases h
  · rw [if_pos (.inl rfl)] at h
    exact (Except.ok.inj h).symm

theorem Configured.plan (h : Configured sha256 last relative original c) (hBlob : blob relative = .ok original)
    {next : Option Saved} {after : Option Bytes} (hPlan : plan sha256 blob env c request relative = .ok (next, after)) :
    ∃ result, after = some result ∧ render sha256 request relative original = .ok (result, next) := by
  unfold Configuration.plan at hPlan
  rw [hBlob] at hPlan
  split at hPlan
  · cases hPlan
  dsimp only at hPlan
  split at hPlan
  · cases hPlan
  split at hPlan
  · cases hPlan
  rename_i baseline hBase
  split at hPlan
  · cases hPlan
  rename_i result saved hRender
  rw [h.baseline hBase] at hPlan
  dsimp only at hPlan
  split at hPlan
  · cases hPlan
  next merged hMerged =>
    cases hPlan
    exact ⟨result, congrArg some (merge_unchanged hMerged), hRender⟩

theorem lookup_filterMap {f : Text → Option Saved} {r : Text} (names : List Text) :
    lookup Prod.fst (names.filterMap fun name => (f name).map (name, ·)) r =
      if r ∈ names then (f r).map (r, ·) else none := by
  induction names with
  | nil => rfl
  | cons name names ih =>
    by_cases hName : r = name
    · subst hName
      cases hSaved : f r with
      | none => simp [hSaved, ih]
      | some saved => simp [hSaved, Table.lookup_cons]
    cases hSaved : f name with
    | none => simp [hSaved, ih, hName]
    | some saved => simp [hSaved, ih, hName, Table.lookup_cons, Ne.symm hName]

theorem mem_paths_of_find {file : ResolvedFile} (h : request.find relative = some file) : relative ∈ paths c request := by
  have hName := find?_some h
  have hMem := mem_reverse.mp (mem_of_find?_eq_some h)
  rw [paths, mem_insertionSort, mem_dedup, mem_append]
  exact .inr (mem_map.mpr ⟨file, hMem, of_decide_eq_true hName⟩)

theorem mem_paths_of_lookup {entry : Text × Saved} (h : lookup Prod.fst c.saved relative = some entry) :
    relative ∈ paths c request := by
  rw [paths, mem_insertionSort, mem_dedup, mem_append]
  exact .inl (mem_map.mpr ⟨entry, Table.mem_of_lookup h, Table.key_of_lookup h⟩)

theorem configure_ok (h : configure sha256 blob env c request = .ok c') (relative : Text) :
    (relative ∈ paths c request → ∃ done, plan sha256 blob env c request relative = .ok done ∧
      c'.files relative = done.2 ∧ lookup Prod.fst c'.saved relative = done.1.map (relative, ·)) ∧
    (relative ∉ paths c request →
      c'.files relative = c.files relative ∧ lookup Prod.fst c'.saved relative = none) := by
  unfold configure at h
  split at h
  · cases h
  split at h
  · cases h
  split at h
  · cases h
  dsimp only at h
  split at h
  · cases h
  rename_i hPlanned
  cases h
  dsimp only
  rw [lookup_filterMap]
  constructor
  · intro hPath
    have hFine := findSome?_eq_none_iff.mp hPlanned relative hPath
    cases hDone : plan sha256 blob env c request relative with
    | error e =>
      rw [hDone] at hFine
      cases hFine
    | ok done => exact ⟨done, rfl, if_pos (contains_iff_mem.mpr hPath), if_pos hPath⟩
  intro hPath
  refine ⟨?_, if_neg hPath⟩
  split
  · exact if_neg (hPath <| contains_iff_mem.mp ·)
  · rfl

theorem render_ok {result : Bytes} {next : Option Saved} (h : render sha256 request relative original = .ok (result, next)) :
    Renders request relative original (some result) ∧ ((∃ file, request.find relative = some file) → next.isSome = true) ∧
      ∀ saved, next = some saved → saved = ⟨sha256 original, sha256 result, some result⟩ := by
  unfold render at h
  unfold Renders
  cases hFind : request.find relative with
  | none =>
    rw [hFind] at h
    cases h
    exact ⟨rfl, fun ⟨file, hFile⟩ => (by cases hFile), fun saved hSaved => (by cases hSaved)⟩
  | some file =>
    rw [hFind] at h
    dsimp only at h
    split at h
    · cases h
    next rendered hApply =>
      cases h
      exact ⟨⟨_, hApply, rfl⟩, fun _ => rfl, fun saved hSaved => (Option.some.inj hSaved).symm⟩

theorem Configured.configure (h : Configured sha256 last relative original c) (hBlob : blob relative = .ok original)
    (hConfigure : configure sha256 blob env c request = .ok c') : Configured sha256 request relative original c' := by
  obtain ⟨hIn, hOut⟩ := configure_ok hConfigure relative
  by_cases hPath : relative ∈ paths c request
  · obtain ⟨⟨next, after⟩, hPlan, hFiles, hSaved⟩ := hIn hPath
    obtain ⟨result, rfl, hRender⟩ := h.plan hBlob hPlan
    obtain ⟨hRenders, hNext, hEntries⟩ := render_ok hRender
    refine ⟨hFiles ▸ hRenders, fun hFile => ?_, fun entry hEntry => ⟨result, hFiles, ?_⟩⟩
    · obtain ⟨saved, hSome⟩ := Option.isSome_iff_exists.mp (hNext hFile)
      exact ⟨(relative, saved), by rw [hSaved, hSome]; rfl⟩
    rw [hSaved] at hEntry
    obtain ⟨saved, hSome, rfl⟩ := Option.map_eq_some_iff.mp hEntry
    exact hEntries saved hSome
  obtain ⟨hFiles, hSaved⟩ := hOut hPath
  have hUnsaved : lookup Prod.fst c.saved relative = none :=
    Option.eq_none_iff_forall_ne_some.mpr fun _ hEntry => hPath (mem_paths_of_lookup hEntry)
  have hFind : request.find relative = none :=
    Option.eq_none_iff_forall_ne_some.mpr fun _ hFile => hPath (mem_paths_of_find hFile)
  refine ⟨?_, fun ⟨file, hFile⟩ => ?_, fun entry hEntry => ?_⟩
  · rw [Renders, hFind, hFiles]
    exact h.unsaved hUnsaved
  · rw [hFind] at hFile
    cases hFile
  · rw [hSaved] at hEntry
    cases hEntry

theorem configured_next {s : Checkout × Request} (e : Env × Request) (hBlob : blob relative = .ok original)
    (h : Configured sha256 s.2 relative original s.1) :
    Configured sha256 ((system sha256 blob).next s e).2 relative original ((system sha256 blob).next s e).1 := by
  cases hConfigure : Configuration.configure sha256 blob e.1 s.1 e.2 with
  | error message => simpa [system, configureUpstreamSource, hConfigure, Except.toBool] using h
  | ok next => simpa [system, configureUpstreamSource, hConfigure, Except.toBool] using h.configure hBlob hConfigure

/-- After any calls on a clean checkout, every tracked file is its blob or what the last applied request makes of it. -/
theorem configured_by_last (sha256 : Bytes → Text) (blob : Text → Except String Bytes) (s : Checkout × Request)
    (hReach : (system sha256 blob).Reachable (fun _ _ => True) s) (relative : Text) (original : Bytes)
    (hBlob : blob relative = .ok original) : Renders s.2 relative original (s.1.files relative) := by
  refine (hReach.invariant (I := fun s => Configured sha256 s.2 relative original s.1) ?_
    fun _ e h _ _ => configured_next e hBlob h).renders
  rintro s ⟨hFiles, hSaved, hReq⟩
  have hNone : s.2.find relative = none := by rw [hReq]; rfl
  refine ⟨?_, fun ⟨file, hFile⟩ => ?_, fun entry hEntry => ?_⟩
  · rw [Renders, hNone]
    exact hFiles relative original hBlob
  · rw [hNone] at hFile
    cases hFile
  · rw [hSaved] at hEntry
    cases hEntry

/-- The SHA-256 of the two texts that the file has. -/
def sampleHash : Bytes → Text
  | [97] => "ca978112ca1bbdcafac231b39a23dc4da786eff8147c4e72b9807785afee48bb".toList
  | [97, 120] => "5e85370e555e95d27df68f93c0ccaa4edfc1da5e281b47a2ebba2649a13ea5f4".toList
  | _ => []

def sampleBlob (relative : Text) : Except String Bytes := if relative = ['a'] then .ok [97] else .error "not tracked"

def calm : Env := ⟨none, fun _ => none, Merge.plainEnv, none⟩

def insertion : Request := ⟨[], [{ sampleFile [⟨1, 1, [120]⟩] with sha256 := sampleHash [97] }]⟩

def clean : Checkout × Request := (⟨fun relative => (sampleBlob relative).toOption, []⟩, ⟨[], []⟩)

theorem configured_by_last_omitted :
    ((system sampleHash sampleBlob).exec clean [(calm, insertion)]).1.files ['a'] = some [97, 120] ∧
    Renders ⟨[], []⟩ ['a'] [97]
      (((system sampleHash sampleBlob).exec clean [(calm, insertion), (calm, ⟨[], []⟩)]).1.files ['a']) := by
  have hClean : (system sampleHash sampleBlob).init clean := ⟨fun _ _ h => congrArg Except.toOption h, rfl, rfl⟩
  have hCalls : (system sampleHash sampleBlob).Allowed (fun _ _ => True) clean [(calm, insertion), (calm, ⟨[], []⟩)] :=
    ⟨⟨trivial, trivial⟩, ⟨trivial, trivial⟩, trivial⟩
  exact ⟨rfl, configured_by_last sampleHash sampleBlob _ (.of_allowed hClean hCalls) ['a'] [97] rfl⟩

end LocalModelWorks.Upstream.Configuration
