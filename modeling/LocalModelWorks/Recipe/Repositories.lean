import Mathlib.Data.Char
import Mathlib.Data.List.Lex
import LocalModelWorks.Downloads.Resource
import LocalModelWorks.Transition

/-!
# Repositories of the library

A repository row points at the version that is current, and of the versions of a commit one is
canonical. Each call is one transaction over the two tables, so one that fails changes nothing.
The version rows refer to recipes by a foreign key, and the join with `recipes` drops none of them.
-/

namespace LocalModelWorks.Recipe.Repositories

open List Transition

structure Repository where
  id : Text
  url : Text
  path : Text
  procedure : Text
  trackingRef : Text
  current : Option Text
  createdAt : Text
  updatedAt : Text
  deriving DecidableEq

structure Version where
  repository : Text
  digest : Text
  commit : Text
  tree : Option Text
  canonical : Bool
  installedAt : Text
  deriving DecidableEq

structure State where
  repositories : List Repository
  versions : List Version
  deriving DecidableEq

/-- `RepositoryIdentity`: an id with the normal forms of URL and path, for which it stands with the procedure. -/
structure Naming where
  identity : Source → Except String (Text × Text × Text)
  injective {source source' : Source} {place place' : Text × Text × Text} : identity source = .ok place →
    identity source' = .ok place' → place.1 = place'.1 → place = place' ∧ source.procedure = source'.procedure

inductive Error
  | identity (message : String)
  | revision (given : Text)
  | noRows
  | belongsTo (repository : Text)

def Repository.triple (r : Repository) : Text × Text × Text := (r.url, r.path, r.procedure)

def Naming.Names (naming : Naming) (r : Repository) : Prop :=
  ∃ source, naming.identity source = .ok (r.id, r.url, r.path) ∧ source.procedure = r.procedure

def Version.key (v : Version) : Text × Text := (v.repository, v.digest)

def nullableString (value : Text) : Option Text := if value = [] then none else some value

section Statements

variable (id commit digest now : Text) (s : State)

/-- The conflict is on the triple; of a row that is there only the time changes. -/
def upsertRepository (r : Repository) : State :=
  { s with repositories :=
      if s.repositories.any (·.triple = r.triple) then
        s.repositories.map fun q => if q.triple = r.triple then { q with updatedAt := r.updatedAt } else q
      else s.repositories ++ [r] }

def demote (v : Version) : Version :=
  if v.repository = id ∧ v.commit = commit ∧ v.canonical then { v with canonical := false } else v

def clearCanonical : State := { s with versions := s.versions.map (demote id commit) }

def putVersion (v : Version) (versions : List Version) : List Version :=
  if versions.any (·.key = v.key) then versions.map fun w => if w.key = v.key then v else w
  else versions ++ [v]

def attachVersion (v : Version) : State := { s with versions := putVersion v s.versions }

def setCurrent (current : Option Text) : State :=
  { s with repositories :=
      s.repositories.map fun r => if r.id = id then { r with current := current, updatedAt := now } else r }

def promote (v : Version) : Version :=
  if v.repository = id ∧ v.digest = digest then { v with canonical := true } else v

def setCanonical : State := { s with versions := s.versions.map (promote id digest) }

def deleteVersions : State := { s with versions := s.versions.filter (·.digest ≠ digest) }

/-- The versions go with their repository. -/
def deleteRepository : State :=
  ⟨s.repositories.filter (·.id ≠ id), s.versions.filter (·.repository ≠ id)⟩

/-- The latest installed first. -/
def listVersions : List Version :=
  (s.versions.filter (·.repository = id)).insertionSort fun v w =>
    w.installedAt < v.installedAt ∨ w.installedAt = v.installedAt ∧ w.digest ≤ v.digest

end Statements

section Calls

variable (naming : Naming) (s : State)

def attachRepositoryVersion (source : Option Source) (digest tree installedAt trackingRef now : Text) : Except Error State :=
  match source with
  | none => .ok s
  | some source =>
    if source.url = [] ∨ source.revision = [] then .ok s
    else do
      let (id, url, path) ← (naming.identity source).mapError Error.identity
      let commit := source.revision.map Char.toLower
      if !Downloads.isRevision commit then .error (.revision source.revision)
      else
        let installed := if installedAt = [] then now else installedAt
        let tracking := if trackingRef = [] then "HEAD".toList else trackingRef
        let s := upsertRepository s ⟨id, url, path, source.procedure, tracking, none, installed, now⟩
        let s := clearCanonical id commit s
        let s := attachVersion s ⟨id, digest, commit, nullableString tree, true, installed⟩
        pure (setCurrent id now s (nullableString digest))

/-- A commit that lost its canonical version gets the latest of those that are left. -/
def keepCanonical (id commit : Text) (remaining : List Version) : State :=
  if remaining.any fun v => v.commit = commit && v.canonical then s
  else
    match remaining.find? (·.commit = commit) with
    | none => s
    | some v => setCanonical id v.digest s

/-- The next current version is looked for in the rows as they were read, before one is made canonical. -/
def detachRepositoryVersion (digest now : Text) : Except Error State :=
  match s.versions.find? (·.digest = digest) with
  | none => .ok s
  | some link =>
    match s.repositories.find? (·.id = link.repository) with
    | none => .error .noRows
    | some repository =>
      let wasCurrent := repository.current = some digest
      let s := if wasCurrent then setCurrent repository.id now s none else s
      let s := deleteVersions digest s
      match listVersions repository.id s with
      | [] => .ok (deleteRepository repository.id s)
      | first :: rest =>
        let remaining := first :: rest
        let s := keepCanonical s repository.id link.commit remaining
        if wasCurrent then
          let next := (remaining.find? (·.canonical)).getD first
          .ok (setCurrent repository.id now s (nullableString next.digest))
        else .ok s

def activateRepositoryVersion (repositoryID digest now : Text) : Except Error State :=
  match s.versions.find? (·.digest = digest) with
  | none => .error .noRows
  | some version =>
    if version.repository ≠ repositoryID then .error (.belongsTo version.repository)
    else .ok (setCurrent repositoryID now s (nullableString digest))

end Calls

inductive Call
  | attach (digest tree installedAt trackingRef now : Text)
  | detach (digest now : Text)
  | activate (repositoryID digest now : Text)

def Call.digest : Call → Text
  | attach digest .. => digest
  | detach digest _ => digest
  | activate _ digest _ => digest

variable (naming : Naming) (catalog : Text → Option Source)

def call (s : State) : Call → Except Error State
  | .attach digest tree installedAt trackingRef now =>
    attachRepositoryVersion naming s (catalog digest) digest tree installedAt trackingRef now
  | .detach digest now => detachRepositoryVersion s digest now
  | .activate repositoryID digest now => activateRepositoryVersion s repositoryID digest now

/-- `catalog` has the source that the manifest of a digest names. -/
def system : System State Call where
  init s := s = ⟨[], []⟩
  enabled _ c := c.digest ≠ []
  next s c := (call naming catalog s c).toOption.getD s

def Version.Beside (v w : Version) : Prop := v.repository = w.repository ∧ v.commit = w.commit

def HasVersion (versions : List Version) (id digest : Text) : Prop := ∃ v ∈ versions, v.key = (id, digest)

def OneCanonical (versions : List Version) : Prop :=
  ∀ v ∈ versions, ∃! w, w ∈ versions ∧ w.Beside v ∧ w.canonical = true

structure State.Consistent (s : State) : Prop where
  keys : (s.versions.map Version.key).Nodup
  current : ∀ r ∈ s.repositories, ∃ digest, r.current = some digest ∧ HasVersion s.versions r.id digest
  canonical : OneCanonical s.versions

/-- A version stands where the manifest of its digest says. -/
def Version.Fits (v : Version) : Prop :=
  v.digest ≠ [] ∧ ∃ source, catalog v.digest = some source ∧ v.commit = source.revision.map Char.toLower ∧
    ∃ place, naming.identity source = .ok (v.repository, place)

/-- What holds between the statements of a call too, where the pointer of one repository may be unset. -/
structure Kept (unset : Option Text) (s : State) : Prop where
  keys : (s.versions.map Version.key).Nodup
  current : ∀ r ∈ s.repositories, some r.id ≠ unset →
    ∃ digest, r.current = some digest ∧ HasVersion s.versions r.id digest
  canonical : OneCanonical s.versions
  ids : (s.repositories.map Repository.id).Nodup
  named : ∀ r ∈ s.repositories, naming.Names r
  fits : ∀ v ∈ s.versions, v.Fits naming catalog

variable {naming catalog} {s t : State} {v w : Version} {versions : List Version} {id commit digest now : Text}

section Rows

@[simp] theorem demote_key : (demote id commit v).key = v.key := by
  unfold demote
  split <;> rfl

@[simp] theorem demote_commit : (demote id commit v).commit = v.commit := by
  unfold demote
  split <;> rfl

@[simp] theorem promote_key : (promote id digest v).key = v.key := by
  unfold promote
  split <;> rfl

@[simp] theorem promote_commit : (promote id digest v).commit = v.commit := by
  unfold promote
  split <;> rfl

theorem mem_putVersion : w ∈ putVersion v versions ↔ w = v ∨ w ∈ versions ∧ w.key ≠ v.key := by
  unfold putVersion
  split
  next hAny =>
    obtain ⟨old, hOld, hKey⟩ := any_eq_true.mp hAny
    rw [mem_map]
    grind
  next hNone =>
    have hFresh : ∀ u ∈ versions, u.key ≠ v.key := by simpa using hNone
    rw [mem_append, mem_singleton]
    grind

theorem map_key {f : Version → Version} (hKey : ∀ v, (f v).key = v.key) :
    (versions.map f).map Version.key = versions.map Version.key := by
  rw [map_map]
  exact map_congr_left fun v _ => hKey v

theorem keys_putVersion (h : (versions.map Version.key).Nodup) : ((putVersion v versions).map Version.key).Nodup := by
  unfold putVersion
  split
  · rwa [map_key]
    intro w
    split
    next hKey => exact hKey.symm
    · rfl
  next hNone =>
    rw [map_append, map_singleton, nodup_append]
    refine ⟨h, nodup_singleton _, ?_⟩
    rintro key hKey _ hLast rfl
    obtain ⟨w, hw, rfl⟩ := mem_map.mp hKey
    exact hNone (any_eq_true.mpr ⟨w, hw, decide_eq_true (mem_singleton.mp hLast)⟩)

theorem hasVersion_map {f : Version → Version} (hKey : ∀ v, (f v).key = v.key) (h : HasVersion versions id digest) :
    HasVersion (versions.map f) id digest := by
  obtain ⟨v, hv, hAt⟩ := h
  exact ⟨f v, mem_map_of_mem hv, (hKey v).trans hAt⟩

theorem hasVersion_putVersion (h : HasVersion versions id digest) : HasVersion (putVersion v versions) id digest := by
  obtain ⟨w, hw, hAt⟩ := h
  by_cases hKey : w.key = v.key
  · exact ⟨v, mem_putVersion.mpr (.inl rfl), hKey ▸ hAt⟩
  · exact ⟨w, mem_putVersion.mpr (.inr ⟨hw, hKey⟩), hAt⟩

/-- The rows beside a new canonical one are demoted, and no other commit loses a row. -/
theorem oneCanonical_attach (h : OneCanonical versions) (hNew : v.canonical = true)
    (hOld : ∀ w ∈ versions, w.key = v.key → w.Beside v) :
    OneCanonical (putVersion v (versions.map (demote v.repository v.commit))) := by
  have hMem : ∀ u, u ∈ putVersion v (versions.map (demote v.repository v.commit)) ↔
      u = v ∨ ∃ x ∈ versions, x.key ≠ v.key ∧ u = demote v.repository v.commit x := by
    intro u
    rw [mem_putVersion]
    grind [demote_key]
  intro w hw
  -- beside the new row it is the only one left; the rows of other commits keep their flags
  by_cases hBeside : w.Beside v
  · refine ⟨v, ⟨(hMem v).mpr (.inl rfl), ⟨hBeside.1.symm, hBeside.2.symm⟩, hNew⟩, ?_⟩
    grind [Version.Beside, demote]
  · obtain ⟨x, hx, hKey, rfl⟩ := ((hMem w).mp hw).resolve_left fun hSame => hBeside (hSame ▸ ⟨rfl, rfl⟩)
    obtain ⟨u, ⟨hu, hAt, hCanonical⟩, hOnly⟩ := h x hx
    refine ⟨u, ⟨(hMem u).mpr (.inr ⟨u, hu, ?_, ?_⟩), ?_, hCanonical⟩, ?_⟩ <;> grind [Version.Beside, demote]

theorem mem_listVersions : v ∈ listVersions id s ↔ v ∈ s.versions ∧ v.repository = id := by
  rw [listVersions, mem_insertionSort, mem_filter, decide_eq_true_eq]

theorem keepCanonical_repositories {remaining : List Version} :
    (keepCanonical s id commit remaining).repositories = s.repositories := by
  unfold keepCanonical
  split
  · rfl
  split <;> rfl

theorem keepCanonical_versions {remaining : List Version} : ∃ f, (∀ v, (f v).key = v.key) ∧
    (∀ v, (f v).commit = v.commit) ∧ (keepCanonical s id commit remaining).versions = s.versions.map f := by
  unfold keepCanonical
  split
  · exact ⟨fun v => v, fun _ => rfl, fun _ => rfl, (map_id' _).symm⟩
  split
  · exact ⟨fun v => v, fun _ => rfl, fun _ => rfl, (map_id' _).symm⟩
  · exact ⟨_, fun _ => promote_key, fun _ => promote_commit, rfl⟩

/-- The commit of the row that goes has another canonical one, or the first that is left becomes it. -/
theorem oneCanonical_keepCanonical {link : Version} (hKeys : (s.versions.map Version.key).Nodup)
    (h : OneCanonical s.versions) (hLink : link ∈ s.versions)
    (hOnly : ∀ w ∈ s.versions, w.digest = digest → w = link) {remaining : List Version}
    (hLeft : ∀ v, v ∈ remaining ↔ (v ∈ s.versions ∧ v.digest ≠ digest) ∧ v.repository = link.repository) :
    OneCanonical (keepCanonical (deleteVersions digest s) link.repository link.commit remaining).versions := by
  have hMem : ∀ v, v ∈ (deleteVersions digest s).versions ↔ v ∈ s.versions ∧ v.digest ≠ digest := by
    simp [deleteVersions]
  unfold keepCanonical
  split
  next hAny =>
    intro v hv
    obtain ⟨w, hw, hUnique⟩ := h v ((hMem v).mp hv).1
    refine ⟨w, ?_, ?_⟩ <;> grind [Version.Beside]
  next hNone =>
    split
    next hFind =>
      intro v hv
      obtain ⟨w, hw, hUnique⟩ := h v ((hMem v).mp hv).1
      refine ⟨w, ?_, ?_⟩ <;> grind [Version.Beside]
    next x hFind =>
      have hx := (hLeft x).mp (mem_of_find?_eq_some hFind)
      have hSame : ∀ v ∈ s.versions, v.key = x.key → v = x := fun v hv => inj_on_of_nodup_map hKeys hv hx.1.1
      have hCommit : x.commit = link.commit := by simpa using find?_some hFind
      intro v' hv'
      obtain ⟨v, hv, rfl⟩ := mem_map.mp hv'
      -- the row that goes was the canonical one of its commit, so beside it only the promoted row is
      by_cases hBeside : v.Beside link
      · refine ⟨promote link.repository x.digest x, ⟨mem_map_of_mem ((hMem x).mpr hx.1), ?_, ?_⟩, ?_⟩ <;>
          grind [Version.Beside, promote, Version.key, setCanonical]
      · obtain ⟨w, hw, hUnique⟩ := h v ((hMem v).mp hv).1
        refine ⟨promote link.repository x.digest w, ⟨mem_map_of_mem ((hMem w).mpr ?_), ?_, ?_⟩, ?_⟩ <;>
          grind [Version.Beside, promote, Version.key, setCanonical]

end Rows

section Kept

variable {unset unset' current : Option Text} {r : Repository}

theorem Version.Fits.beside (hv : v.Fits naming catalog) (hw : w.Fits naming catalog) (hDigest : v.digest = w.digest) :
    v.Beside w := by
  obtain ⟨-, source, hSource, hCommit, place, hPlace⟩ := hv
  obtain ⟨-, source', hSource', hCommit', place', hPlace'⟩ := hw
  obtain rfl := Option.some.inj (hSource.symm.trans (hDigest ▸ hSource'))
  exact ⟨(Prod.mk.inj (Except.ok.inj (hPlace.symm.trans hPlace'))).1, hCommit.trans hCommit'.symm⟩

theorem Version.Fits.congr (h : v.Fits naming catalog) (hKey : w.key = v.key) (hCommit : w.commit = v.commit) :
    w.Fits naming catalog := by
  obtain ⟨hRepository, hDigest⟩ := Prod.mk.inj hKey
  rw [Version.Fits, hRepository, hDigest, hCommit]
  exact h

theorem Naming.Names.triple_eq {q : Repository} (hq : naming.Names q) (hr : naming.Names r) (hId : q.id = r.id) :
    q.triple = r.triple := by
  obtain ⟨source, hSource, hProcedure⟩ := hq
  obtain ⟨source', hSource', hProcedure'⟩ := hr
  obtain ⟨hPlace, hSame⟩ := naming.injective hSource hSource' hId
  obtain ⟨-, hUrl, hPath⟩ : _ ∧ _ ∧ _ := by simpa only [Prod.mk.injEq] using hPlace
  rw [Repository.triple, hUrl, hPath, ← hProcedure, hSame, hProcedure', Repository.triple]

theorem Kept.toUnset (h : Kept naming catalog none s) : Kept naming catalog (some id) s :=
  { h with current := fun r hr _ => h.current r hr nofun }

theorem Kept.mapRepositories (h : Kept naming catalog unset s) {f : Repository → Repository} (hId : ∀ r, (f r).id = r.id)
    (hTriple : ∀ r, (f r).triple = r.triple) (hCurrent : ∀ r ∈ s.repositories, some r.id ≠ unset' →
      ∃ digest, (f r).current = some digest ∧ HasVersion s.versions r.id digest) :
    Kept naming catalog unset' { s with repositories := s.repositories.map f } := by
  refine { h with current := ?_, ids := ?_, named := ?_ }
  · intro r' hr' hSet
    obtain ⟨r, hr, rfl⟩ := mem_map.mp hr'
    rw [hId] at hSet ⊢
    exact hCurrent r hr hSet
  · rw [map_map]
    exact (map_congr_left fun r _ => hId r) ▸ h.ids
  · intro r' hr'
    obtain ⟨r, hr, rfl⟩ := mem_map.mp hr'
    obtain ⟨hUrl, hPath, hProcedure⟩ : _ ∧ _ ∧ _ := by simpa only [Repository.triple, Prod.mk.injEq] using hTriple r
    rw [Naming.Names, hId, hUrl, hPath, hProcedure]
    exact h.named r hr

theorem Kept.setCurrent (h : Kept naming catalog (some id) s)
    (hCurrent : some id ≠ unset → ∃ digest, current = some digest ∧ HasVersion s.versions id digest) :
    Kept naming catalog unset (setCurrent id now s current) := by
  refine h.mapRepositories (fun r => ?_) (fun r => ?_) fun r hr hSet => ?_
  · split <;> rfl
  · split <;> rfl
  split
  next hId => exact hId ▸ hCurrent (hId ▸ hSet)
  next hId => exact h.current r hr fun hSame => hId (Option.some.inj hSame)

theorem Kept.upsertRepository (h : Kept naming catalog none s) (hName : naming.Names r) :
    Kept naming catalog (some r.id) (upsertRepository s r) := by
  unfold Repositories.upsertRepository
  split
  next hAny =>
    refine h.mapRepositories (fun q => ?_) (fun q => ?_) fun q hq _ => ?_
    · split <;> rfl
    · split <;> rfl
    · split
      · exact h.current q hq nofun
      · exact h.current q hq nofun
  next hNone =>
    refine { h with current := ?_, ids := ?_, named := ?_ }
    · intro q hq hOther
      rcases mem_append.mp hq with hOld | hNew
      · exact h.current q hOld nofun
      · exact absurd (congrArg (some ·.id) (mem_singleton.mp hNew)) hOther
    · rw [map_append, map_singleton, nodup_append]
      refine ⟨h.ids, nodup_singleton _, ?_⟩
      rintro _ hOld _ hNew rfl
      obtain ⟨q, hq, hId⟩ := mem_map.mp hOld
      have hTriple := (h.named q hq).triple_eq hName (hId.trans (mem_singleton.mp hNew))
      exact hNone (any_eq_true.mpr ⟨q, hq, decide_eq_true hTriple⟩)
    · intro q hq
      rcases mem_append.mp hq with hOld | hNew
      · exact h.named q hOld
      · exact mem_singleton.mp hNew ▸ hName

theorem Kept.attachVersion (h : Kept naming catalog unset s) (hFits : v.Fits naming catalog) (hNew : v.canonical = true) :
    Kept naming catalog unset (attachVersion (clearCanonical v.repository v.commit s) v) where
  keys := keys_putVersion ((map_key fun _ => demote_key).symm ▸ h.keys)
  current r hr hSet := by
    obtain ⟨digest, hCurrent, hHas⟩ := h.current r hr hSet
    exact ⟨digest, hCurrent, hasVersion_putVersion (hasVersion_map (fun _ => demote_key) hHas)⟩
  canonical := oneCanonical_attach h.canonical hNew fun w hw hKey =>
    (h.fits w hw).beside hFits (congrArg Prod.snd hKey)
  ids := h.ids
  named := h.named
  fits w hw := by
    rcases mem_putVersion.mp hw with rfl | ⟨hOld, -⟩
    · exact hFits
    obtain ⟨u, hu, rfl⟩ := mem_map.mp hOld
    exact (h.fits u hu).congr demote_key demote_commit

/-- Versions of one digest go, all of one repository, and the commits that lose their canonical one get another. -/
theorem Kept.deleteVersions (h : Kept naming catalog unset s) {link : Version} (hLink : link ∈ s.versions)
    (hDigest : link.digest = digest) (hCurrent : ∀ r ∈ s.repositories, some r.id ≠ unset → r.id = link.repository →
      r.current ≠ some digest) :
    Kept naming catalog unset (keepCanonical (deleteVersions digest s) link.repository link.commit
      (listVersions link.repository (deleteVersions digest s))) := by
  have hBeside : ∀ w ∈ s.versions, w.digest = digest → w.Beside link := fun w hw hGone =>
    (h.fits w hw).beside (h.fits link hLink) (hGone.trans hDigest.symm)
  have hOnly : ∀ w ∈ s.versions, w.digest = digest → w = link := fun w hw hGone =>
    inj_on_of_nodup_map h.keys hw hLink (Prod.ext (hBeside w hw hGone).1 (hGone.trans hDigest.symm))
  have hLeft : ∀ v, v ∈ listVersions link.repository (Repositories.deleteVersions digest s) ↔
      (v ∈ s.versions ∧ v.digest ≠ digest) ∧ v.repository = link.repository := fun v => by
    rw [mem_listVersions, Repositories.deleteVersions, mem_filter, decide_eq_true_eq]
  have hCanonical := oneCanonical_keepCanonical h.keys h.canonical hLink hOnly hLeft
  obtain ⟨f, hKey, hCommit, hVersions⟩ := @keepCanonical_versions (Repositories.deleteVersions digest s) link.repository link.commit
    (listVersions link.repository (Repositories.deleteVersions digest s))
  refine ⟨?_, ?_, hCanonical, ?_, ?_, ?_⟩
  · rw [hVersions, map_key hKey]
    exact h.keys.sublist (filter_sublist.map _)
  · rw [keepCanonical_repositories, hVersions]
    intro r hr hSet
    obtain ⟨d, hAt, v, hv, hvKey⟩ := h.current r hr hSet
    refine ⟨d, hAt, hasVersion_map hKey ⟨v, mem_filter.mpr ⟨hv, decide_eq_true fun hGone => ?_⟩, hvKey⟩⟩
    have hId : r.id = link.repository := (congrArg Prod.fst hvKey).symm.trans (hBeside v hv hGone).1
    exact hCurrent r hr hSet hId (hAt.trans (congrArg some ((congrArg Prod.snd hvKey).symm.trans hGone)))
  · rw [keepCanonical_repositories]
    exact h.ids
  · rw [keepCanonical_repositories]
    exact h.named
  · rw [hVersions]
    intro v' hv'
    obtain ⟨v, hv, rfl⟩ := mem_map.mp hv'
    exact (h.fits v (mem_filter.mp hv).1).congr (hKey v) (hCommit v)

theorem Kept.deleteRepository (h : Kept naming catalog (some id) s) (hNone : listVersions id s = []) :
    Kept naming catalog none (deleteRepository id s) := by
  have hAll : s.versions.filter (·.repository ≠ id) = s.versions := filter_eq_self.mpr fun v hv =>
    decide_eq_true fun hAt => not_mem_nil (hNone ▸ mem_listVersions.mpr ⟨hv, hAt⟩)
  unfold Repositories.deleteRepository
  rw [hAll]
  refine { h with current := ?_, ids := ?_, named := ?_ }
  · intro r hr _
    obtain ⟨hMem, hOther⟩ := mem_filter.mp hr
    exact h.current r hMem fun hSame => of_decide_eq_true hOther (Option.some.inj hSame)
  · exact h.ids.sublist (filter_sublist.map _)
  · exact fun r hr => h.named r (mem_filter.mp hr).1

end Kept

section Preserved

theorem nullableString_of_ne {value : Text} (h : value ≠ []) : nullableString value = some value := if_neg h

theorem Kept.attach {tree installedAt trackingRef : Text} (h : Kept naming catalog none s) (hDigest : digest ≠ [])
    (hCall : attachRepositoryVersion naming s (catalog digest) digest tree installedAt trackingRef now = .ok t) :
    Kept naming catalog none t := by
  unfold attachRepositoryVersion at hCall
  split at hCall
  · exact Except.ok.inj hCall ▸ h
  next source hSource =>
    split at hCall
    · exact Except.ok.inj hCall ▸ h
    cases hIdentity : naming.identity source with
    | error e =>
      rw [hIdentity] at hCall
      cases hCall
    | ok place =>
      obtain ⟨id, url, path⟩ := place
      rw [hIdentity] at hCall
      dsimp only [bind, Except.bind, Except.mapError] at hCall
      split at hCall
      · cases hCall
      rw [nullableString_of_ne hDigest] at hCall
      have hUpsert := Kept.upsertRepository (r := ⟨id, url, path, source.procedure,
        if trackingRef = [] then "HEAD".toList else trackingRef, none,
        if installedAt = [] then now else installedAt, now⟩) h ⟨source, hIdentity, rfl⟩
      have hAttach := hUpsert.attachVersion (v := ⟨id, digest, source.revision.map Char.toLower, nullableString tree, true,
        if installedAt = [] then now else installedAt⟩) ⟨hDigest, source, hSource, rfl, _, hIdentity⟩ rfl
      refine Except.ok.inj hCall ▸ hAttach.setCurrent fun _ => ⟨digest, rfl, _, mem_putVersion.mpr (.inl rfl), rfl⟩

theorem mem_of_pick {first : Version} (hFirst : first ∈ versions) : (versions.find? (·.canonical)).getD first ∈ versions := by
  cases hFound : versions.find? (·.canonical) with
  | none => exact hFirst
  | some v => exact mem_of_find?_eq_some hFound

theorem Kept.detach (h : Kept naming catalog none s) (hCall : detachRepositoryVersion s digest now = .ok t) :
    Kept naming catalog none t := by
  unfold detachRepositoryVersion at hCall
  split at hCall
  · exact Except.ok.inj hCall ▸ h
  next link hFind =>
  have hLink := mem_of_find?_eq_some hFind
  have hDigest : link.digest = digest := by simpa using find?_some hFind
  split at hCall
  · cases hCall
  next repository hRow =>
  have hMem := mem_of_find?_eq_some hRow
  have hId : repository.id = link.repository := by simpa using find?_some hRow
  rw [hId] at hCall
  by_cases hWas : repository.current = some digest
  · have hUnset : Kept naming catalog (some link.repository) (Repositories.setCurrent link.repository now s none) :=
      h.toUnset.setCurrent fun hNe => absurd rfl hNe
    have hLeft := hUnset.deleteVersions hLink hDigest fun r _ hOther hSame => absurd (congrArg some hSame) hOther
    simp only [if_pos hWas] at hCall
    split at hCall
    next hNone =>
      rw [hNone] at hLeft
      exact Except.ok.inj hCall ▸ hLeft.deleteRepository hNone
    next first rest hRemaining =>
      rw [← hRemaining] at hCall
      refine Except.ok.inj hCall ▸ hLeft.setCurrent fun _ => ?_
      have hNext := mem_of_pick (hRemaining ▸ mem_cons_self : first ∈ listVersions _ _)
      obtain ⟨hStays, hAt⟩ := mem_listVersions.mp hNext
      refine ⟨_, nullableString_of_ne (h.fits _ (mem_filter.mp hStays).1).1, ?_⟩
      obtain ⟨f, hKey, -, hVersions⟩ := keepCanonical_versions
      rw [hVersions]
      exact hasVersion_map hKey ⟨_, hStays, Prod.ext hAt rfl⟩
  · have hOther : ∀ r ∈ s.repositories, r.id = link.repository → r.current ≠ some digest := fun r hr hSame =>
      inj_on_of_nodup_map h.ids hr hMem (hSame.trans hId.symm) ▸ hWas
    have hLeft := h.deleteVersions hLink hDigest fun r hr _ => hOther r hr
    simp only [if_neg hWas] at hCall
    split at hCall
    next hNone =>
      rw [hNone] at hLeft
      exact Except.ok.inj hCall ▸ hLeft.toUnset.deleteRepository hNone
    next first rest hRemaining =>
      rw [← hRemaining] at hCall
      exact Except.ok.inj hCall ▸ hLeft

theorem Kept.activate (h : Kept naming catalog none s) (hDigest : digest ≠ [])
    (hCall : activateRepositoryVersion s id digest now = .ok t) : Kept naming catalog none t := by
  unfold activateRepositoryVersion at hCall
  split at hCall
  · cases hCall
  next version hFind =>
  split at hCall
  · cases hCall
  next hAt =>
  rw [nullableString_of_ne hDigest] at hCall
  refine Except.ok.inj hCall ▸ h.toUnset.setCurrent fun _ => ⟨digest, rfl, version, mem_of_find?_eq_some hFind, ?_⟩
  have hSame : version.digest = digest := by simpa using find?_some hFind
  exact Prod.ext (not_not.mp hAt) hSame

theorem Kept.next {c : Call} (h : Kept naming catalog none s) (hDigest : c.digest ≠ []) :
    Kept naming catalog none ((system naming catalog).next s c) := by
  change Kept naming catalog none ((call naming catalog s c).toOption.getD s)
  cases hCall : call naming catalog s c with
  | error e => exact h
  | ok t =>
    cases c with
    | attach => exact h.attach hDigest hCall
    | detach => exact h.detach hCall
    | activate => exact h.activate hDigest hCall

/-- After every sequence of calls each repository points at one of its versions, and each commit has one canonical one. -/
theorem repository_pointers_consistent (hReach : (system naming catalog).Reachable (fun _ _ => True) s) :
    s.Consistent := by
  have hKept : Kept naming catalog none s := by
    refine hReach.invariant (fun s hInit => ?_) fun s c h hDigest _ => h.next hDigest
    subst hInit
    exact ⟨nodup_nil, nofun, nofun, nodup_nil, nofun, nofun⟩
  exact ⟨hKept.keys, fun r hr => hKept.current r hr nofun, hKept.canonical⟩

end Preserved

def oneRepository : Naming where
  identity source := if source.procedure = [] then .ok (['r'], ['u'], ['.']) else .error "procedure"
  injective h h' _ := by
    split at h <;> split at h' <;> simp_all

/-- The second version is of the commit of the first. -/
def sampleCatalog (digest : Text) : Option Source :=
  some ⟨['u'], replicate 40 (if digest = ['3'] then 'b' else 'A'), [], []⟩

def sampleCalls : List Call :=
  [.attach ['1'] [] ['d'] [] ['t'], .attach ['2'] [] ['e'] [] ['t'], .attach ['3'] [] ['f'] [] ['t'],
    .activate ['r'] ['2'] ['t'], .detach ['2'] ['t']]

/-- The current version is taken out: the first one is canonical again, and the latest canonical one left is current. -/
theorem repository_pointers_consistent_detached :
    let s := (system oneRepository sampleCatalog).exec ⟨[], []⟩ sampleCalls
    s.repositories.map (·.current) = [some ['3']] ∧
      s.versions.map (fun v => (v.digest, v.canonical)) = [(['1'], true), (['3'], true)] ∧ s.Consistent := by
  refine ⟨by decide +kernel, by decide +kernel, ?_⟩
  refine @repository_pointers_consistent oneRepository sampleCatalog _ (System.Reachable.of_allowed rfl ?_)
  simp [System.Allowed, sampleCalls, system, Call.digest]

end LocalModelWorks.Recipe.Repositories
