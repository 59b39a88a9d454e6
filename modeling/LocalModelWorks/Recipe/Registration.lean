import LocalModelWorks.Downloads.Resource
import LocalModelWorks.Plan.RenderSpec

/-!
# Artifacts of a stored recipe

`storeReviewedPack` registers the sources of a new manifest as artifact rows, one for each
identity and revision that the variants of an artifact name. Planning looks a choice up by
its canonical identity, in which the type and the digest of the source count too.
-/

namespace LocalModelWorks.Recipe

open List

def sourceType : SourceType → Plan.SourceType
  | .huggingface => .huggingface
  | .oci => .oci
  | .file => .file

def ArtSource.canonical (s : ArtSource) : Except String Text :=
  Downloads.canonical (sourceType s.type) s.identity s.revision s.digest

def ArtSource.key (s : ArtSource) : Text := s.identity ++ '/' :: s.revision

/-- The sources that are registered: the first one under each key. -/
def Artifact.sources (a : Artifact) : List ArtSource :=
  if a.variants = [] then a.source.toList
  else (a.variants.map (·.source)).eraseDupsBy fun s t => s.key = t.key

namespace Registration

structure Row where
  id : Text
  identity : Text
  deriving DecidableEq

structure Store where
  recipes : List Text
  artifacts : List Row
  deriving DecidableEq

def hasRow (rows : List Row) (identity : Text) : Bool := rows.any fun r => r.identity = identity

/-- `INSERT OR IGNORE`: the id and the identity are both unique. -/
def createArtifact (rows : List Row) (id identity : Text) : List Row :=
  if (rows.any fun r => r.id = id) || hasRow rows identity then rows else rows ++ [⟨id, identity⟩]

section Store

variable (sha256 : Text → Text)

/-- The hash is given in hexadecimal, and its first eight bytes count. -/
def artifactID (identity : Text) : Text := "artifact-".toList ++ (sha256 identity).take 16

def create (rows : List Row) (identity : Text) : List Row := createArtifact rows (artifactID sha256 identity) identity

def registerSource (name : Text) (rows : List Row) (s : ArtSource) : Except String (List Row) :=
  match s.canonical with
  | .error e => .error ("artifact " ++ String.ofList name ++ ": " ++ e)
  | .ok identity => .ok (create sha256 rows identity)

def registerArtifact (rows : List Row) (a : Artifact) : Except String (List Row) :=
  a.sources.foldlM (registerSource sha256 a.name) rows

def package (digest : Text) : Text := "recipe://".toList ++ digest

def storeReviewedPack (checks : Checks) (store : Store) (digest : Text) (m : Manifest) : Except String Store :=
  match semanticDiagnostics checks m with
  | d :: _ => .error ("recipe validation: " ++ d.message)
  | [] =>
    if store.recipes.contains digest then .ok store
    else
      match m.artifacts.foldlM (registerArtifact sha256) (create sha256 store.artifacts (package digest)) with
      | .error e => .error e
      | .ok rows => .ok ⟨digest :: store.recipes, rows⟩

end Store

/-- What planning computes for a choice. -/
def planned (a : Artifact) (choice : Text) : Option Text :=
  match a.effectiveSource choice with
  | .error _ => none
  | .ok source => source.canonical.toOption

/-- The identities that planning computes for the variants of the artifacts, and without a choice. -/
def choices (m : Manifest) : List Text := m.artifacts.flatMap fun a =>
  ([] :: a.variants.map (·.name)).filterMap (planned a)

def offered (digest : Text) (m : Manifest) : List Text :=
  package digest :: m.artifacts.flatMap fun a => a.sources.flatMap fun s => s.canonical.toOption.toList

variable {sha256 : Text → Text} {checks : Checks} {rows rows' : List Row} {store store' : Store} {digest x : Text}
  {m : Manifest}

/-- The identity has a row, or gets one: the recipe is new, no row has the id, and of the identities without a row that
the recipe offers this is the first one with the id. -/
def Covered (sha256 : Text → Text) (store : Store) (digest : Text) (m : Manifest) (x : Text) : Prop :=
  hasRow store.artifacts x = true ∨ digest ∉ store.recipes ∧
    (∀ r ∈ store.artifacts, r.id ≠ artifactID sha256 x) ∧ (offered digest m).find? (fun y =>
      !hasRow store.artifacts y && artifactID sha256 y = artifactID sha256 x) = some x

theorem foldlM_ok {α β γ : Type} {f : β → α → Except String β} {g : α → List γ} {step : β → γ → β}
    (hStep : ∀ b a b', f b a = .ok b' → b' = (g a).foldl step b) {as : List α} {b b' : β}
    (h : as.foldlM f b = .ok b') : b' = (as.flatMap g).foldl step b := by
  induction as generalizing b with
  | nil =>
    cases h
    rfl
  | cons a as ih =>
    rw [foldlM_cons] at h
    cases hHead : f b a with
    | error e =>
      rw [hHead] at h
      cases h
    | ok mid =>
      rw [hHead] at h
      rw [flatMap_cons, foldl_append, ← hStep b a mid hHead]
      exact ih h

theorem registerArtifact_ok {a : Artifact} (h : registerArtifact sha256 rows a = .ok rows') :
    rows' = (a.sources.flatMap fun s => s.canonical.toOption.toList).foldl (create sha256) rows := by
  refine foldlM_ok (fun rows s rows' hSource => ?_) h
  unfold registerSource at hSource
  split at hSource
  · cases hSource
  next identity hIdentity =>
    cases hSource
    rw [hIdentity]
    rfl

theorem storeReviewedPack_ok (h : storeReviewedPack sha256 checks store digest m = .ok store') :
    digest ∈ store.recipes ∧ store' = store ∨
      digest ∉ store.recipes ∧ store'.artifacts = (offered digest m).foldl (create sha256) store.artifacts := by
  unfold storeReviewedPack at h
  split at h
  · cases h
  split at h
  next hKnown =>
    cases h
    exact .inl ⟨by simpa using hKnown, rfl⟩
  next hNew =>
    split at h
    · cases h
    next rows hRows =>
      cases h
      refine .inr ⟨by simpa using hNew, ?_⟩
      exact foldlM_ok (fun rows a rows' (hRow : registerArtifact sha256 rows a = .ok rows') => registerArtifact_ok hRow)
        hRows

theorem hasRow_append (row : Row) : hasRow (rows ++ [row]) x = (hasRow rows x || row.identity = x) := by
  simp [hasRow]

theorem hasRow_foldl (offers : List Text) : hasRow (offers.foldl (create sha256) rows) x = true ↔
    hasRow rows x = true ∨ (∀ r ∈ rows, r.id ≠ artifactID sha256 x) ∧
      offers.find? (fun y => !hasRow rows y && artifactID sha256 y = artifactID sha256 x) = some x := by
  induction offers generalizing rows with
  | nil => simp
  | cons y offers ih =>
    rw [foldl_cons, ih, create, createArtifact]
    by_cases hSame : artifactID sha256 y = artifactID sha256 x
    · split
      next hTaken =>
        by_cases hRow : hasRow rows y = true
        · rw [find?_cons_of_neg (by simp [hRow])]
        · have hID : ¬∀ r ∈ rows, r.id ≠ artifactID sha256 x := by simpa [hRow, hSame] using hTaken
          simp only [hID, false_and]
      next hFree =>
        obtain ⟨hID, hRow⟩ : (∀ r ∈ rows, r.id ≠ artifactID sha256 x) ∧ hasRow rows y = false := by
          simpa [hSame] using hFree
        rw [find?_cons_of_pos (by simp [hRow, hSame]), and_iff_right hID, hasRow_append, forall_mem_append,
          forall_mem_singleton]
        simp [hSame]
    · rw [find?_cons_of_neg (by simp [hSame])]
      split
      · rfl
      have hNe : y ≠ x := fun hEq => hSame (hEq ▸ rfl)
      have hOther : ∀ z, (!hasRow (rows ++ [⟨artifactID sha256 y, y⟩]) z && artifactID sha256 z = artifactID sha256 x) =
          (!hasRow rows z && artifactID sha256 z = artifactID sha256 x) := by
        intro z
        by_cases hz : y = z
        · simp [← hz, hSame]
        · simp [hasRow_append, hz]
      rw [hasRow_append, forall_mem_append, forall_mem_singleton]
      simp [hOther, hSame, hNe]

theorem variants_registered_iff (h : storeReviewedPack sha256 checks store digest m = .ok store') :
    (∀ x ∈ choices m, hasRow store'.artifacts x = true) ↔ ∀ x ∈ choices m, Covered sha256 store digest m x := by
  refine forall₂_congr fun x _ => ?_
  rcases storeReviewedPack_ok h with ⟨hKnown, rfl⟩ | ⟨hNew, hRows⟩
  · simp [Covered, hKnown]
  · rw [hRows, hasRow_foldl]
    simp [Covered, hNew]

def ociVariant (name repository : String) (digit : Char) : ArtVariant :=
  ⟨name.toList, .oci, repository.toList, [], "sha256:".toList ++ replicate 64 digit⟩

def variantManifest (variants : List ArtVariant) : Manifest :=
  ⟨none, ⟨1, none, none⟩, [⟨['a'], none, ['x'], variants, ['/', 'm']⟩], [], [], [], none, none⟩

theorem variants_registered_repositories :
    let m := variantManifest [ociVariant "x" "r/m" '0', ociVariant "y" "s/m" '1']
    ∃ store', storeReviewedPack id Plan.sampleChecks ⟨[], []⟩ [] m = .ok store' ∧
      ∀ x ∈ choices m, hasRow store'.artifacts x = true := by
  intro m
  have hStored : storeReviewedPack id Plan.sampleChecks ⟨[], []⟩ [] m = .ok _ := rfl
  refine ⟨_, hStored, (variants_registered_iff hStored).mpr ?_⟩
  unfold Covered
  decide +kernel

theorem second_digest_unregistered : ¬ ∀ (sha256 : Text → Text) (checks : Checks) (store store' : Store)
    (digest : Text) (m : Manifest), storeReviewedPack sha256 checks store digest m = .ok store' →
      ∀ x ∈ choices m, hasRow store'.artifacts x = true := by
  intro h
  have hRows := h id Plan.sampleChecks ⟨[], []⟩ _ []
    (variantManifest [ociVariant "x" "r/m" '0', ociVariant "y" "r/m" '1']) rfl
  exact absurd hRows (by decide +kernel)

end Registration

end LocalModelWorks.Recipe
