import Mathlib.Data.List.Basic

/-!
# File trees with symbolic links

A location is the list of names from an entry up to the root directory, so the parent of
`name :: dir` is `dir`.
-/

namespace LocalModelWorks

inductive Component (ν : Type)
  | here
  | up
  | name (n : ν)
  deriving DecidableEq

structure LinkTarget (ν : Type) where
  absolute : Bool
  components : List (Component ν)
  deriving DecidableEq

inductive FileKind (ν : Type)
  | directory
  | file
  | link (target : LinkTarget ν)
  deriving DecidableEq

structure FileTree (ν : Type) where
  kind : List ν → Option (FileKind ν)
  root : kind [] = some .directory
  parent : ∀ name dir, kind (name :: dir) ≠ none → kind dir = some .directory

namespace FileTree

def ofEntries {ν : Type} [DecidableEq ν] (entries : List (List ν × FileKind ν))
    (hRoot : entries.lookup [] = some .directory)
    (hParent : ∀ entry ∈ entries, entry.1 ≠ [] → entries.lookup entry.1.tail = some .directory) : FileTree ν where
  kind location := entries.lookup location
  root := hRoot
  parent name dir hSome := by
    obtain ⟨kind, hKind⟩ := Option.ne_none_iff_exists'.mp hSome
    obtain ⟨before, after, hEntries, _⟩ := List.lookup_eq_some_iff.mp hKind
    exact hParent (name :: dir, kind) (by simp [hEntries]) (List.cons_ne_nil _ _)

theorem kind_ofEntries_eq_none {ν : Type} [DecidableEq ν] {entries : List (List ν × FileKind ν)}
    (hRoot : entries.lookup [] = some .directory)
    (hParent : ∀ entry ∈ entries, entry.1 ≠ [] → entries.lookup entry.1.tail = some .directory) {location : List ν}
    (h : ∀ entry ∈ entries, entry.1 ≠ location) : (ofEntries entries hRoot hParent).kind location = none := by
  refine List.lookup_eq_none_iff.mpr fun entry hEntry => ?_
  exact bne_iff_ne.mpr (h entry hEntry).symm

variable {ν : Type} (t : FileTree ν)

inductive Walk (ν : Type)
  | found (location : List ν)
  | missing (location : List ν) (rest : List (Component ν))
  | notDirectory
  | link (target : LinkTarget ν) (dir : List ν) (rest : List (Component ν))
  deriving DecidableEq

def walk : List (Component ν) → List ν → Walk ν
  | [], dir => .found dir
  | .here :: rest, dir => walk rest dir
  | .up :: rest, dir => walk rest dir.tail
  | .name n :: rest, dir =>
    match t.kind (n :: dir), rest with
    | none, rest => .missing (n :: dir) rest
    | some (.link target), rest => .link target dir rest
    | some .file, [] => .found (n :: dir)
    | some .file, _ :: _ => .notDirectory
    | some .directory, rest => walk rest (n :: dir)

inductive End (ν : Type)
  | found (location : List ν)
  | missing (location : List ν) (rest : List (Component ν))
  | notDirectory
  | tooManyLinks
  deriving DecidableEq

def LinkTarget.start {ν : Type} (target : LinkTarget ν) (dir : List ν) : List ν := if target.absolute then [] else dir

def follow : Nat → List (Component ν) → List ν → End ν
  | links, path, dir =>
    match t.walk path dir with
    | .found location => .found location
    | .missing location rest => .missing location rest
    | .notDirectory => .notDirectory
    | .link target dir rest =>
      match links with
      | 0 => .tooManyLinks
      | links + 1 => follow links (target.components ++ rest) (LinkTarget.start target dir)

def absolutePath (location : List ν) : List (Component ν) := (location.map Component.name).reverse

variable {t} {path rest : List (Component ν)} {dir location : List ν}

theorem parent_directory (hDir : t.kind dir = some .directory) : t.kind dir.tail = some .directory := by
  cases dir with
  | nil => exact hDir
  | cons name dir => exact t.parent name dir (by simp [hDir])

def Walk.append (t : FileTree ν) : Walk ν → List (Component ν) → Walk ν
  | .found location, [] => .found location
  | .found location, more@(_ :: _) =>
    match t.kind location with
    | some .file => .notDirectory
    | _ => t.walk more location
  | .missing location left, more => .missing location (left ++ more)
  | .notDirectory, _ => .notDirectory
  | .link target dir left, more => .link target dir (left ++ more)

theorem walk_append (hDir : t.kind dir = some .directory) :
    t.walk (path ++ rest) dir = (t.walk path dir).append t rest := by
  fun_induction walk t path dir with
  | case1 dir =>
    cases rest with
    | nil => rfl
    | cons component rest => simp [Walk.append, hDir]
  | case2 path dir ih => exact ih hDir
  | case3 path dir ih => exact ih (parent_directory hDir)
  | case4 n dir path hKind => simp [walk, hKind, Walk.append]
  | case5 n dir target path hKind => simp [walk, hKind, Walk.append]
  | case6 n dir hKind => cases rest <;> simp [walk, hKind, Walk.append]
  | case7 n dir next path hKind => simp [walk, hKind, Walk.append]
  | case8 n dir path hKind ih => simpa [walk, hKind] using ih hKind

def Walk.Exists (t : FileTree ν) : Walk ν → Prop
  | .found location => t.kind location = some .directory ∨ t.kind location = some .file
  | .missing _ _ => True
  | .notDirectory => True
  | .link _ dir _ => t.kind dir = some .directory

theorem walk_exists (path : List (Component ν)) (hDir : t.kind dir = some .directory) : (t.walk path dir).Exists t := by
  fun_induction walk t path dir with
  | case1 => exact .inl hDir
  | case2 path dir ih => exact ih hDir
  | case3 path dir ih => exact ih (parent_directory hDir)
  | case4 | case7 => exact trivial
  | case5 => exact hDir
  | case6 n dir hKind => exact .inr hKind
  | case8 n dir path hKind ih => exact ih hKind

theorem start_directory {target : LinkTarget ν} {at_ : List ν} (hDir : t.kind dir = some .directory)
    (hWalk : t.walk path dir = .link target at_ rest) :
    t.kind (LinkTarget.start target at_) = some .directory := by
  have hAt := walk_exists path hDir
  rw [hWalk] at hAt
  unfold LinkTarget.start
  split
  · exact t.root
  · exact hAt

variable {links : Nat}

theorem follow_exists (hDir : t.kind dir = some .directory) (h : t.follow links path dir = .found location) :
    t.kind location = some .directory ∨ t.kind location = some .file := by
  fun_induction follow t links path dir with
  | case1 links path dir found hWalk =>
    have hFound := walk_exists path hDir
    rw [hWalk] at hFound
    cases h
    exact hFound
  | case5 path dir target at_ rest hWalk links ih =>
    exact ih (start_directory hDir hWalk) h
  | _ => cases h

theorem follow_mono {more : Nat} (hLe : links ≤ more) (h : t.follow links path dir ≠ .tooManyLinks) :
    t.follow more path dir = t.follow links path dir := by
  fun_induction follow t links path dir generalizing more with
  | case1 links path dir found hWalk => rw [follow, hWalk]
  | case2 links path dir missing rest hWalk => rw [follow, hWalk]
  | case3 links path dir hWalk => rw [follow, hWalk]
  | case4 path dir target at_ rest hWalk => exact absurd rfl h
  | case5 path dir target at_ rest hWalk links ih =>
    obtain ⟨fewer, rfl⟩ : ∃ n, more = n + 1 := ⟨more - 1, by omega⟩
    rw [follow, hWalk]
    exact ih (by omega) h

def End.append (t : FileTree ν) (links : Nat) : End ν → List (Component ν) → End ν
  | .found location, [] => .found location
  | .found location, more@(_ :: _) =>
    match t.kind location with
    | some .file => .notDirectory
    | _ => t.follow links more location
  | .missing location left, more => .missing location (left ++ more)
  | .notDirectory, _ => .notDirectory
  | .tooManyLinks, _ => .tooManyLinks

theorem follow_append (rest : List (Component ν)) (hDir : t.kind dir = some .directory) :
    ∃ left, t.follow links (path ++ rest) dir = (t.follow links path dir).append t left rest := by
  fun_induction follow t links path dir with
  | case1 links path dir found hWalk =>
    refine ⟨links, ?_⟩
    rw [follow, walk_append hDir, hWalk]
    cases rest with
    | nil => rfl
    | cons component rest =>
      dsimp only [Walk.append, End.append]
      rw [follow.eq_def t links (component :: rest)]
      cases t.kind found with
      | none => rfl
      | some kind => cases kind <;> rfl
  | case2 links path dir missing left hWalk | case3 links path dir hWalk | case4 path dir target at_ left hWalk =>
    refine ⟨0, ?_⟩
    rw [follow, walk_append hDir, hWalk]
    rfl
  | case5 path dir target at_ left hWalk links ih =>
    obtain ⟨fewer, hEq⟩ := ih (start_directory hDir hWalk)
    refine ⟨fewer, ?_⟩
    rw [follow, walk_append hDir, hWalk]
    simpa [Walk.append] using hEq

@[simp] theorem absolutePath_cons (name : ν) (dir : List ν) :
    absolutePath (name :: dir) = absolutePath dir ++ [.name name] := by
  simp [absolutePath]

theorem absolutePath_append (names dir : List ν) :
    absolutePath (names ++ dir) = absolutePath dir ++ absolutePath names := by
  simp [absolutePath]

theorem walk_absolutePath (hAt : t.kind location = some .directory) :
    t.walk (absolutePath location) [] = .found location := by
  induction location with
  | nil => rfl
  | cons name dir ih =>
    have hDir := t.parent name dir (by simp [hAt])
    rw [absolutePath_cons, walk_append t.root, ih hDir]
    simp [Walk.append, walk, hDir, hAt]

theorem follow_absolutePath (hAt : t.kind location = some .directory) :
    t.follow links (absolutePath location ++ rest) [] = t.follow links rest location := by
  rw [follow, walk_append t.root, walk_absolutePath hAt, follow.eq_def t links rest]
  cases rest with
  | nil => rfl
  | cons component rest => simp [Walk.append, hAt]

theorem follow_absolutePath_self (hAt : t.kind location = some .directory ∨ t.kind location = some .file) :
    t.follow links (absolutePath location) [] = .found location := by
  rcases hAt with hDir | hFile
  · rw [follow, walk_absolutePath hDir]
  cases location with
  | nil => simp [t.root] at hFile
  | cons name dir =>
    rw [absolutePath_cons, follow_absolutePath (t.parent name dir (by simp [hFile])), follow]
    simp [walk, hFile]

theorem follow_eq_of_missing (more : Nat) {left : List (Component ν)}
    (h : t.follow links path dir = .missing location left) (hEnough : t.follow more path dir ≠ .tooManyLinks) :
    t.follow more path dir = .missing location left := by
  rcases Nat.le_total links more with hLe | hLe
  · rw [follow_mono hLe (by simp [h]), h]
  · rw [← follow_mono hLe hEnough, h]

end FileTree

end LocalModelWorks
