import LocalModelWorks.FileTree

/-!
# Links that stay below a directory

A tree is confined to a base directory when every link below the base is relative, goes up
and then down by names, and so names a location at or below the base when it is read from
the directory it stands in.
-/

namespace LocalModelWorks.FileTree

open List

variable {ν : Type} {t : FileTree ν} {base dir location : List ν} {path rest : List (Component ν)}

section Add

variable [DecidableEq ν]

def insert (t : FileTree ν) (name : ν) (dir : List ν) (kind : FileKind ν) (hDir : t.kind dir = some .directory)
    (hFree : t.kind (name :: dir) = none) : FileTree ν where
  kind location := if location = name :: dir then some kind else t.kind location
  root := by rw [if_neg (cons_ne_nil name dir).symm, t.root]
  parent other above hSome := by
    by_cases hNew : other :: above = name :: dir
    · obtain ⟨rfl, rfl⟩ := List.cons.inj hNew
      rw [if_neg (cons_ne_self _ _).symm, hDir]
    rw [if_neg hNew] at hSome
    have hAbove := t.parent other above hSome
    by_cases hBelow : above = name :: dir
    · rw [hBelow, hFree] at hAbove
      cases hAbove
    · rw [if_neg hBelow, hAbove]

def add (t : FileTree ν) (name : ν) (dir : List ν) (kind : FileKind ν) : FileTree ν :=
  if h : t.kind dir = some .directory ∧ t.kind (name :: dir) = none then t.insert name dir kind h.1 h.2 else t

variable {kind : FileKind ν} {name : ν}

theorem kind_add (hDir : t.kind dir = some .directory) (hFree : t.kind (name :: dir) = none) (location : List ν) :
    (t.add name dir kind).kind location = if location = name :: dir then some kind else t.kind location := by
  unfold add
  rw [dif_pos ⟨hDir, hFree⟩]
  rfl

theorem directory_add (hAt : t.kind location = some .directory) :
    (t.add name dir kind).kind location = some .directory := by
  unfold add
  split
  next h =>
    by_cases hNew : location = name :: dir
    · rw [hNew, h.2] at hAt
      cases hAt
    · exact (if_neg hNew).trans hAt
  · exact hAt

end Add

theorem directory_of_suffix {above : List ν} (hSuffix : above <:+ location) (hAt : t.kind location = some .directory) :
    t.kind above = some .directory := by
  obtain ⟨names, rfl⟩ := hSuffix
  induction names with
  | nil => exact hAt
  | cons name names ih =>
    refine ih (t.parent name (names ++ above) fun hNone => ?_)
    rw [cons_append, hNone] at hAt
    cases hAt

def NoLinks (t : FileTree ν) (location : List ν) : Prop := ∀ s, s <:+ location → ∀ target, t.kind s ≠ some (.link target)

theorem NoLinks.tail {name : ν} (h : NoLinks t (name :: dir)) : NoLinks t dir :=
  fun s hs => h s (hs.trans (suffix_cons name dir))

inductive Walk.Direct (location : List ν) : Walk ν → Prop
  | found : Direct location (.found location)
  | missing (at_ : List ν) (rest : List (Component ν)) : Direct location (.missing at_ rest)
  | notDirectory : Direct location .notDirectory

theorem walk_direct (h : NoLinks t location) : (t.walk (absolutePath location) []).Direct location := by
  induction location with
  | nil => exact .found
  | cons name dir ih =>
    rw [absolutePath_cons, walk_append t.root]
    have hAbove := ih h.tail
    generalize t.walk (absolutePath dir) [] = above at hAbove
    cases hAbove with
    | missing at_ left => exact .missing _ _
    | notDirectory => exact .notDirectory
    | found =>
      simp only [Walk.append]
      split
      · exact .notDirectory
      cases hKind : t.kind (name :: dir) with
      | none =>
        simp only [walk, hKind]
        exact .missing _ _
      | some kind =>
        cases kind with
        | directory | file =>
          simp only [walk, hKind]
          exact .found
        | link target => exact absurd hKind (h _ suffix_rfl target)

theorem follow_found_noLinks {links : Nat} (h : NoLinks t location)
    (hFollow : t.follow links (absolutePath location) [] = .found dir) : dir = location := by
  have hDirect := walk_direct h
  rw [follow] at hFollow
  generalize t.walk (absolutePath location) [] = end_ at hDirect hFollow
  cases hDirect with
  | found => exact (End.found.inj hFollow).symm
  | missing | notDirectory => cases hFollow

def Stays (base dir : List ν) (path : List (Component ν)) : Prop :=
  ∃ (ups : Nat) (names : List ν), path = List.replicate ups .up ++ names.map .name ∧ base <:+ names.reverse ++ dir.drop ups

theorem Stays.append_names (h : Stays base dir path) (more : List ν) : Stays base dir (path ++ more.map .name) := by
  obtain ⟨ups, names, rfl, hEnd⟩ := h
  refine ⟨ups, names ++ more, by simp, ?_⟩
  rw [reverse_append, append_assoc]
  exact hEnd.trans (suffix_append _ _)

structure Confined (t : FileTree ν) (base : List ν) : Prop where
  directory : t.kind base = some .directory
  links : ∀ name dir target, base <:+ dir → t.kind (name :: dir) = some (.link target) →
    target.absolute = false ∧ Stays base dir target.components

def Walk.Within (t : FileTree ν) (base : List ν) : Walk ν → Prop
  | .found location => base <:+ location
  | .missing location _ => ∃ name dir, location = name :: dir ∧ base <:+ dir ∧ t.kind dir = some .directory
  | .notDirectory => True
  | .link target dir rest =>
    t.kind dir = some .directory ∧ base <:+ dir ∧ target.absolute = false ∧ Stays base dir (target.components ++ rest)

theorem suffix_of_towards {name : ν} {names : List ν} (hAbove : dir <:+ base) (hNot : ¬base <:+ dir)
    (hEnd : base <:+ names.reverse ++ name :: dir) : name :: dir <:+ base := by
  refine suffix_of_suffix_length_le (suffix_append _ _) hEnd ?_
  rcases Nat.lt_or_ge dir.length base.length with hLt | hGe
  · exact hLt
  · exact absurd (hAbove.eq_of_length_le hGe ▸ suffix_rfl) hNot

theorem walk_names_within (hT : Confined t base) (names : List ν) (hDir : t.kind dir = some .directory)
    (hSide : base <:+ dir ∨ dir <:+ base) (hEnd : base <:+ names.reverse ++ dir) :
    (t.walk (names.map .name) dir).Within t base := by
  induction names generalizing dir with
  | nil => exact hEnd
  | cons name names ih =>
    rw [reverse_cons, append_assoc] at hEnd
    rw [map_cons]
    by_cases hInside : base <:+ dir
    · have hBelow : base <:+ name :: dir := hInside.trans (suffix_cons name dir)
      cases hKind : t.kind (name :: dir) with
      | none =>
        simp only [walk, hKind]
        exact ⟨name, dir, rfl, hInside, hDir⟩
      | some kind =>
        cases kind with
        | directory =>
          simp only [walk, hKind]
          exact ih hKind (.inl hBelow) hEnd
        | link target =>
          obtain ⟨hRelative, hStays⟩ := hT.links name dir target hInside hKind
          have hWalk : t.walk (.name name :: names.map .name) dir = .link target dir (names.map .name) := by simp [walk, hKind]
          rw [hWalk]
          exact ⟨hDir, hInside, hRelative, hStays.append_names names⟩
        | file =>
          cases names with
          | nil =>
            simp only [map_nil, walk, hKind]
            exact hBelow
          | cons next names =>
            simp only [map_cons, walk, hKind]
            exact trivial
    -- above the base there are only the directories that lead to it
    have hTowards := suffix_of_towards (hSide.resolve_left hInside) hInside hEnd
    have hKind := directory_of_suffix hTowards hT.directory
    simp only [walk, hKind]
    exact ih hKind (.inr hTowards) hEnd

theorem walk_within (hT : Confined t base) (hDir : t.kind dir = some .directory) (hSide : base <:+ dir ∨ dir <:+ base)
    (h : Stays base dir path) : (t.walk path dir).Within t base := by
  obtain ⟨ups, names, rfl, hEnd⟩ := h
  induction ups generalizing dir with
  | zero => exact walk_names_within hT names hDir hSide hEnd
  | succ ups ih =>
    refine ih (parent_directory hDir) ?_ (by rwa [drop_tail])
    rcases hSide with hInside | hAbove
    · cases dir with
      | nil => exact .inl hInside
      | cons name dir =>
        rcases suffix_cons_iff.mp hInside with rfl | hBelow
        · exact .inr (suffix_cons name dir)
        · exact .inl hBelow
    · exact .inr ((tail_suffix dir).trans hAbove)

def End.Within (t : FileTree ν) (base : List ν) : End ν → Prop
  | .found location => base <:+ location
  | .missing location _ => ∃ name dir, location = name :: dir ∧ base <:+ dir ∧ t.kind dir = some .directory
  | .notDirectory => True
  | .tooManyLinks => True

theorem follow_within (hT : Confined t base) (links : Nat) (hDir : t.kind dir = some .directory)
    (hSide : base <:+ dir ∨ dir <:+ base) (h : Stays base dir path) : (t.follow links path dir).Within t base := by
  fun_induction follow t links path dir with
  | case1 links path dir found hWalk | case2 links path dir missing rest hWalk =>
    have hWithin := walk_within hT hDir hSide h
    rwa [hWalk] at hWithin
  | case3 | case4 => exact trivial
  | case5 path dir target at_ rest hWalk links ih =>
    have hWithin := walk_within hT hDir hSide h
    rw [hWalk] at hWithin
    obtain ⟨hAt, hBelow, hRelative, hStays⟩ := hWithin
    have hStart : LinkTarget.start target at_ = at_ := by simp [LinkTarget.start, hRelative]
    rw [hStart] at ih ⊢
    exact ih hAt (.inl hBelow) hStays

theorem follow_absolutePath_within (hT : Confined t base) (links : Nat) (h : base <:+ location) :
    (t.follow links (absolutePath location) []).Within t base :=
  follow_within hT links t.root (.inr base.nil_suffix)
    ⟨0, location.reverse, by simp [absolutePath], by simpa using h⟩

section Add

variable [DecidableEq ν] {name : ν} {kind : FileKind ν}

theorem Confined.add (hT : Confined t base)
    (hLink : ∀ target, kind = .link target → base <:+ dir → target.absolute = false ∧ Stays base dir target.components) :
    Confined (t.add name dir kind) base where
  directory := directory_add hT.directory
  links other above target hBelow hKind := by
    unfold FileTree.add at hKind
    split at hKind
    · by_cases hNew : other :: above = name :: dir
      · obtain ⟨rfl, rfl⟩ := List.cons.inj hNew
        exact hLink target (Option.some.inj ((if_pos rfl).symm.trans hKind)) hBelow
      · exact hT.links other above target hBelow ((if_neg hNew).symm.trans hKind)
    · exact hT.links other above target hBelow hKind

end Add

end LocalModelWorks.FileTree
