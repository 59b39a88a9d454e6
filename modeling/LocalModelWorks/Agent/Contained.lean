import LocalModelWorks.Agent.Pull

/-!
# What a transfer creates lies in its staging directory

As long as every link is created in a directory that is reached without following a link,
the text of its target says where the link leads, and the check of that text confines the
links of the staging directory.
-/

namespace LocalModelWorks.Agent.Pull

open List
open FileTree (Confined NoLinks Stays)

variable {staging path dir location : List FileName} {name : FileName} {d d' : Disk} {t : Tree} {budget left : Nat}
  {entry : FileEntry}

theorem resolve_directory (h : t.kind path = some .directory) : resolve t path = .found path :=
  FileTree.follow_absolutePath_self (.inl h)

theorem directoryAt_directory (h : t.kind path = some .directory) : directoryAt t path = some path := by
  simp only [directoryAt, resolve_directory h, h, if_true]

theorem lstat_of_directory (h : t.kind dir = some .directory) {kind : FileKind FileName} (hKind : t.kind (name :: dir) = some kind) :
    lstat t (name :: dir) = .entry kind := by
  simp only [lstat, resolve_directory h, h, if_true, hKind]

theorem noLinks_of_safeDestination (h : safeDestination t path = true) : NoLinks t path := by
  induction path with
  | nil =>
    intro s hs target hKind
    rw [suffix_nil.mp hs, t.root] at hKind
    cases hKind
  | cons name dir ih =>
    rw [safeDestination, Bool.and_eq_true] at h
    intro s hs target hKind
    rcases suffix_cons_iff.mp hs with rfl | hs
    · have hDir : t.kind dir = some .directory := t.parent name dir (by simp [hKind])
      rw [lstat_of_directory hDir hKind] at h
      cases h.1
    · exact ih h.2 s hs target hKind

theorem directory_of_mkdirAll (hNo : NoLinks d.tree path) (h : mkdirAll budget path d = (d', some left)) :
    d'.tree.kind path = some .directory := by
  induction path generalizing d' left with
  | nil => exact d'.tree.root
  | cons name dir ih =>
    rw [mkdirAll] at h
    split at h
    next location hFound =>
      obtain ⟨rfl, hLeft⟩ := Prod.mk.inj h
      split at hLeft
      next hDirectory => rwa [FileTree.follow_found_noLinks hNo hFound] at hDirectory
      · cases hLeft
    · cases hAbove : mkdirAll budget dir d with
      | mk above rest =>
        rw [hAbove] at h
        cases rest with
        | none => cases h
        | some rest =>
          have hDir := ih hNo.tail hAbove
          cases rest with
          | zero => cases h
          | succ rest =>
            dsimp only at h
            split at h
            next made hMade =>
              obtain ⟨rfl, -⟩ := Prod.mk.inj h
              rw [mkdir, directoryAt_directory hDir] at hMade
              dsimp only at hMade
              split at hMade
              next hFree =>
                obtain rfl := Option.some.inj hMade
                exact (FileTree.kind_add hDir hFree _).trans (if_pos rfl)
              · cases hMade
            · obtain ⟨rfl, hLeft⟩ := Prod.mk.inj h
              split at hLeft
              next hStat =>
                cases hKind : above.tree.kind (name :: dir) with
                | none => simp [lstat, resolve_directory hDir, hDir, hKind] at hStat
                | some kind =>
                  rw [lstat_of_directory hDir hKind] at hStat
                  rw [Stat.entry.inj hStat]
              · cases hLeft

def Inside (staging location : List FileName) : Prop := ∃ name dir, location = name :: dir ∧ staging <:+ dir

structure Contained (staging : List FileName) (d : Disk) : Prop where
  confined : Confined d.tree staging
  created : ∀ location ∈ d.created, Inside staging location

theorem Contained.create (h : Contained staging d) (hDir : staging <:+ dir) {kind : FileKind FileName}
    (hLink : ∀ target, kind = .link target → target.absolute = false ∧ Stays staging dir target.components) :
    Contained staging (d.create name dir kind) := by
  refine ⟨h.confined.add fun target hKind _ => hLink target hKind, fun location hAt => ?_⟩
  rcases mem_cons.mp hAt with rfl | hOld
  · exact ⟨name, dir, rfl, hDir⟩
  · exact h.created location hOld

theorem suffix_of_directoryAt (h : Confined t staging) (hPath : staging <:+ path)
    (hAt : directoryAt t path = some location) : staging <:+ location := by
  have hWithin := FileTree.follow_absolutePath_within h maxLinks hPath
  unfold directoryAt resolve at hAt
  split at hAt
  next found hFollow =>
    rw [hFollow] at hWithin
    split at hAt
    · obtain rfl := Option.some.inj hAt
      exact hWithin
    · cases hAt
  · cases hAt

theorem Contained.mkdir (h : Contained staging d) (hDir : staging <:+ dir) (hMade : Pull.mkdir d name dir = some d') :
    Contained staging d' := by
  unfold Pull.mkdir at hMade
  split at hMade
  · cases hMade
  rename_i location hAt
  split at hMade
  · obtain rfl := Option.some.inj hMade
    exact h.create (suffix_of_directoryAt h.confined hDir hAt) fun _ hKind => nomatch hKind
  · cases hMade

theorem Contained.mkdirAll (h : Contained staging d) (hPath : staging <:+ path) (budget : Nat) :
    Contained staging (mkdirAll budget path d).1 := by
  induction path with
  | nil => exact h
  | cons name dir ih =>
    rw [Pull.mkdirAll]
    split
    · exact h
    rename_i hNot
    have hDir : staging <:+ dir := by
      rcases suffix_cons_iff.mp hPath with rfl | hDir
      · exact absurd (resolve_directory h.confined.directory) (hNot _)
      · exact hDir
    have hAbove := ih hDir
    generalize Pull.mkdirAll budget dir d = above at hAbove ⊢
    obtain ⟨above, left⟩ := above
    cases left with
    | none => exact hAbove
    | some left =>
      cases left with
      | zero => exact hAbove
      | succ left =>
        dsimp only
        split
        next made hMade => exact hAbove.mkdir hDir hMade
        · exact hAbove

theorem Contained.openFile (h : Contained staging d) (hPath : staging <:+ path) (budget : Nat) :
    Contained staging (openFile budget path d).1 := by
  have hWithin := FileTree.follow_absolutePath_within h.confined maxLinks hPath
  unfold Pull.openFile resolve
  split
  · exact h
  next name dir hFollow =>
    rw [hFollow] at hWithin
    split
    · exact h
    obtain ⟨_, _, hAt, hDir, -⟩ := hWithin
    obtain ⟨rfl, rfl⟩ := List.cons.inj hAt
    exact h.create hDir fun _ hKind => nomatch hKind
  · exact h

theorem Contained.symlink (h : Contained staging d) (hDir : staging <:+ dir) (hKind : d.tree.kind dir = some .directory)
    {target : LinkTarget FileName} (hRelative : target.absolute = false) (hStays : Stays staging dir target.components)
    (budget : Nat) : Contained staging (symlink budget target name dir d).1 := by
  unfold Pull.symlink
  rw [directoryAt_directory hKind]
  dsimp only
  split
  · exact h
  split
  · exact h
  refine h.create hDir fun other hOther => ?_
  obtain rfl := FileKind.link.inj hOther
  exact ⟨hRelative, hStays⟩

theorem suffix_below (names : List FileName) : staging <:+ names ++ staging := suffix_append names staging

theorem Contained.pullFile (h : Contained staging d) (budget : Nat) (answer : Answer) (entry : FileEntry) :
    Contained staging (pullFile staging budget answer entry d).1 := by
  unfold Pull.pullFile
  split
  · exact h
  split
  · exact h
  split
  next name dir _ =>
    have hMade := h.mkdirAll (suffix_below dir) budget
    generalize Pull.mkdirAll budget (dir ++ staging) d = made at hMade ⊢
    obtain ⟨made, left⟩ := made
    cases left with
    | none => exact hMade
    | some left =>
      dsimp only
      split
      · exact hMade
      have hOpened := hMade.openFile (suffix_below (name :: dir)) left
      generalize Pull.openFile left (name :: dir ++ staging) made = opened at hOpened ⊢
      obtain ⟨opened, ok⟩ := opened
      cases ok with
      | false | true => exact hOpened
  · exact h.mkdirAll (suffix_below _) budget

theorem val_of_readable {elements : List Bytes} {names : List FileName} (h : readable elements = (names, true)) :
    names.map Subtype.val = elements := by
  induction elements generalizing names with
  | nil =>
    obtain ⟨rfl, -⟩ := Prod.mk.inj h
    rfl
  | cons element above ih =>
    rw [readable] at h
    split at h
    · cases h
    rename_i rest hRest
    split at h
    · obtain ⟨rfl, -⟩ := Prod.mk.inj h
      rw [map_cons, ih hRest]
    · cases h

theorem stays_of_targetWithin {names : List FileName} {link : List Bytes} {target : Cleaned}
    (hLink : readable link = (name :: dir, true)) (hTarget : readable target.names = (names, true))
    (h : targetWithin staging link target = true) :
    Stays staging (dir ++ staging) (linkTarget target.ups names).components := by
  refine ⟨target.ups, names.reverse, rfl, ?_⟩
  rw [targetWithin, isSuffixOf_iff_suffix, ← val_of_readable hLink, ← val_of_readable hTarget] at h
  rw [reverse_reverse]
  rw [map_cons, tail_cons, ← map_append, ← map_drop, ← map_append] at h
  exact (suffix_map_iff_of_injective Subtype.val_injective).mp h

def clearParent (staging : List FileName) (t : Tree) (entry : FileEntry) : Bool :=
  match entryPath entry with
  | some (_ :: dir, true) => entry.symlinkTarget = [] || safeDestination t (dir ++ staging)
  | _ => true

theorem Contained.pullLink (h : Contained staging d) (hClear : clearParent staging d.tree entry = true) (budget : Nat) :
    Contained staging (pullLink staging budget entry d).1 := by
  unfold Pull.pullLink
  split
  · exact h
  rename_i hTarget
  split
  · exact h
  rename_i link hLink
  dsimp only
  split
  · exact h
  rename_i hChecked
  simp only [Bool.or_eq_true, Bool.not_eq_true', not_or, Bool.not_eq_false] at hChecked
  split
  next name dir hNames =>
    have hSafe : safeDestination d.tree (dir ++ staging) = true := by
      simpa [clearParent, entryPath, hLink, hNames, hTarget] using hClear
    have hMade := h.mkdirAll (suffix_below dir) budget
    cases hMkdir : Pull.mkdirAll budget (dir ++ staging) d with
    | mk made left =>
      rw [hMkdir] at hMade
      cases left with
      | none => exact hMade
      | some left =>
        dsimp only
        split
        · exact hMade
        next names hRead =>
          have hKind := directory_of_mkdirAll (noLinks_of_safeDestination hSafe) hMkdir
          exact hMade.symlink (suffix_below dir) hKind rfl (stays_of_targetWithin hNames hRead hChecked.2) left
  · exact h.mkdirAll (suffix_below _) budget

def clear (staging : List FileName) (s : State) : Event → Bool
  | .entry _ _ =>
    match s.task with
    | some (.links (entry :: _)) => clearParent staging s.disk.tree entry
    | _ => true
  | _ => true

def Clear (staging : List FileName) (s : State) (e : Event) : Prop := clear staging s e = true

instance (s : State) (e : Event) : Decidable (Clear staging s e) := inferInstanceAs (Decidable (clear staging s e = true))

instance (s : State) (e : Event) : Decidable ((system staging).enabled s e) :=
  inferInstanceAs (Decidable (enabled s e = true))

theorem contained_of_starts {s : State} (h : Starts staging s) : Contained staging s.disk where
  confined := ⟨h.directory, fun name dir target hDir hKind => by rw [h.empty name dir hDir] at hKind; cases hKind⟩
  created location hAt := by
    rw [h.created] at hAt
    cases hAt

theorem contained_next {s : State} (h : Contained staging s.disk) (e : Event) (hClear : Clear staging s e) :
    Contained staging (next staging s e).disk := by
  cases e with
  | begin budget manifest =>
    have hMade := h.mkdirAll suffix_rfl budget
    unfold next
    dsimp only
    split
    · exact h
    generalize Pull.mkdirAll budget staging s.disk = made at hMade ⊢
    obtain ⟨made, left⟩ := made
    cases left with
    | none | some => exact hMade
  | abandon => exact h
  | entry budget answer =>
    unfold next
    dsimp only
    split
    · exact h
    · exact h
    · exact h.pullFile budget answer _
    · exact h
    rename_i entry todo hTask
    have hParent : clearParent staging s.disk.tree entry = true := by
      simpa only [Clear, clear, hTask] using hClear
    exact h.pullLink hParent budget

/-- Whatever the sources return, in any number of attempts: as long as no link is created through another link, every
directory, file and link that the attempts create lies in the staging directory. -/
theorem pullTransfer_contained {s : State} (h : (system staging).Reachable (Clear staging) s) :
    ∀ location ∈ s.disk.created, Inside staging location := by
  have hContained : Contained staging s.disk :=
    h.invariant (fun _ => contained_of_starts) fun _ e hState _ hGuard => contained_next hState e hGuard
  exact hContained.created

def sampleStaging : List FileName :=
  [⟨ascii ".untrusted-0", by decide⟩, ⟨ascii "hub", by decide⟩, ⟨ascii "cache", by decide⟩]

def sampleEntries : List (List FileName × FileKind FileName) :=
  [([], .directory), (sampleStaging.drop 2, .directory), (sampleStaging.drop 1, .directory), (sampleStaging, .directory)]

def sampleTree : Tree := FileTree.ofEntries sampleEntries (by decide) (by decide)

def sampleStart : State := ⟨⟨sampleTree, []⟩, none⟩

theorem starts_sample : Starts sampleStaging sampleStart where
  directory := by decide
  created := rfl
  task := rfl
  empty name dir hDir := by
    have hLen : 3 ≤ dir.length := hDir.length_le
    refine FileTree.kind_ofEntries_eq_none (by decide) (by decide) fun entry hEntry hEq => ?_
    have hShort : entry.1.length ≤ 3 := (by decide : ∀ entry ∈ sampleEntries, entry.1.length ≤ 3) entry hEntry
    rw [hEq, length_cons] at hShort
    omega

def fileOf (path : String) : FileEntry := ⟨ascii path, 0, 0, [], []⟩

def linkOf (path target : String) : FileEntry := ⟨ascii path, 0, 0, [], ascii target⟩

def plainStep : Event := .entry 9 ⟨0, [], []⟩

theorem pullTransfer_contained_snapshot :
    let events := .begin 9 [fileOf "x/y", linkOf "l" "x"] :: List.replicate 5 plainStep
    let s := (system sampleStaging).exec sampleStart events
    s.disk.created.length = 3 ∧ ∀ location ∈ s.disk.created, Inside sampleStaging location :=
  ⟨by decide +kernel, pullTransfer_contained (.of_allowed starts_sample (by decide +kernel))⟩

def escaping : List FileEntry := [linkOf "d/l" "..", linkOf "d/l/k" "../..", linkOf "k/e" "x"]

theorem pullTransfer_escapes : ∃ s, (system sampleStaging).Reachable (fun _ _ => True) s ∧
    ∃ location ∈ s.disk.created, ¬Inside sampleStaging location := by
  refine ⟨(system sampleStaging).exec sampleStart (.begin 9 escaping :: List.replicate 7 plainStep),
    .of_allowed starts_sample (by decide +kernel), ⟨ascii "e", by decide⟩ :: sampleStaging.drop 2, by decide +kernel, ?_⟩
  rintro ⟨name, dir, hAt, hDir⟩
  have hShort : sampleStaging.length ≤ dir.length := hDir.length_le
  rw [← (List.cons.inj hAt).2] at hShort
  exact absurd hShort (by decide)

end LocalModelWorks.Agent.Pull
