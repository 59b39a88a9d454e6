import Mathlib.Algebra.Ring.Nat
import LocalModelWorks.Agent.Files

/-!
# Manifests of directory trees (`transfer.go`)

An agent lists the regular files and links below a root, sorted by path, and digests the
listing. An entry is its path, size, content digest and link target; the first three end
at a NUL, which none of them holds, but the target ends at a newline, which it may hold,
and so may the next path.

The tree does not change during the walk. What else the walk may run into (an I/O error,
the end of the context) is the parameter `trouble`.
-/

namespace LocalModelWorks.Agent

open FileTree

mutual

inductive Node
  | file (mode : Nat) (content : Bytes)
  | link (target : Target)
  | directory (children : Children)
  | other

inductive Children
  | nil
  | cons (name : FileName) (node : Node) (rest : Children)

end

def Children.find (name : FileName) : Children → Option Node
  | .nil => none
  | .cons name' node rest => if name' = name then some node else rest.find name

mutual

def Node.Distinct : Node → Prop
  | .directory children => children.Distinct
  | .file _ _ | .link _ | .other => True

def Children.Distinct : Children → Prop
  | .nil => True
  | .cons name node rest => rest.find name = none ∧ node.Distinct ∧ rest.Distinct

end

structure Disk where
  top : Children
  distinct : top.Distinct

def Node.kind : Node → FileKind FileName
  | .file _ _ | .other => .file
  | .link target => .link target.parse
  | .directory _ => .directory

def Node.child (name : FileName) : Node → Option Node
  | .directory children => children.find name
  | .file _ _ | .link _ | .other => none

def Node.at (node : Node) : List FileName → Option Node
  | [] => some node
  | name :: dir => (node.at dir).bind (Node.child name)

def Disk.root (d : Disk) : Node := .directory d.top

def Disk.tree (d : Disk) : FileTree FileName where
  kind location := (d.root.at location).map Node.kind
  root := rfl
  parent name dir h := by
    cases hDir : d.root.at dir with
    | none => simp [Node.at, hDir] at h
    | some node =>
      cases node with
      | directory children => rfl
      | file mode content => simp [Node.at, hDir, Node.child] at h
      | link target => simp [Node.at, hDir, Node.child] at h
      | other => simp [Node.at, hDir, Node.child] at h

def kernelLinks : Nat := 40

def evalLinks : Nat := 255

/-- `os.Lstat`: the links on the way are followed, the entry itself is not. -/
def Disk.lstat (d : Disk) : List FileName → Option Node
  | [] => some d.root
  | name :: dir =>
    match d.tree.follow kernelLinks (absolutePath dir) [] with
    | .found location => d.root.at (name :: location)
    | .missing _ _ | .notDirectory | .tooManyLinks => none

def Disk.evalSymlinks (d : Disk) (path : List FileName) : Option (List FileName) :=
  match d.tree.follow evalLinks (absolutePath path) [] with
  | .found location => some location
  | .missing _ _ | .notDirectory | .tooManyLinks => none

/-- The root directory's own path ends in a slash already, so nothing but itself is found within it. -/
def pathWithin (path root : List FileName) : Bool := path = root || (root ≠ [] && root.isSuffixOf path)

structure FileEntry where
  path : Bytes
  size : Nat
  mode : Nat
  sha256 : Bytes
  symlinkTarget : Bytes
  deriving DecidableEq

structure Manifest where
  files : List FileEntry
  totalBytes : Nat
  treeDigest : Bytes
  deriving DecidableEq

inductive Refusal
  | sourceEscapes
  | rootLink
  | unsafeLink (path : Bytes)
  | linkEscapes (path : Bytes)
  | system (text : Bytes)
  deriving DecidableEq

def Refusal.text : Refusal → Bytes
  | .sourceEscapes => ascii "source escapes containment root"
  | .rootLink => ascii "source root must not be a symlink"
  | .unsafeLink path => ascii "unsafe symlink " ++ path
  | .linkEscapes path => ascii "symlink " ++ path ++ ascii " escapes source"
  | .system text => text

def transferRootFile : Bytes := ascii ".lmw-root-file"

def modeSymlink : Nat := 2 ^ 27

def hexDigit (n : Nat) : UInt8 := if n < 10 then (48 + n).toUInt8 else (87 + n).toUInt8

def hex (b : Bytes) : Bytes := b.flatMap fun x => [hexDigit (x.toNat / 16), hexDigit (x.toNat % 16)]

def decimal (n : Nat) : Bytes := (Nat.toDigits 10 n).map fun c => c.toNat.toUInt8

variable (sha256 : Bytes → Bytes)

def digestOf (content : Bytes) : Bytes := ascii "sha256:" ++ hex (sha256 content)

def fileEntry (path : Bytes) (mode : Nat) (content : Bytes) : FileEntry :=
  ⟨path, content.length, mode, digestOf sha256 content, []⟩

def linkEntry (path : Bytes) (target : Target) : FileEntry := ⟨path, 0, modeSymlink, [], target.1⟩

def FileEntry.line (e : FileEntry) : Bytes :=
  e.path ++ 0 :: (decimal e.size ++ 0 :: (e.sha256 ++ 0 :: (e.symlinkTarget ++ [newline])))

def treeText (entries : List FileEntry) : Bytes := entries.flatMap FileEntry.line

def manifestOf (entries : List FileEntry) : Manifest where
  files := entries
  totalBytes := entries.foldl (fun total e => (total + e.size) % 2 ^ 64) 0
  treeDigest := digestOf sha256 (treeText entries)

variable (disk : Disk) (trouble : List FileName → Option Bytes) (root contain : List FileName)

def collectLink (rel : List FileName) (target : Target) : Except Refusal (List FileEntry) :=
  if isAbs target.1 then .error (.unsafeLink (relPath rel))
  else
    match disk.evalSymlinks (rel ++ root) with
    | none => .error (.linkEscapes (relPath rel))
    | some resolved =>
      if pathWithin resolved contain then .ok [linkEntry (relPath rel) target]
      else .error (.linkEscapes (relPath rel))

mutual

def collectNode (rel : List FileName) (node : Node) : Except Refusal (List FileEntry) :=
  match trouble (rel ++ root) with
  | some text => .error (.system text)
  | none =>
    match node with
    | .link target => collectLink disk root contain rel target
    | .file mode content => .ok [fileEntry sha256 (relPath rel) mode content]
    | .other => .ok []
    | .directory children => collectChildren rel children

def collectChildren (rel : List FileName) : Children → Except Refusal (List FileEntry)
  | .nil => .ok []
  | .cons name node rest =>
    match collectNode (name :: rel) node with
    | .error e => .error e
    | .ok entries =>
      match collectChildren rel rest with
      | .error e => .error e
      | .ok more => .ok (entries ++ more)

end

def byPath (a b : FileEntry) : Prop := notAfter a.path b.path = true

instance : DecidableRel byPath := fun a b => inferInstanceAs (Decidable (notAfter a.path b.path = true))

def collectTree (node : Node) : Except Refusal Manifest :=
  match collectNode sha256 disk trouble root contain [] node with
  | .error e => .error e
  | .ok entries => .ok (manifestOf sha256 (entries.insertionSort byPath))

def collectManifest : Except Refusal Manifest :=
  if pathWithin root contain = false then .error .sourceEscapes
  else
    match disk.lstat root with
    | none => .error (.system (ascii "no such file or directory"))
    | some (.link _) => .error .rootLink
    | some (.file mode content) =>
      match trouble root with
      | some text => .error (.system text)
      | none => .ok (manifestOf sha256 [fileEntry sha256 transferRootFile mode content])
    | some node => collectTree sha256 disk trouble root contain node

inductive Body
  | file (mode : Nat) (content : Bytes)
  | link (target : Target)

structure Item where
  path : Bytes
  body : Body

def Item.entry (item : Item) : FileEntry :=
  match item.body with
  | .file mode content => fileEntry sha256 item.path mode content
  | .link target => linkEntry item.path target

mutual

def Node.items (rel : List FileName) : Node → List Item
  | .link target => [⟨relPath rel, .link target⟩]
  | .file mode content => [⟨relPath rel, .file mode content⟩]
  | .other => []
  | .directory children => children.items rel

def Children.items (rel : List FileName) : Children → List Item
  | .nil => []
  | .cons name node rest => node.items (name :: rel) ++ rest.items rel

end

def Item.before (a b : Item) : Prop := notAfter a.path b.path = true

instance : DecidableRel Item.before := fun a b => inferInstanceAs (Decidable (notAfter a.path b.path = true))

def Node.listing : Node → List Item
  | .file mode content => [⟨transferRootFile, .file mode content⟩]
  | node => (node.items []).insertionSort Item.before

def Disk.listing : List Item := (disk.lstat root).elim [] Node.listing

variable {sha256 disk trouble root contain}

@[simp] theorem Item.entry_path (item : Item) : (item.entry sha256).path = item.path := by
  rcases item with ⟨path, body⟩
  cases body <;> rfl

theorem collectLink_eq {rel : List FileName} {target : Target} {entries : List FileEntry}
    (h : collectLink disk root contain rel target = .ok entries) : entries = [linkEntry (relPath rel) target] := by
  unfold collectLink at h
  split at h
  · cases h
  split at h
  · cases h
  split at h
  · exact (Except.ok.inj h).symm
  · cases h

mutual

theorem collectNode_eq {rel : List FileName} : ∀ {node : Node} {entries : List FileEntry},
    collectNode sha256 disk trouble root contain rel node = .ok entries →
      entries = (node.items rel).map (Item.entry sha256) := by
  intro node entries h
  unfold collectNode at h
  split at h
  · cases h
  cases node with
  | link target => exact collectLink_eq h
  | file | other => exact (Except.ok.inj h).symm
  | directory children => exact collectChildren_eq h

theorem collectChildren_eq {rel : List FileName} : ∀ {children : Children} {entries : List FileEntry},
    collectChildren sha256 disk trouble root contain rel children = .ok entries →
      entries = (children.items rel).map (Item.entry sha256) := by
  intro children entries h
  cases children with
  | nil => exact (Except.ok.inj h).symm
  | cons name node rest =>
    unfold collectChildren at h
    split at h
    · cases h
    rename_i here hNode
    split at h
    · cases h
    next more hRest =>
      rw [← Except.ok.inj h, collectNode_eq hNode, collectChildren_eq hRest, Children.items, List.map_append]

end

theorem collectTree_eq {node : Node} {m : Manifest} (h : collectTree sha256 disk trouble root contain node = .ok m) :
    m = manifestOf sha256 (((node.items []).insertionSort Item.before).map (Item.entry sha256)) := by
  unfold collectTree at h
  split at h
  · cases h
  next entries hNode => rw [← Except.ok.inj h, collectNode_eq hNode,
    List.map_insertionSort _ byPath _ _ (by simp [Item.before, byPath])]

theorem collectManifest_eq {m : Manifest} (h : collectManifest sha256 disk trouble root contain = .ok m) :
    m = manifestOf sha256 ((disk.listing root).map (Item.entry sha256)) := by
  unfold collectManifest at h
  unfold Disk.listing
  split at h
  · cases h
  cases hRoot : disk.lstat root with
  | none => simp [hRoot] at h
  | some node =>
    rw [hRoot] at h
    cases node with
    | link target => cases h
    | file mode content =>
      dsimp only at h
      split at h
      · cases h
      · exact (Except.ok.inj h).symm
    | directory | other => exact collectTree_eq h

theorem Children.find_cons_ne_none {name name' : FileName} {node : Node} {rest : Children}
    (h : rest.find name ≠ none) : (Children.cons name' node rest).find name ≠ none := by
  unfold Children.find
  split
  · exact Option.some_ne_none node
  · exact h

mutual

theorem Node.items_path {rel : List FileName} : ∀ {node : Node} {item : Item}, item ∈ node.items rel →
    ∃ below, item.path = relPath (below ++ rel) := by
  intro node item hItem
  cases node with
  | link | file => exact ⟨[], by rw [List.mem_singleton.mp hItem]; rfl⟩
  | other => exact absurd hItem List.not_mem_nil
  | directory children =>
    obtain ⟨below, name, -, hPath⟩ := Children.items_path hItem
    exact ⟨below ++ [name], by simpa using hPath⟩

theorem Children.items_path {rel : List FileName} : ∀ {children : Children} {item : Item}, item ∈ children.items rel →
    ∃ below name, children.find name ≠ none ∧ item.path = relPath (below ++ name :: rel) := by
  intro children item hItem
  cases children with
  | nil => exact absurd hItem List.not_mem_nil
  | cons name node rest =>
    rcases List.mem_append.mp hItem with hNode | hRest
    · obtain ⟨below, hPath⟩ := Node.items_path hNode
      exact ⟨below, name, by simp [Children.find], hPath⟩
    · obtain ⟨below, name', hFind, hPath⟩ := Children.items_path hRest
      exact ⟨below, name', Children.find_cons_ne_none hFind, hPath⟩

end

end LocalModelWorks.Agent
