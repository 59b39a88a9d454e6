import LocalModelWorks.Agent.Manifest
import LocalModelWorks.Confinement
import LocalModelWorks.Transition

/-!
# Pulling a peer's tree

`pullTransfer` from the source's manifest to the tree that is ready to be verified: first
the files, then the links, each at its own path below the staging directory. Paths and
link targets are checked as texts; the system calls follow the links that they meet.
Attempts follow each other in one staging directory, and each may end anywhere.

A step has a budget of entries to create, and fails when it is spent. The checkpoint is
not part of the tree.
-/

namespace LocalModelWorks.Agent.Pull

/-- `filepath.Clean` taken apart: how far a path goes up, and the elements that it then goes down, the last one first. -/
structure Cleaned where
  absolute : Bool
  ups : Nat
  names : List Bytes
  deriving DecidableEq

def cleanElement (absolute : Bool) (path : Nat × List Bytes) (element : Bytes) : Nat × List Bytes :=
  if element = [] || element = ascii "." then path
  else if element ≠ ascii ".." then (path.1, element :: path.2)
  else
    match path.2 with
    | [] => if absolute then path else (path.1 + 1, [])
    | _ :: above => (path.1, above)

variable (value : Bytes)

def clean : Cleaned :=
  let path := (value.splitOn slash).foldl (cleanElement (isAbs value)) (0, [])
  ⟨isAbs value, path.1, path.2⟩

def safeRelativePath : Option (List Bytes) :=
  let cleaned := clean value
  if cleaned.absolute || 0 < cleaned.ups || cleaned.names = [] then none else some cleaned.names

/-- The names that the file system takes, up to the first element that it does not (one with a NUL), and whether these
are all. -/
def readable : List Bytes → List FileName × Bool
  | [] => ([], true)
  | element :: above =>
    match readable above with
    | (names, false) => (names, false)
    | (names, true) => if h : IsFileName element then (⟨element, h⟩ :: names, true) else (names, false)

abbrev Tree := FileTree FileName

def maxLinks : Nat := 40

structure Disk where
  tree : Tree
  created : List (List FileName)

variable (d : Disk) (name : FileName) (dir : List FileName)

def Disk.create (kind : FileKind FileName) : Disk :=
  ⟨d.tree.add name dir kind, (name :: dir) :: d.created⟩

variable (t : Tree) (path : List FileName)

def resolve : FileTree.End FileName :=
  t.follow maxLinks (FileTree.absolutePath path) []

def directoryAt : Option (List FileName) :=
  match resolve t path with
  | .found location => if t.kind location = some .directory then some location else none
  | _ => none

inductive Stat
  | missing
  | failed
  | entry (kind : FileKind FileName)
  deriving DecidableEq

def lstat : List FileName → Stat
  | [] => .entry .directory
  | name :: dir =>
    match resolve t dir with
    | .found location =>
      if t.kind location = some .directory then
        match t.kind (name :: location) with
        | none => .missing
        | some kind => .entry kind
      else .failed
    | .missing _ _ => .missing
    | .notDirectory => .failed
    | .tooManyLinks => .failed

def safeDestination (t : Tree) : List FileName → Bool
  | [] => true
  | name :: dir =>
    (match lstat t (name :: dir) with
      | .missing => true
      | .failed => false
      | .entry (.link _) => false
      | .entry _ => true) && safeDestination t dir

def mkdir : Option Disk :=
  match directoryAt d.tree dir with
  | none => none
  | some location => if d.tree.kind (name :: location) = none then some (d.create name location .directory) else none

/-- `os.MkdirAll`, with what is left of the budget if it succeeds. -/
def mkdirAll (budget : Nat) : List FileName → Disk → Disk × Option Nat
  | [], d => (d, some budget)
  | name :: dir, d =>
    match resolve d.tree (name :: dir) with
    | .found location => (d, if d.tree.kind location = some .directory then some budget else none)
    | _ =>
      match mkdirAll budget dir d with
      | (d, none) => (d, none)
      | (d, some 0) => (d, none)
      | (d, some (left + 1)) =>
        match mkdir d name dir with
        | some d => (d, some left)
        | none => (d, if lstat d.tree (name :: dir) = .entry .directory then some (left + 1) else none)

variable (budget : Nat)

def openFile (path : List FileName) (d : Disk) : Disk × Bool :=
  match resolve d.tree path with
  | .found location => (d, d.tree.kind location = some .file)
  | .missing (name :: dir) [] => if budget = 0 then (d, false) else (d.create name dir .file, true)
  | _ => (d, false)

/-- `os.Symlink`. That the entry exists is no error to the caller. -/
def symlink (target : LinkTarget FileName) (name : FileName) (dir : List FileName) (d : Disk) : Disk × Bool :=
  match directoryAt d.tree dir with
  | none => (d, false)
  | some location =>
    if d.tree.kind (name :: location) ≠ none then (d, true)
    else if budget = 0 then (d, false)
    else (d.create name location (.link target), true)

structure Chunk where
  offset : Nat
  data : Bytes

/-- What a file gets: the prefix that was kept of it, the replies to the requests for chunks, and its digest after
them. -/
structure Answer where
  kept : Nat
  replies : List (Option Chunk)
  digest : Bytes

def receive (size : Nat) : Nat → List (Option Chunk) → Bool
  | offset, [] => size ≤ offset
  | offset, reply :: replies =>
    if size ≤ offset then true
    else
      match reply with
      | none => false
      | some chunk =>
        if chunk.offset ≠ offset || chunk.data = [] || size - offset < chunk.data.length then false
        else receive size (offset + chunk.data.length) replies

def Answer.complete (answer : Answer) (entry : FileEntry) : Bool :=
  receive entry.size (if entry.size < answer.kept then 0 else answer.kept) answer.replies && answer.digest = entry.sha256

def entryPath (entry : FileEntry) : Option (List FileName × Bool) := (safeRelativePath entry.path).map readable

section Entries

variable (staging : List FileName)

def pullFile (budget : Nat) (answer : Answer) (entry : FileEntry) (d : Disk) : Disk × Bool :=
  match entryPath entry with
  | none => (d, false)
  | some (names, whole) =>
    if entry.symlinkTarget ≠ [] then (d, true)
    else
      match names, whole with
      | name :: dir, true =>
        match mkdirAll budget (dir ++ staging) d with
        | (d, none) => (d, false)
        | (d, some left) =>
          -- `openPrefix`
          if !safeDestination d.tree (name :: dir ++ staging) then (d, false)
          else
            match openFile left (name :: dir ++ staging) d with
            | (d, false) => (d, false)
            | (d, true) => (d, answer.complete entry)
      | names, _ => ((mkdirAll budget (names ++ staging) d).1, false)

/-- `pathWithin` of the link's directory, joined with the target, as texts. -/
def targetWithin (link : List Bytes) (target : Cleaned) : Bool :=
  (staging.map Subtype.val).isSuffixOf (target.names ++ (link.tail ++ staging.map Subtype.val).drop target.ups)

def linkTarget (ups : Nat) (names : List FileName) : LinkTarget FileName :=
  ⟨false, List.replicate ups .up ++ names.reverse.map .name⟩

def pullLink (budget : Nat) (entry : FileEntry) (d : Disk) : Disk × Bool :=
  if entry.symlinkTarget = [] then (d, true)
  else
    match safeRelativePath entry.path with
    | none => (d, false)
    | some link =>
      let target := clean entry.symlinkTarget
      if target.absolute || !targetWithin staging link target then (d, false)
      else
        match readable link with
        | (name :: dir, true) =>
          match mkdirAll budget (dir ++ staging) d with
          | (d, none) => (d, false)
          | (d, some left) =>
            match readable target.names with
            | (_, false) => (d, false)
            | (names, true) => symlink left (linkTarget target.ups names) name (dir ++ staging) d
        | (names, _) => ((mkdirAll budget (names ++ staging) d).1, false)

inductive Task
  | files (todo manifest : List FileEntry)
  | links (todo : List FileEntry)

structure State where
  disk : Disk
  task : Option Task

inductive Event
  | begin (budget : Nat) (manifest : List FileEntry)
  | entry (budget : Nat) (answer : Answer)
  | abandon

def maxEntries : Nat := 100000

def continue_ (result : Disk × Bool) (task : Task) : State := ⟨result.1, if result.2 then some task else none⟩

def next (s : State) : Event → State
  | .begin budget manifest =>
    if maxEntries < manifest.length then s
    else
      match mkdirAll budget staging s.disk with
      | (disk, none) => ⟨disk, none⟩
      | (disk, some _) => ⟨disk, some (.files manifest manifest)⟩
  | .entry budget answer =>
    match s.task with
    | none => s
    | some (.files [] manifest) => { s with task := some (.links manifest) }
    | some (.files (entry :: todo) manifest) =>
      continue_ (pullFile staging budget answer entry s.disk) (.files todo manifest)
    | some (.links []) => { s with task := none }
    | some (.links (entry :: todo)) => continue_ (pullLink staging budget entry s.disk) (.links todo)
  | .abandon => { s with task := none }

def enabled (s : State) : Event → Bool
  | .begin _ _ => s.task.isNone
  | .entry _ _ => s.task.isSome
  | .abandon => s.task.isSome

structure Starts (s : State) : Prop where
  directory : s.disk.tree.kind staging = some .directory
  empty : ∀ name dir, staging <:+ dir → s.disk.tree.kind (name :: dir) = none
  created : s.disk.created = []
  task : s.task = none

def system : Transition.System State Event where
  init := Starts staging
  enabled s e := enabled s e = true
  next := next staging

end Entries

end LocalModelWorks.Agent.Pull
