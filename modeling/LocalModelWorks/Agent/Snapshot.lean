import LocalModelWorks.Agent.Resume
import LocalModelWorks.Transition

/-!
# Fetching a snapshot

`fetchHFSnapshot` of a repository into an empty model directory.
-/

namespace LocalModelWorks.Agent.Snapshot

open Resume (Attempt Honest DownloadError retryResumeHTTPFile)
open Transition

abbrev Text := List Char

abbrev Location := List Text

inductive Entry
  | directory
  | file (content : Resume.Bytes)
  | link (blob : Text)
  deriving DecidableEq

abbrev Tree := Location → Option Entry

def emptyTree : Tree := fun location => if location = [] then some .directory else none

def setEntry (t : Tree) (location : Location) (entry : Option Entry) : Tree :=
  fun other => if other = location then entry else t other

def mkdirAll (t : Tree) : Location → Option Tree
  | [] => if t [] = some .directory then some t else none
  | name :: dir =>
    match mkdirAll t dir with
    | none => none
    | some t =>
      match t (name :: dir) with
      | none => some (setEntry t (name :: dir) (some .directory))
      | some .directory => some t
      | some _ => none

inductive Kind
  | sha256
  | gitSha1
  deriving DecidableEq

structure Digest where
  kind : Kind
  value : Text
  deriving DecidableEq

def Kind.length : Kind → Nat
  | .sha256 => 64
  | .gitSha1 => 40

def isLowerHex (c : Char) : Bool := "0123456789abcdef".toList.contains c

def validHFFileDigest (digest : Digest) : Bool := digest.value.length = digest.kind.length && digest.value.all isLowerHex

structure File where
  name : Text
  dir : Location
  size : Int
  digest : Digest
  deriving DecidableEq

def File.location (f : File) : Location := f.name :: f.dir

def File.part (f : File) : Location := (f.name ++ ".part".toList) :: f.dir

/-- The hexadecimal digests: of the bytes, or of the git object that they make. -/
abbrev Hash := Kind → Resume.Bytes → Text

inductive FetchError
  | invalidSize (f : File)
  | duplicate (f : File)
  | checksum (f : File)
  | download (e : DownloadError)
  | digestMismatch (f : File)
  | corruptBlob
  | disk
  | cancelled
  deriving DecidableEq

def FetchError.text : FetchError → String
  | invalidSize f => "HF file " ++ String.ofList f.name ++ " has invalid size"
  | duplicate f => "HF metadata contains duplicate file " ++ String.ofList f.name
  | checksum f => "HF file " ++ String.ofList f.name ++ " has no supported upstream checksum"
  | download e => e.text
  | digestMismatch f => "HF file " ++ String.ofList f.name ++ " digest mismatch"
  | corruptBlob => "download.active_file_invalid: existing immutable blob is corrupt"
  | disk => "file exists"
  | cancelled => "context canceled"

def existingSnapshotFile (hash : Hash) (cancelled : Bool) (f : File) : Option Entry → Bool
  | some (.file content) =>
    content.length = f.size && validHFFileDigest f.digest && !cancelled && hash f.digest.kind content = f.digest.value
  | _ => false

structure Disk where
  partials : Tree
  blobs : Text → Option Resume.Bytes
  links : Tree

def Disk.setPartial (disk : Disk) (f : File) (entry : Option Entry) : Disk :=
  { disk with partials := setEntry disk.partials f.part entry }

def Disk.setBlob (disk : Disk) (name : Text) (content : Resume.Bytes) : Disk :=
  { disk with blobs := fun other => if other = name then some content else disk.blobs other }

inductive Phase
  | begin
  | fetch
  | verify
  | refetch
  | reverify
  | stat
  | checkBlob
  | link
  | remove
  | symlink
  deriving DecidableEq

inductive Next
  | goto (phase : Phase)
  | fail (e : FetchError)
  | done
  deriving DecidableEq

/-- What the attempts of a download meet. The server is honest, and the first attempt is not disturbed. -/
structure Network (content : File → Resume.Bytes) where
  attempt : File → Nat → Attempt
  honest : ∀ f, Honest (attempt f 0).server (content f)
  faultless : ∀ f, (attempt f 0).faults = .none

section Steps

variable {content : File → Resume.Bytes} (hash : Hash) (cancelled : Bool) (disk : Disk) (f : File)

def afterFetch (next : Phase) (outcome : Resume.Outcome) : Disk × Next :=
  (disk.setPartial f (outcome.2.map Entry.file), match outcome.1 with
    | .ok _ => .goto next
    | .error e => .fail (.download e))

variable (network : Network content) (disk : Disk) (f : File)

def fetchPartial (next : Phase) : Disk × Next :=
  match disk.partials f.dir, disk.partials f.part with
  | some .directory, none => afterFetch disk f next (retryResumeHTTPFile (network.attempt f) f.size none)
  | some .directory, some (.file held) =>
    afterFetch disk f next (retryResumeHTTPFile (network.attempt f) f.size (some held))
  | _, _ => (disk, .fail .disk)

def beginFile : Disk × Next :=
  match disk.partials f.part with
  | some (.file held) =>
    if held.length = f.size && !existingSnapshotFile hash cancelled f (some (.file held)) then
      if cancelled then (disk, .fail .cancelled) else (disk.setPartial f none, .goto .fetch)
    else (disk, .goto .fetch)
  | some _ => (disk, .fail .disk)
  | none => (disk, .goto .fetch)

def verifyFile : Disk × Next :=
  if existingSnapshotFile hash cancelled f (disk.partials f.part) then (disk, .goto .stat)
  else if cancelled then (disk, .fail .cancelled)
  else (disk.setPartial f none, .goto .refetch)

def reverifyFile : Disk × Next :=
  if existingSnapshotFile hash cancelled f (disk.partials f.part) then (disk, .goto .stat)
  else (disk, .fail (.digestMismatch f))

def statBlob : Disk × Next :=
  if cancelled then (disk, .fail .cancelled)
  else match disk.blobs f.digest.value with
    | some _ => (disk, .goto .checkBlob)
    | none => (disk, .goto .link)

def checkBlob : Disk × Next :=
  if existingSnapshotFile hash cancelled f ((disk.blobs f.digest.value).map Entry.file) then (disk, .goto .remove)
  else (disk, .fail .corruptBlob)

def linkBlob : Disk × Next :=
  match disk.partials f.part, disk.blobs f.digest.value with
  | some (.file held), none => (disk.setBlob f.digest.value held, .goto .remove)
  | _, _ => (disk, .fail .disk)

def removePartial : Disk × Next :=
  match disk.partials f.part with
  | some (.file _) => (disk.setPartial f none, .goto .symlink)
  | _ => (disk, .fail .disk)

def symlinkFile : Disk × Next :=
  match mkdirAll disk.links f.dir with
  | none => (disk, .fail .disk)
  | some links =>
    match links f.location with
    | some _ => ({ disk with links := links }, .fail .disk)
    | none => ({ disk with links := setEntry links f.location (some (.link f.digest.value)) }, .done)

def downloadOne : Phase → Disk × Next
  | .begin => beginFile hash cancelled disk f
  | .fetch => fetchPartial network disk f .verify
  | .verify => verifyFile hash cancelled disk f
  | .refetch => fetchPartial network disk f .reverify
  | .reverify => reverifyFile hash cancelled disk f
  | .stat => statBlob cancelled disk f
  | .checkBlob => checkBlob hash cancelled disk f
  | .link => linkBlob disk f
  | .remove => removePartial disk f
  | .symlink => symlinkFile disk f

end Steps

inductive Worker
  | idle
  | busy (f : File) (phase : Phase)
  | gone
  deriving DecidableEq

structure State (ω : Type) where
  queue : List File
  worker : ω → Worker
  disk : Disk
  error : Option FetchError

def State.Finished {ω : Type} (s : State ω) : Prop := ∀ w, s.worker w = .gone

inductive Action (content : File → Resume.Bytes)
  | take
  | run (network : Network content) (noticed : Bool)

def State.setWorker {ω : Type} [DecidableEq ω] (s : State ω) (w : ω) (worker : Worker) : ω → Worker :=
  fun v => if v = w then worker else s.worker v

section System

variable {ω : Type} [DecidableEq ω] {content : File → Resume.Bytes} (hash : Hash) (s : State ω) (w : ω)

def takeJob : State ω :=
  match s.queue with
  | [] => { s with worker := s.setWorker w .gone }
  | f :: rest =>
    { s with
      queue := rest
      worker := s.setWorker w (if s.error.isSome then .gone else .busy f .begin) }

def recordError (e : FetchError) (s : State ω) (w : ω) : State ω :=
  { s with worker := s.setWorker w .gone, error := some (s.error.getD e) }

def afterStep (f : File) (r : Disk × Next) : State ω :=
  match r.2 with
  | .goto phase => { s with disk := r.1, worker := s.setWorker w (.busy f phase) }
  | .fail e => recordError e { s with disk := r.1 } w
  | .done => { s with disk := r.1, worker := s.setWorker w .idle }

def isFetch : Phase → Bool
  | .fetch => true
  | .refetch => true
  | _ => false

def runStep (network : Network content) (noticed : Bool) (f : File) (phase : Phase) : State ω :=
  if s.error.isSome && noticed && isFetch phase then recordError .cancelled s w
  else afterStep s w f (downloadOne hash s.error.isSome network s.disk f phase)

def checkSizes : List File → Except FetchError Unit
  | [] => .ok ()
  | f :: rest => if f.size < 0 ∨ 1099511627776 < f.size then .error (.invalidSize f) else checkSizes rest

def planFiles (seen : List Location) (t : Tree) : List File → Except FetchError Tree
  | [] => .ok t
  | f :: rest =>
    if f.location ∈ seen then .error (.duplicate f)
    else if !validHFFileDigest f.digest then .error (.checksum f)
    else match mkdirAll t f.dir with
      | none => .error .disk
      | some t => planFiles (f.location :: seen) t rest

variable (files : List File)

def prepare : Except FetchError Tree :=
  match checkSizes files with
  | .error e => .error e
  | .ok () => planFiles [] emptyTree files

def hfDownloadConcurrency : Nat := 16

def workerCount : Nat := min hfDownloadConcurrency files.length

def system (content : File → Resume.Bytes) (files : List File) : System (State ω) (ω × Action content) where
  init s := s.queue = files ∧ (∀ w, s.worker w = .idle) ∧ s.error = none ∧ s.disk.links = emptyTree ∧
    (∀ name, s.disk.blobs name = none) ∧ prepare files = .ok s.disk.partials
  enabled s e :=
    match e.2, s.worker e.1 with
    | .take, .idle => True
    | .run _ _, .busy _ _ => True
    | _, _ => False
  next s e :=
    match e.2, s.worker e.1 with
    | .take, .idle => takeJob s e.1
    | .run network noticed, .busy f phase => runStep hash s e.1 network noticed f phase
    | _, _ => s

def State.result {ω : Type} (s : State ω) : Except FetchError Unit :=
  match s.error with
  | some e => .error e
  | none => .ok ()

end System

end LocalModelWorks.Agent.Snapshot
