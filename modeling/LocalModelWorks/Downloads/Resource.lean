import LocalModelWorks.Plan.Document

/-!
# Artifact identities

`artifactidentity.Canonical`, with the functions of `strings` and `path` and the patterns of
names, revisions and digests that the checks of paths and identities share.
-/

namespace LocalModelWorks.Downloads

open Recipe (Text)
open Plan (SourceType)

variable (c : Char)

/-- `unicode.IsControl` -/
def isControl : Bool := c.toNat < 0x20 || (0x7f ≤ c.toNat && c.toNat < 0xa0)

variable (text : Text)

def hasControl : Bool := text.any isControl

/-- `strings.Cut` at one character. -/
def cut : Text × Option Text :=
  (text.takeWhile (· ≠ c), match text.dropWhile (· ≠ c) with
    | [] => none
    | _ :: after => some after)

def trimPrefix (head text : Text) : Text := (text.dropPrefix? head).getD text

def containsAny (chars text : Text) : Bool := text.any chars.contains

def dotDot : Text := ['.', '.']

def cleanElement (rooted : Bool) (out : List Text) (element : Text) : List Text :=
  if element = [] || element = ['.'] then out
  else if element ≠ dotDot then element :: out
  else
    match out with
    | [] => if rooted then [] else [dotDot]
    | last :: rest => if last = dotDot then dotDot :: out else rest

/-- `path.Clean` -/
def clean (path : Text) : Text :=
  let rooted := path.head? = some '/'
  let body := ['/'].intercalate ((path.splitOn '/').foldl (cleanElement rooted) []).reverse
  if rooted then '/' :: body else if body = [] then ['.'] else body

/-- `path.Join` -/
def join (elements : List Text) : Text :=
  match elements.filter (· ≠ []) with
  | [] => []
  | parts => clean (['/'].intercalate parts)

def isLowerHex : Bool := c.isDigit || ('a' ≤ c && c ≤ 'f')

/-- `^sha256:[0-9a-f]{64}$` -/
def isDigest : Bool :=
  match text.dropPrefix? "sha256:".toList with
  | some hex => hex.length = 64 && hex.all isLowerHex
  | none => false

/-- `^[0-9a-f]{40}$` -/
def isRevision : Bool := text.length = 40 && text.all isLowerHex

/-- `[A-Za-z0-9][A-Za-z0-9._-]*` -/
def isRepoName : Text → Bool
  | [] => false
  | c :: rest => c.isAlphanum && rest.all fun d => d.isAlphanum || ['.', '_', '-'].contains d

def isHFRepo : Bool :=
  match cut '/' text with
  | (owner, some repo) => isRepoName owner && isRepoName repo
  | (_, none) => false

/-- `artifactidentity.Canonical` -/
def canonical (type : SourceType) (identity revision digest : Text) : Except String Text :=
  match type with
  | .huggingface =>
    let given := trimPrefix "huggingface://".toList (trimPrefix "hf://".toList identity)
    let base := (cut '@' given).1
    let pinned := (cut '@' given).2
    if pinned.any fun p => revision ≠ [] && revision ≠ p then .error "artifact revision conflicts with identity"
    else
      let revision := if revision = [] then pinned.getD [] else revision
      if !isHFRepo base || !isRevision revision then
        .error "Hugging Face identity requires owner/repo and a 40-hex revision"
      else .ok ("hf://".toList ++ base ++ '@' :: revision)
  | .oci =>
    let base := (cut '@' identity).1
    let pinned := (cut '@' identity).2
    if pinned.any fun p => digest ≠ [] && digest ≠ p then .error "artifact digest conflicts with identity"
    else
      let digest := if digest = [] then pinned.getD [] else digest
      if base = [] || containsAny [' ', '\t', '\r', '\n'] base || !isDigest digest then
        .error "OCI identity requires a repository and sha256 digest"
      else .ok (base ++ '@' :: digest)
  | .file | .localFile =>
    let identity := trimPrefix "file://".toList identity
    let digest := if digest = [] && isDigest identity then identity else digest
    if !isDigest digest then .error "file identity requires a sha256 digest"
    else .ok ("file://".toList ++ digest)
  | .recipe => .error "unsupported artifact source type \"recipe\""

end LocalModelWorks.Downloads
