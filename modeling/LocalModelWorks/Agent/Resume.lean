import Mathlib.Data.List.Basic

/-!
# Resumed downloads

`resumeHTTPFile` continues a partial file with a range request, or starts it again when the
server sends everything.
-/

namespace LocalModelWorks.Agent.Resume

open List

abbrev Bytes := List UInt8

inductive DownloadError
  | transport
  | contentRangeInvalid
  | status (code : Nat)
  | size (got want : Int)
  | disk
  | cancelled
  | attempts (last : DownloadError)
  deriving DecidableEq

def DownloadError.text : DownloadError → String
  | transport => "transport"
  | contentRangeInvalid => "download.content_range_invalid"
  | status code => "download HTTP " ++ toString code
  | size got want => "download size " ++ toString got ++ ", want " ++ toString want
  | disk => "disk"
  | cancelled => "context canceled"
  | attempts last => "download failed after 5 attempts: " ++ last.text

structure Response where
  status : Nat
  contentRange : String
  body : Bytes
  broken : Bool

/-- What comes back for a `Range` header, if there is one; nothing when the request fails. -/
abbrev Server := Option String → Option Response

/-- The operations on the destination that fail; a write may fail after some bytes. -/
structure Faults where
  remove : Bool
  openFile : Bool
  write : Option Nat
  close : Bool
  chmod : Bool

def Faults.none : Faults := ⟨false, false, Option.none, false, false⟩

abbrev Outcome := Except DownloadError Unit × Option Bytes

def int64 (n : Int) : Int := n.bmod 18446744073709551616

def rangeHeader (offset : Int) : String := "bytes=" ++ toString offset ++ "-"

def wantedRange (offset expectedSize : Int) : String :=
  "bytes " ++ toString offset ++ "-" ++ toString (expectedSize - 1) ++ "/" ++ toString expectedSize

section

variable (faults : Faults)

def chmod : Option Bytes → Outcome
  | none => (.error .disk, none)
  | some file => (if faults.chmod then .error .disk else .ok (), some file)

variable (response : Response)

def copyBody (limit : Int) : Bytes × Bool :=
  let body := response.body.take limit.toNat
  match faults.write with
  | some n => if n < body.length then (body.take n, false)
    else (body, !(response.broken && response.body.length < limit.toNat))
  | none => (body, !(response.broken && response.body.length < limit.toNat))

variable (expectedSize offset : Int) (start : Bytes)

def receive : Outcome :=
  let (written, ok) := copyBody faults response (int64 (expectedSize - offset + 1))
  let file := start ++ written
  if !ok then (.error .transport, some file)
  else if faults.close then (.error .disk, some file)
  else if int64 (offset + written.length) ≠ expectedSize then
    (.error (.size (int64 (offset + written.length)) expectedSize), some file)
  else chmod faults (some file)

variable (destination : Option Bytes)

def openAndReceive : Outcome :=
  if faults.openFile then (.error .disk, destination) else receive faults response expectedSize offset start

variable (server : Server) (faults : Faults) (expectedSize : Int) (destination : Option Bytes)

def download : Outcome :=
  let start := destination.getD []
  let offset : Int := start.length
  match server (if 0 < offset then some (rangeHeader offset) else none) with
  | none => (.error .transport, destination)
  | some response =>
    if 0 < offset ∧ response.status = 206 then
      if response.contentRange ≠ wantedRange offset expectedSize then (.error .contentRangeInvalid, destination)
      else openAndReceive faults response expectedSize offset start destination
    else if response.status = 200 then openAndReceive faults response expectedSize 0 [] destination
    else (.error (.status response.status), destination)

def discardOversized : Option Bytes → Except DownloadError (Option Bytes)
  | none => .ok none
  | some file =>
    if expectedSize < file.length then if faults.remove then .error .disk else .ok none
    else .ok (some file)

def fileSize : Int := (destination.getD []).length

def resumeHTTPFile : Outcome :=
  match discardOversized faults expectedSize destination with
  | .error e => (.error e, destination)
  | .ok kept => if fileSize kept = expectedSize then chmod faults kept else download server faults expectedSize kept

end

def hfDownloadAttempts : Nat := 5

def DownloadError.isTerminal : DownloadError → Bool
  | .status code => code ≠ 408 && code ≠ 429 && code < 500
  | _ => false

structure Attempt where
  server : Server
  faults : Faults
  cancelled : Bool
  cancelledInPause : Bool

def Attempt.run (attempt : Attempt) (expectedSize : Int) (destination : Option Bytes)
    (again : DownloadError → Option Bytes → Outcome) : Outcome :=
  match resumeHTTPFile attempt.server attempt.faults expectedSize destination with
  | (.ok (), file) => (.ok (), file)
  | (.error e, file) =>
    if attempt.cancelled then (.error .cancelled, file)
    else if e.isTerminal then (.error e, file)
    else again e file

def retry (attempt : Nat → Attempt) (expectedSize : Int) (k : Nat) : Nat → Option Bytes → Outcome
  | 0, destination => (attempt k).run expectedSize destination fun e file => (.error (.attempts e), file)
  | pauses + 1, destination => (attempt k).run expectedSize destination fun _ file =>
    if (attempt k).cancelledInPause then (.error .cancelled, file)
    else retry attempt expectedSize (k + 1) pauses file

def retryResumeHTTPFile (attempt : Nat → Attempt) (expectedSize : Int) (destination : Option Bytes) : Outcome :=
  retry attempt expectedSize 0 (hfDownloadAttempts - 1) destination

def HasSize (size : Int) (destination : Option Bytes) : Prop := ∃ file, destination = some file ∧ (file.length : Int) = size

def IsInt64 (n : Int) : Prop := -9223372036854775808 ≤ n ∧ n < 9223372036854775808

theorem int64_of_isInt64 {n : Int} (h : IsInt64 n) : int64 n = n := by
  obtain ⟨hLow, hHigh⟩ := h
  unfold int64
  rw [Int.bmod_def]
  omega

variable {size offset : Int} {destination out : Option Bytes} {faults : Faults} {response : Response}
  {start content file : Bytes} {server : Server}

theorem size_of_sum {written : Nat} (hOffset : 0 ≤ offset) (hBelow : offset ≤ size ∨ offset = 0)
    (hLimit : written ≤ (int64 (size - offset + 1)).toNat)
    (hSum : int64 (offset + written) = size) : offset + written = size := by
  unfold int64 at hLimit hSum
  rw [Int.bmod_def] at hLimit hSum
  omega

theorem copyBody_begins (faults : Faults) (response : Response) (limit : Int) :
    (copyBody faults response limit).1 <+: response.body.take limit.toNat := by
  unfold copyBody
  dsimp only
  split
  · split
    · exact List.take_prefix _ _
    · exact prefix_rfl
  · exact prefix_rfl

theorem chmod_ok (h : chmod faults destination = (.ok (), out)) : out = destination ∧ destination.isSome = true := by
  cases destination with
  | none => cases h
  | some file => exact ⟨(Prod.mk.inj h).2.symm, rfl⟩

section

variable (hStart : (start.length : Int) = offset) (hBelow : offset ≤ size ∨ offset = 0)
include hStart hBelow

theorem receive_size (h : receive faults response size offset start = (.ok (), out)) : HasSize size out := by
  have hLimit := Nat.le_trans (copyBody_begins faults response (int64 (size - offset + 1))).length_le
    (length_take_le _ _)
  unfold receive at h
  generalize copyBody faults response (int64 (size - offset + 1)) = copied at h hLimit
  obtain ⟨written, ok⟩ := copied
  dsimp only at h hLimit
  split at h
  · cases h
  split at h
  · cases h
  split at h
  · cases h
  rename_i hSum
  refine ⟨start ++ written, (chmod_ok h).1, ?_⟩
  rw [length_append, Int.natCast_add, hStart]
  exact size_of_sum (by omega) hBelow hLimit (not_not.mp hSum)

theorem openAndReceive_size (h : openAndReceive faults response size offset start destination = (.ok (), out)) :
    HasSize size out := by
  unfold openAndReceive at h
  split at h
  · cases h
  · exact receive_size hStart hBelow h

end

theorem download_size (hBelow : destination = none ∨ fileSize destination ≤ size)
    (h : download server faults size destination = (.ok (), out)) : HasSize size out := by
  have hOffset : ((destination.getD []).length : Int) ≤ size ∨ ((destination.getD []).length : Int) = 0 :=
    hBelow.symm.imp_right fun hNone => by rw [hNone]; rfl
  unfold download at h
  dsimp only at h
  split at h
  · cases h
  split at h
  · split at h
    · cases h
    · exact openAndReceive_size rfl hOffset h
  split at h
  · refine openAndReceive_size ?_ (Or.inr rfl) h
    rfl
  · cases h

theorem discardOversized_ok {kept : Option Bytes} (h : discardOversized faults size destination = .ok kept) :
    kept = none ∨ kept = destination ∧ fileSize kept ≤ size := by
  cases destination with
  | none =>
    cases h
    exact Or.inl rfl
  | some file =>
    rw [discardOversized] at h
    split at h
    · split at h
      · cases h
      · cases h
        exact Or.inl rfl
    · cases h
      exact Or.inr ⟨rfl, Int.not_lt.mp ‹_›⟩

theorem resume_size (h : resumeHTTPFile server faults size destination = (.ok (), out)) : HasSize size out := by
  unfold resumeHTTPFile at h
  split at h
  · cases h
  rename_i kept hKept
  split at h
  next hFull =>
    obtain ⟨rfl, hFile⟩ := chmod_ok h
    obtain ⟨file, rfl⟩ := Option.isSome_iff_exists.mp hFile
    exact ⟨file, rfl, hFull⟩
  · exact download_size ((discardOversized_ok hKept).imp_right And.right) h

structure Response.Full (response : Response) (content : Bytes) : Prop where
  status : response.status = 200
  body : response.body = content
  whole : response.broken = false

structure Response.Remainder (response : Response) (content : Bytes) (n : Nat) : Prop where
  status : response.status = 206
  range : response.contentRange = wantedRange n content.length
  body : response.body = content.drop n
  whole : response.broken = false

structure Honest (server : Server) (content : Bytes) : Prop where
  plain : ∃ response, server none = some response ∧ response.Full content
  ranged : ∀ n : Nat, ∃ response, server (some (rangeHeader n)) = some response ∧
    (response.Full content ∨ response.Remainder content n)

def Resumable (content : Bytes) : Option Bytes → Prop
  | none => True
  | some file => file <+: content ∨ content.length < file.length

theorem copyBody_whole (hWhole : response.broken = false) {limit : Int}
    (hLimit : (response.body.length : Int) ≤ limit) : copyBody .none response limit = (response.body, true) := by
  have hTake : response.body.take limit.toNat = response.body := take_of_length_le (by omega)
  simp only [copyBody, Faults.none, hWhole, Bool.false_and, Bool.not_false, hTake]

theorem openAndReceive_whole {rest : Bytes} (hBody : response.body = rest) (hWhole : response.broken = false)
    (hContent : start ++ rest = content) (hSize : (content.length : Int) - start.length + 1 < 9223372036854775808)
    (hInt : (content.length : Int) < 9223372036854775808) (destination : Option Bytes) :
    openAndReceive .none response content.length start.length start destination = (.ok (), some content) := by
  have hLen : (content.length : Int) = start.length + rest.length := by
    rw [← hContent, length_append, Int.natCast_add]
  have hLimit := int64_of_isInt64 ⟨by omega, hSize⟩
  have hSum : int64 (start.length + rest.length) = content.length := by
    rw [← hLen]
    exact int64_of_isInt64 ⟨by omega, hInt⟩
  rw [openAndReceive, if_neg (by simp [Faults.none]), receive, copyBody_whole hWhole (by rw [hBody]; omega), hBody]
  dsimp only
  rw [hSum, hContent, if_neg (by simp), if_neg (by simp [Faults.none]), if_neg (by simp)]
  rfl

theorem download_full
    (hServer : server (if 0 < ((destination.getD []).length : Int) then some (rangeHeader (destination.getD []).length)
      else none) = some response) (hFull : response.Full content)
    (hSize : (content.length : Int) + 1 < 9223372036854775808) :
    download server .none content.length destination = (.ok (), some content) := by
  have hNothing : [] ++ content = content := rfl
  have hReceive := openAndReceive_whole hFull.body hFull.whole hNothing (by simpa using hSize) (by omega) destination
  unfold download
  dsimp only
  rw [hServer]
  dsimp only
  rw [if_neg (by rw [hFull.status]; simp), if_pos hFull.status]
  exact hReceive

theorem download_whole (hServer : Honest server content) (hFile : file <+: content)
    (hSize : (content.length : Int) + 1 < 9223372036854775808) :
    download server .none content.length (some file) = (.ok (), some content) := by
  cases file with
  | nil =>
    obtain ⟨response, hResp, hFull⟩ := hServer.plain
    exact download_full hResp hFull hSize
  | cons b file =>
    obtain ⟨response, hResp, hKind⟩ := hServer.ranged (b :: file).length
    have hReq : server (if 0 < (((some (b :: file)).getD []).length : Int)
        then some (rangeHeader ((some (b :: file)).getD []).length) else none) = some response := by
      rw [if_pos (by simp)]
      exact hResp
    rcases hKind with hFull | hRest
    · exact download_full hReq hFull hSize
    obtain ⟨rest, hRestEq⟩ := hFile
    have hDrop : content.drop (b :: file).length = rest := by rw [← hRestEq, drop_left]
    unfold download
    dsimp only
    rw [hReq]
    dsimp only
    rw [if_pos ⟨by simp, hRest.status⟩]
    refine (if_neg (not_not.mpr hRest.range)).trans ?_
    exact openAndReceive_whole (hRest.body.trans hDrop) hRest.whole hRestEq (by omega) (by omega) _

theorem download_none (hServer : Honest server content) (hSize : (content.length : Int) + 1 < 9223372036854775808) :
    download server .none content.length none = (.ok (), some content) := by
  obtain ⟨response, hResp, hFull⟩ := hServer.plain
  exact download_full hResp hFull hSize

/-- When a resumed download of this content cannot go wrong: there is something to fetch or the empty
file is there, and the limit of the copy does not overflow. -/
def Completable (content : Bytes) (destination : Option Bytes) : Prop :=
  (content = [] → destination = some []) ∧ ((content.length : Int) = 9223372036854775807 → destination = some content)

instance (content : Bytes) (destination : Option Bytes) : Decidable (Completable content destination) :=
  inferInstanceAs (Decidable (_ ∧ _))

theorem resume_none : resumeHTTPFile server .none content.length none =
      if content = [] then (.error .disk, none) else download server .none content.length none := by
  cases content with
  | nil | cons => rfl

theorem resume_longer (h : content.length < file.length) :
    resumeHTTPFile server .none content.length (some file) = resumeHTTPFile server .none content.length none := by
  have hDiscard : discardOversized .none content.length (some file) = .ok none := by
    rw [discardOversized, if_pos (by omega), if_neg (by simp [Faults.none])]
  rw [resumeHTTPFile, hDiscard]
  rfl

theorem resume_begun (h : file <+: content) : resumeHTTPFile server .none content.length (some file) =
      if file = content then (.ok (), some content) else download server .none content.length (some file) := by
  have hLen := h.length_le
  have hDiscard : discardOversized .none content.length (some file) = .ok (some file) := by
    rw [discardOversized, if_neg (by omega)]
  rw [resumeHTTPFile, hDiscard]
  dsimp only
  by_cases hSame : file = content
  · rw [if_pos (by rw [hSame]; rfl), if_pos hSame, hSame]
    rfl
  have hDiffer : ¬fileSize (some file) = content.length := fun hEq => hSame (h.eq_of_length (Int.ofNat.inj hEq))
  rw [if_neg hDiffer, if_neg hSame]

theorem completable_longer (h : content.length < file.length) :
    Completable content (some file) ↔ Completable content none := by
  have hNe : file ≠ content := fun hEq => absurd h (hEq ▸ Nat.lt_irrefl _)
  have hSome : file ≠ [] := fun hNil => by simp [hNil] at h
  simp [Completable, hNe, hSome]

theorem resume_whole (hServer : Honest server content) (hStart : Resumable content destination)
    (hSize : (content.length : Int) < 9223372036854775808) (h : Completable content destination) :
    resumeHTTPFile server .none content.length destination = (.ok (), some content) := by
  have hNone (h : Completable content none) :
      resumeHTTPFile server .none content.length none = (.ok (), some content) := by
    simp only [Completable, reduceCtorEq, imp_false] at h
    rw [resume_none, if_neg h.1]
    exact download_none hServer (by omega)
  cases destination with
  | none => exact hNone h
  | some file =>
    rcases hStart with hPre | hLonger
    · rw [resume_begun hPre]
      split
      · rfl
      rename_i hDiffer
      have hBelow : (content.length : Int) ≠ 9223372036854775807 := fun hMax =>
        hDiffer (Option.some.inj (h.2 hMax))
      exact download_whole hServer hPre (by omega)
    · rw [resume_longer hLonger]
      exact hNone ((completable_longer hLonger).mp h)

def plainServer (content : Bytes) : Server := fun _ => some ⟨200, "", content, false⟩

theorem plainServer_honest (content : Bytes) : Honest (plainServer content) content :=
  ⟨⟨_, rfl, rfl, rfl, rfl⟩, fun _ => ⟨_, rfl, Or.inl ⟨rfl, rfl, rfl⟩⟩⟩

theorem download_overflow (h : (content.length : Int) = 9223372036854775807) (destination : Option Bytes) :
    (download (plainServer content) .none content.length destination).1 ≠ .ok () := by
  have hLimit : int64 (content.length - 0 + 1) = -9223372036854775808 := by
    rw [h]
    decide
  have hCopy : copyBody .none ⟨200, "", content, false⟩ (int64 (content.length - 0 + 1)) = ([], true) := by
    rw [hLimit]
    rfl
  have hReceive : (openAndReceive .none ⟨200, "", content, false⟩ content.length 0 [] destination).1 ≠ .ok () := by
    rw [openAndReceive, if_neg (by simp [Faults.none]), receive, hCopy]
    dsimp only
    rw [if_neg (by simp), if_neg (by simp [Faults.none]), if_pos]
    · intro hOk
      cases hOk
    · rw [h]
      decide
  unfold download
  dsimp only [plainServer]
  rw [if_neg (by simp), if_pos rfl]
  exact hReceive

theorem completable_of_plain (hStart : Resumable content destination)
    (h : resumeHTTPFile (plainServer content) .none content.length destination = (.ok (), some content)) :
    Completable content destination := by
  have hDownload : ∀ kept, (content.length : Int) = 9223372036854775807 →
      download (plainServer content) .none content.length kept ≠ (.ok (), some content) := fun kept hMax hOk =>
    download_overflow hMax kept (congrArg Prod.fst hOk)
  have hNone : resumeHTTPFile (plainServer content) .none content.length none = (.ok (), some content) →
      Completable content none := by
    intro hOk
    rw [resume_none] at hOk
    split at hOk
    · cases hOk
    next hContent => exact ⟨fun hNil => absurd hNil hContent, fun hMax => absurd hOk (hDownload none hMax)⟩
  cases destination with
  | none => exact hNone h
  | some file =>
    rcases hStart with hPre | hLonger
    · rw [resume_begun hPre] at h
      refine ⟨fun hNil => ?_, fun hMax => ?_⟩
      · rw [hNil] at hPre
        rw [prefix_nil.mp hPre]
      split at h
      next hSame => rw [hSame]
      · exact absurd h (hDownload _ hMax)
    rw [resume_longer hLonger] at h
    exact (completable_longer hLonger).mpr (hNone h)

/-- A resumed download of a resumable file completes with every honest server exactly when it is
completable, and one that completes has left a file of the expected size, whatever the server. -/
theorem resume_completes_iff (content : Bytes) (destination : Option Bytes)
    (hSize : (content.length : Int) < 9223372036854775808) (hStart : Resumable content destination) :
    ((∀ server, Honest server content →
        resumeHTTPFile server .none content.length destination = (.ok (), some content)) ↔
      Completable content destination) ∧
    ∀ (server : Server) (faults : Faults) (size : Int) (destination out : Option Bytes), IsInt64 size →
      resumeHTTPFile server faults size destination = (.ok (), out) → HasSize size out := by
  refine ⟨⟨fun h => ?_, fun h server hServer => ?_⟩, ?_⟩
  · exact completable_of_plain hStart (h _ (plainServer_honest content))
  · exact resume_whole hServer hStart hSize h
  · intro server faults size destination out _ h
    exact resume_size h

theorem resume_completes_prefix :
    resumeHTTPFile (plainServer [1, 2, 3]) .none 3 (some [1]) = (.ok (), some [1, 2, 3]) :=
  ((resume_completes_iff [1, 2, 3] (some [1]) (by decide) (Or.inl (by decide))).1.mpr (by decide)) _
    (plainServer_honest _)

theorem resume_empty_fails : Honest (plainServer []) [] ∧ Resumable [] none ∧
      resumeHTTPFile (plainServer []) .none 0 none = (.error .disk, none) :=
  ⟨plainServer_honest [], trivial, rfl⟩

structure Truthful (server : Server) (content : Bytes) : Prop where
  full : ∀ header response, server header = some response → response.status = 200 → response.body <+: content
  remainder : ∀ (n : Nat) response, server (some (rangeHeader n)) = some response → response.status = 206 →
    response.body <+: content.drop n

theorem receive_begins (h : start ++ response.body <+: content) :
    Resumable content (receive faults response size offset start).2 := by
  have hFile : start ++ (copyBody faults response (int64 (size - offset + 1))).1 <+: content :=
    ((prefix_append_right_inj start).mpr ((copyBody_begins _ _ _).trans (List.take_prefix _ _))).trans h
  unfold receive
  dsimp only
  split_ifs <;> exact Or.inl hFile

theorem openAndReceive_begins (hStart : Resumable content destination) (h : start ++ response.body <+: content) :
    Resumable content (openAndReceive faults response size offset start destination).2 := by
  unfold openAndReceive
  split
  · exact hStart
  · exact receive_begins h

theorem download_resumable (hServer : Truthful server content) {kept : Option Bytes}
    (hKept : kept.getD [] <+: content) :
    Resumable content (download server faults size kept).2 := by
  have hStart : Resumable content kept := by
    cases kept with
    | none => trivial
    | some file => exact Or.inl hKept
  unfold download
  dsimp only
  split
  · exact hStart
  rename_i response hResp
  split
  next hPart =>
    rw [if_pos hPart.1] at hResp
    split
    · exact hStart
    obtain ⟨rest, hRest⟩ := hKept
    have hBody := hServer.remainder _ response hResp hPart.2
    have hDrop : content.drop (kept.getD []).length = rest := by rw [← hRest, drop_left]
    refine openAndReceive_begins hStart ?_
    rw [hDrop] at hBody
    rw [← hRest]
    exact (prefix_append_right_inj _).mpr hBody
  split
  next hStatus => exact openAndReceive_begins hStart (hServer.full _ response hResp hStatus)
  · exact hStart

theorem resume_resumable (hServer : Truthful server content) (hStart : Resumable content destination) :
    Resumable content (resumeHTTPFile server faults content.length destination).2 := by
  unfold resumeHTTPFile
  split
  · exact hStart
  rename_i kept hDiscard
  -- an oversized file is gone, any other begins the content
  have hKept : kept.getD [] <+: content ∧ Resumable content kept := by
    rcases discardOversized_ok hDiscard with rfl | ⟨rfl, hShort⟩
    · exact ⟨List.nil_prefix, trivial⟩
    cases kept with
    | none => exact ⟨List.nil_prefix, trivial⟩
    | some file => exact ⟨hStart.resolve_right (Nat.not_lt.mpr (Int.ofNat_le.mp hShort)), hStart⟩
  split
  · cases kept with
    | none => trivial
    | some file => exact hKept.2
  · exact download_resumable hServer hKept.1

structure Attempt.Transient (attempt : Attempt) (content : Bytes) : Prop where
  truthful : Truthful attempt.server content
  going : attempt.cancelled = false ∧ attempt.cancelledInPause = false
  again : ∀ destination e file, resumeHTTPFile attempt.server attempt.faults content.length destination = (.error e, file) →
    e.isTerminal = false

theorem content_of_size (hFile : Resumable content destination) (hSize : HasSize content.length destination) :
    destination = some content := by
  obtain ⟨file, rfl, hLen⟩ := hSize
  have hPre : file <+: content := hFile.resolve_right (by omega)
  rw [hPre.eq_of_length (Int.ofNat.inj hLen)]

theorem retry_completes {attempt : Nat → Attempt} (hContent : content ≠ [])
    (hSize : (content.length : Int) < 9223372036854775807) {j pauses k : Nat} (hj : j ≤ pauses)
    (hHonest : Honest (attempt (k + j)).server content) (hFaults : (attempt (k + j)).faults = .none)
    (hEarlier : ∀ i < j, (attempt (k + i)).Transient content) (hStart : Resumable content destination) :
    retry attempt content.length k pauses destination = (.ok (), some content) := by
  induction j generalizing k pauses destination with
  | zero =>
    have hResume : resumeHTTPFile (attempt k).server (attempt k).faults content.length destination =
        (.ok (), some content) := by
      rw [show (attempt k).faults = .none from hFaults]
      exact resume_whole hHonest hStart (by omega) (⟨fun hNil => absurd hNil hContent, fun hMax => by omega⟩)
    cases pauses with
    | zero | succ => rw [retry, Attempt.run, hResume]
  | succ j ih =>
    cases pauses with
    | zero => omega
    | succ pauses =>
      have hFirst := hEarlier 0 (Nat.succ_pos j)
      have hLeft : Resumable content
          (resumeHTTPFile (attempt k).server (attempt k).faults content.length destination).2 :=
        resume_resumable hFirst.truthful hStart
      rw [retry, Attempt.run]
      cases hResume : resumeHTTPFile (attempt k).server (attempt k).faults content.length destination with
      | mk result file =>
        rw [hResume] at hLeft
        dsimp only at hLeft
        cases result with
        | ok u =>
          rw [content_of_size hLeft (resume_size hResume)]
        | error e =>
          dsimp only
          rw [if_neg (by simpa using hFirst.going.1), hFirst.again _ _ _ hResume, if_neg (by simp),
            if_neg (by simpa using hFirst.going.2)]
          have hShift : ∀ i, k + 1 + i = k + (i + 1) := fun i => by omega
          refine ih (by omega) (hShift j ▸ hHonest) (hShift j ▸ hFaults) (fun i hi => ?_) hLeft
          rw [hShift]
          exact hEarlier (i + 1) (by omega)

end LocalModelWorks.Agent.Resume
