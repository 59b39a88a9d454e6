import LocalModelWorks.EditScript
import LocalModelWorks.Json
import LocalModelWorks.Separator

/-!
# Merging local and incoming source

`MergeLocalChanges` has git compare the original with either side, reads the hunks back
from the patch, drops the incoming edits that overlap a local one and applies the rest
to the lines of the original.
-/

namespace LocalModelWorks.SourceConfig.Merge

open EditScript

abbrev Bytes := List UInt8

abbrev Text := List Char

abbrev Line := Bytes

def maxSourceBytes : Nat := 16777216

def newline : UInt8 := 10

inductive MergeError
  | sizeLimit
  | unsupportedTextMerge
  | lineLimit
  | staging (detail : String)
  | diff (detail : String)
  | diffInvalid
  | hunkLimit
  | mergeTooLarge
  deriving DecidableEq

def MergeError.text : MergeError → String
  | .sizeLimit => "source.preservation_size_limit"
  | .unsupportedTextMerge => "source.preservation_unsupported_text_merge"
  | .lineLimit => "source.preservation_line_limit"
  | .staging detail => detail
  | .diff detail => "source.preservation_diff: " ++ detail
  | .diffInvalid => "source.preservation_diff_invalid"
  | .hunkLimit => "source.preservation_hunk_limit"
  | .mergeTooLarge => "source.preservation_merge_too_large"

/-- Lines with their terminators; the last one may have none. -/
def sourceTextLines : Bytes → List Line
  | [] => []
  | c :: rest =>
    if c = newline then [c] :: sourceTextLines rest
    else match sourceTextLines rest with
      | [] => [[c]]
      | line :: lines => (c :: line) :: lines

def isContinuation (b : UInt8) : Bool := 0x80 ≤ b && b ≤ 0xBF

def utf8Valid : Bytes → Bool
  | [] => true
  | b :: rest =>
    if b < 0x80 then utf8Valid rest
    else match rest with
      | [] => false
      | c :: rest =>
        if 0xC2 ≤ b && b ≤ 0xDF then isContinuation c && utf8Valid rest
        else match rest with
          | [] => false
          | d :: rest =>
            let third := isContinuation c && isContinuation d
            if b = 0xE0 then 0xA0 ≤ c && third && utf8Valid rest
            else if b = 0xED then c ≤ 0x9F && third && utf8Valid rest
            else if 0xE1 ≤ b && b ≤ 0xEF then third && utf8Valid rest
            else match rest with
              | [] => false
              | e :: rest =>
                let fourth := third && isContinuation e
                if b = 0xF0 then 0x90 ≤ c && fourth && utf8Valid rest
                else if b = 0xF4 then c ≤ 0x8F && fourth && utf8Valid rest
                else 0xF1 ≤ b && b ≤ 0xF3 && fourth && utf8Valid rest

/-- `unicode.IsSpace` -/
def isSpace (c : Char) : Bool :=
  let n := c.toNat
  (9 ≤ n && n ≤ 13) || n = 32 || n = 0x85 || n = 0xA0 || n = 0x1680 || (0x2000 ≤ n && n ≤ 0x200A) || n = 0x2028 ||
    n = 0x2029 || n = 0x202F || n = 0x205F || n = 0x3000

def fieldsFrom (field : Text) : Text → List Text
  | [] => if field = [] then [] else [field.reverse]
  | c :: rest =>
    if isSpace c then
      if field = [] then fieldsFrom [] rest else field.reverse :: fieldsFrom [] rest
    else fieldsFrom (c :: field) rest

def fields (text : Text) : List Text := fieldsFrom [] text

def digitsValue (digits : Text) : Option Nat :=
  if digits = [] || !digits.all Char.isDigit then none else some (Nat.ofDigitChars 10 digits 0)

/-- `strconv.Atoi` -/
def atoi (text : Text) : Option Int :=
  match text with
  | '-' :: digits => (digitsValue digits).bind fun n => if n ≤ 9223372036854775808 then some (-(n : Int)) else none
  | '+' :: digits => (digitsValue digits).bind fun n => if n < 9223372036854775808 then some (n : Int) else none
  | digits => (digitsValue digits).bind fun n => if n < 9223372036854775808 then some (n : Int) else none

def cutComma : Text → Text × Option Text
  | [] => ([], none)
  | ',' :: rest => ([], some rest)
  | c :: rest => (c :: (cutComma rest).1, (cutComma rest).2)

def rangeFrom (start count : Int) : Except MergeError (Nat × Nat) :=
  let first := if count ≠ 0 then start - 1 else start
  if first < 0 then .error .diffInvalid else .ok (first.toNat, count.toNat)

def sourceTextRange (token : Text) : Except MergeError (Nat × Nat) :=
  let (first, countText) := cutComma (token.drop 1)
  match atoi first with
  | none => .error .diffInvalid
  | some start =>
    if start < 0 then .error .diffInvalid
    else match countText with
      | none => rangeFrom start 1
      | some text => match atoi text with
        | none => .error .diffInvalid
        | some count => if count < 0 then .error .diffInvalid else rangeFrom start count

def parseHunk (lines : List Line) (header : Text) : Except MergeError Hunk :=
  match fields header with
  | _ :: first :: second :: _ :: _ => match sourceTextRange first with
    | .error e => .error e
    | .ok (start, count) => match sourceTextRange second with
      | .error _ => .error .diffInvalid
      | .ok (next, size) =>
        if lines.length < next || lines.length - next < size then .error .diffInvalid
        else .ok ⟨start, count, next, size⟩
  | _ => .error .diffInvalid

def isHeader (line : Text) : Bool := ['@', '@', ' '].isPrefixOf line

def parsePatch (lines : List Line) (edits : List (Edit Line)) : List Text → Except MergeError (List (Edit Line))
  | [] => .ok edits
  | line :: rest =>
    if !isHeader line then parsePatch lines edits rest
    else match parseHunk lines line with
      | .error e => .error e
      | .ok hunk =>
        if 4096 < (edits ++ hunk.edits lines).length then .error .hunkLimit
        else parsePatch lines (edits ++ hunk.edits lines) rest

/-- The lines of the patch from the original to a side, or why there is none. -/
structure Env where
  staging : Option String
  git : Bytes → Bytes → Except String (List Text)

variable (env : Env)

def sourceTextEdits (original content : Bytes) : Except MergeError (List (Edit Line)) :=
  let lines := sourceTextLines content
  if 65536 < lines.length then .error .lineLimit
  else match env.git original content with
    | .error e => .error (.diff e)
    | .ok patch => parsePatch lines [] patch

def overlap (own candidate : Edit Line) : Bool :=
  (own.start < candidate.stop && candidate.start < own.stop) ||
    (own.start = own.stop && candidate.start = candidate.stop && own.start = candidate.start) ||
    (own.start = own.stop && candidate.start < own.start && own.start < candidate.stop) ||
    (candidate.start = candidate.stop && own.start < candidate.start && candidate.start < own.stop)

def overlapsLocal (candidate : Edit Line) : List (Edit Line) → Bool
  | [] => false
  | own :: rest =>
    if candidate.stop < own.start then false
    else if overlap own candidate then true
    else overlapsLocal candidate rest

def writeEdits (lines : List Line) (position : Nat) (result : Bytes) : List (Edit Line) → Except MergeError Bytes
  | [] =>
    let result := result ++ (lines.drop position).flatten
    if maxSourceBytes < result.length then .error .mergeTooLarge else .ok result
  | edit :: rest =>
    if edit.start < position || lines.length < edit.stop then .error .diffInvalid
    else
      let result := result ++ (slice lines position edit.start).flatten ++ edit.lines.flatten
      if maxSourceBytes < result.length then .error .mergeTooLarge else writeEdits lines edit.stop result rest

/-- No two of the edits are equal in the order of the sort, so it does not matter how it treats equals. -/
def mergeEdits (original : Bytes) (own incoming : List (Edit Line)) : Except MergeError Bytes :=
  writeEdits (sourceTextLines original) 0 [] (EditScript.sort (own ++ incoming.filter fun edit => !overlapsLocal edit own))

variable (original own incoming : Bytes)

def lineMerge : Except MergeError Bytes :=
  match env.staging with
  | some e => .error (.staging e)
  | none => match sourceTextEdits env original own with
    | .error e => .error e
    | .ok ownEdits => match sourceTextEdits env original incoming with
      | .error e => .error e
      | .ok incomingEdits => mergeEdits original ownEdits incomingEdits

def checkText : List Bytes → Except MergeError Unit
  | [] => .ok ()
  | data :: rest =>
    if data.contains 0 || !utf8Valid data then .error .unsupportedTextMerge
    else if 65536 < data.count newline then .error .lineLimit
    else checkText rest

def mergeLocalChanges : Except MergeError Bytes :=
  if [original, own, incoming].any (maxSourceBytes < ·.length) then .error .sizeLimit
  else if original = own ∨ own = incoming then .ok incoming
  else if original = incoming then .ok own
  else match checkText [original, own, incoming] with
    | .error e => .error e
    | .ok () => lineMerge env original own incoming

def rangeText (sign : Char) (start count : Nat) : Text :=
  sign :: if count = 1 then (start + 1).repr.toList
    else (if count = 0 then start else start + 1).repr.toList ++ ',' :: count.repr.toList

def header (h : Hunk) (heading : Text) : Text :=
  ['@', '@', ' '] ++ (rangeText '-' h.start h.count ++ ' ' :: (rangeText '+' h.next h.size ++ ' ' :: '@' :: '@' :: heading))

/-- The patches are those of hunks that turn the original into the other side, and equal texts give none. -/
structure Honest (env : Env) where
  hunks : Bytes → Bytes → List Hunk
  headed : ∀ {original side patch}, env.git original side = .ok patch →
    List.Forall₂ (fun h line => ∃ heading, line = header h heading) (hunks original side) (patch.filter isHeader)
  script : ∀ original side, Script (sourceTextLines original) (sourceTextLines side) (hunks original side)
  same : ∀ original, hunks original original = []

variable {env : Env} (git : Honest env)

def Honest.edits (original side : Bytes) : List (Edit Line) :=
  editsOf (sourceTextLines side) (git.hunks original side)

def Honest.merged (original own incoming : Bytes) : List (Edit Line) :=
  git.edits original own ++ (git.edits original incoming).filter fun edit =>
    !(git.edits original own).any (edit.overlaps ·)

def Honest.mergedText (original own incoming : Bytes) : Bytes :=
  (patched (sourceTextLines original) (git.merged original own incoming)).flatten

end LocalModelWorks.SourceConfig.Merge
