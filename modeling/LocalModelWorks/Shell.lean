import Mathlib.Data.List.Basic

/-!
# Expansion phases of a shell

What a text becomes on its way to a command: the word scan of a POSIX shell with quoting,
the backslash processing inside double quotes and unquoted here-documents, and the
interpolation of a compose file.
-/

namespace LocalModelWorks.Shell

abbrev Text := List Char

inductive Mode
  | word
  | escape
  | single
  | double
  | doubleEscape
  | dollar
  | ansi
  | ansiEscape
  deriving DecidableEq

variable (c : Char)

def isBlank : Bool := c = ' ' || c = '\t'

def isActive : Bool :=
  ['\n', '|', '&', ';', '(', ')', '<', '>', '`', '*', '?', '[', ']', '#', '~', '\x7b', '\x7d', '!'].contains c

def isEscapable : Bool := c = '$' || c = '`' || c = '"' || c = '\\'

def ansiEscape : Option Char :=
  if c = 'n' then some '\n'
  else if c = 'r' then some '\r'
  else if c = 't' then some '\t'
  else if c = '\\' || c = '\'' || c = '"' then some c
  else none

def step : Mode → Char → Option (Mode × Text)
  | .word, c =>
    if c = '\'' then some (.single, [])
    else if c = '"' then some (.double, [])
    else if c = '\\' then some (.escape, [])
    else if c = '$' then some (.dollar, [])
    else if isActive c then none
    else some (.word, [c])
  | .escape, c => if c = '\n' then none else some (.word, [c])
  | .single, c => if c = '\'' then some (.word, []) else some (.single, [c])
  | .double, c =>
    if c = '"' then some (.word, [])
    else if c = '\\' then some (.doubleEscape, [])
    else if c = '$' || c = '`' then none
    else some (.double, [c])
  | .doubleEscape, c =>
    if c = '\n' then some (.double, [])
    else if isEscapable c then some (.double, [c])
    else some (.double, ['\\', c])
  | .dollar, c => if c = '\'' then some (.ansi, []) else none
  | .ansi, c =>
    if c = '\'' then some (.word, [])
    else if c = '\\' then some (.ansiEscape, [])
    else some (.ansi, [c])
  | .ansiEscape, c => (ansiEscape c).map fun d => (.ansi, [d])

def scan : Option (Mode × Text) → Text → Option (List Text)
  | none, [] => some []
  | some (.word, word), [] => some [word]
  | some _, [] => none
  | none, c :: rest =>
    if isBlank c then scan none rest
    else
      match step .word c with
      | none => none
      | some next => scan (some next) rest
  | some (mode, word), c :: rest =>
    if mode = .word && isBlank c then (scan none rest).map (word :: ·)
    else
      match step mode c with
      | none => none
      | some (next, added) => scan (some (next, word ++ added)) rest

variable (text : Text)

def words : Option (List Text) := scan none text

theorem scan_blank (rest : Text) : scan none (' ' :: rest) = scan none rest := rfl

variable (word rest : Text)

theorem scan_word_blank : scan (some (.word, word)) (' ' :: rest) = (scan none rest).map (word :: ·) := rfl

theorem scan_open (rest : Text) : scan none ('\'' :: rest) = scan (some (.single, [])) rest := rfl

def KeepsQuoted (encode : Char → Text) : Prop :=
  ∀ c word rest, scan (some (.single, word)) (encode c ++ rest) = scan (some (.single, word ++ [c])) rest

theorem KeepsQuoted.flatMap {encode : Char → Text} (h : KeepsQuoted encode) (text : Text) : ∀ word rest,
    scan (some (.single, word)) (text.flatMap encode ++ rest) = scan (some (.single, word ++ text)) rest := by
  induction text with
  | nil => simp
  | cons c text ih =>
    intro word rest
    rw [List.flatMap_cons, List.append_assoc, h, ih]
    simp

theorem KeepsQuoted.scan {encode : Char → Text} (h : KeepsQuoted encode) (text rest : Text) :
    scan none ('\'' :: (text.flatMap encode ++ '\'' :: rest)) = scan (some (.word, text)) rest := by
  rw [scan_open, h.flatMap]
  simp [LocalModelWorks.Shell.scan, step]

def unescape (escapable active : Char → Bool) : Text → Option Text
  | [] => some []
  | ['\\'] => some ['\\']
  | '\\' :: c :: rest =>
    if c = '\n' then unescape escapable active rest
    else if escapable c then (unescape escapable active rest).map (c :: ·)
    else (unescape escapable active (c :: rest)).map ('\\' :: ·)
  | c :: rest => if active c then none else (unescape escapable active rest).map (c :: ·)

def doubleQuoted : Option Text := unescape isEscapable (fun c => c = '$' || c = '`' || c = '"') text

def heredoc (quotesToo : Bool) (text : Text) : Option Text :=
  unescape (fun c => c = '$' || c = '`' || c = '\\' || (quotesToo && c = '"')) (fun c => c = '$' || c = '`') text

def escape (special : Char → Bool) (c : Char) : Text := if special c then ['\\', c] else [c]

theorem unescape_escape {escapable active special : Char → Bool} (hEscapable : ∀ c, special c = true → escapable c = true)
    (hLine : special '\n' = false) (hBackslash : special '\\' = true) (hActive : ∀ c, active c = true → special c = true)
    (text : Text) : unescape escapable active (text.flatMap (escape special)) = some text := by
  induction text with
  | nil => rfl
  | cons c text ih =>
    rw [List.flatMap_cons]
    by_cases hSpecial : special c = true
    · have hNotLine : c ≠ '\n' := by
        rintro rfl
        simp [hLine] at hSpecial
      simp [escape, hSpecial, unescape, hNotLine, hEscapable c hSpecial, ih]
    have hNotBackslash : c ≠ '\\' := by
      rintro rfl
      exact hSpecial hBackslash
    have hQuiet : active c = false := by
      by_contra hTrue
      exact hSpecial (hActive c (by simpa using hTrue))
    rw [escape, if_neg hSpecial, List.singleton_append, unescape, hQuiet, ih]
    · rfl
    · simp [hNotBackslash]
    · simp [hNotBackslash]

/-- `$$` stands for a dollar; any other dollar is an interpolation. -/
def interpolate : Text → Option Text
  | [] => some []
  | '$' :: '$' :: rest => (interpolate rest).map ('$' :: ·)
  | c :: rest => if c = '$' then none else (interpolate rest).map (c :: ·)

theorem interpolate_double : interpolate (text.flatMap fun c => if c = '$' then ['$', '$'] else [c]) = some text := by
  induction text with
  | nil => rfl
  | cons c text ih =>
    rw [List.flatMap_cons]
    by_cases hDollar : c = '$'
    · subst hDollar
      simp [interpolate, ih]
    rw [if_neg hDollar, List.singleton_append, interpolate, if_neg hDollar, ih]
    · rfl
    · simp [hDollar]

def lines : List Text := text.splitOn '\n'

end LocalModelWorks.Shell
