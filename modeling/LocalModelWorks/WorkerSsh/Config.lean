import LocalModelWorks.Downloads.Resource
import LocalModelWorks.WorkerSsh.Fields

/-!
# Scanning the SSH configuration

`discoverAliases` walks the root files and what they include, collects the literal hosts and
refuses a configuration that could run a command. The expansion of environment variables in
an include path need not end, so it is given a number of rounds; without enough of them
nothing is returned.
-/

namespace LocalModelWorks.WorkerSsh

open Downloads (clean join cut containsAny)

def maxConfigFiles : Nat := 64

def maxConfigBytes : Nat := 1048576

def maxAliases : Nat := 128

/-- `bufio.MaxScanTokenSize` -/
def maxLineBytes : Nat := 65536

structure ConfigRoot where
  path : Text
  base : Text
  deriving DecidableEq

inductive Lookup
  | missing
  | failed (e : String)
  | special
  | regular (size : Int) (content : Except String Text)
  deriving DecidableEq

structure Machine where
  file : Text → Lookup
  glob : Text → Except String (List Text)
  lookupEnv : Text → Option Text
  lookupUser : Text → Except String Text
  parseAddr : Text → Option Text

inductive ConfigError
  | limit
  | cycle (path : Text)
  | read (path : Text) (e : String)
  | notRegular (path : Text)
  | bytes
  | tooLong
  | openQuote (path : Text)
  | matchExec (path : Text)
  | aliases
  | includeLength
  | includeEnvironment
  | includeValue
  | includeToken
  | includeAccount (name : Text) (e : String)
  | includePattern (pattern : Text) (e : String)
  | includeFiles
  deriving DecidableEq

def quoted (text : Text) : String := "\"" ++ String.ofList text ++ "\""

def ConfigError.text : ConfigError → String
  | limit => "SSH configuration exceeds include depth/file limit"
  | cycle path => "SSH configuration include cycle at " ++ quoted path
  | read path e => "read SSH configuration " ++ quoted path ++ ": " ++ e
  | notRegular path => "SSH configuration " ++ quoted path ++ " is not a regular file"
  | bytes => "SSH configuration exceeds byte limit"
  | tooLong => "bufio.Scanner: token too long"
  | openQuote path => "SSH configuration " ++ quoted path ++ ": unterminated SSH configuration quote or escape"
  | matchExec path => "SSH configuration " ++ quoted path ++
      " uses Match exec; read-only worker SSH checks cannot execute local commands"
  | aliases => "SSH configuration exceeds literal Host alias limit"
  | includeLength => "SSH Include path exceeds length limit"
  | includeEnvironment => "invalid environment expansion in SSH Include"
  | includeValue => "unavailable or recursive environment expansion in SSH Include"
  | includeToken => "token-expanded SSH Include paths are unsupported by read-only worker SSH checks"
  | includeAccount name e => "resolve SSH Include account " ++ quoted name ++ ": " ++ e
  | includePattern pattern e => "invalid SSH Include pattern " ++ quoted pattern ++ ": " ++ e
  | includeFiles => "SSH configuration exceeds include file limit"

def Outcome (α : Type) := Option (Except ConfigError α)

def Outcome.ok {α : Type} (a : α) : Outcome α := some (.ok a)

def Outcome.fail {α : Type} (e : ConfigError) : Outcome α := some (.error e)

def Outcome.bind {α β : Type} (x : Outcome α) (f : α → Outcome β) : Outcome β :=
  match x with
  | none => none
  | some (.error e) => .fail e
  | some (.ok a) => f a

instance {α : Type} [DecidableEq α] : DecidableEq (Outcome α) := inferInstanceAs (DecidableEq (Option (Except _ _)))

instance : Monad Outcome where
  pure := Outcome.ok
  bind := Outcome.bind

def forEach {α σ : Type} (body : α → σ → Outcome σ) : List α → σ → Outcome σ
  | [], s => .ok s
  | a :: rest, s => do
    let s ← body a s
    forEach body rest s

def isNameByte (c : Char) : Bool := c.isAlphanum || c = '_' || c = '-' || c = '.'

variable (value : Text)

def safeName (trailingDot : Bool) : Bool :=
  value ≠ [] && value.head? ≠ some '-' && value.head? ≠ some '.' && value.all isNameByte &&
    (trailingDot || value.getLast? ≠ some '.')

/-- `strings.TrimSuffix(strings.TrimPrefix(value, "["), "]")` -/
def unbracket : Text :=
  let value := if value.head? = some '[' then value.tail else value
  if value.getLast? = some ']' then value.dropLast else value

variable (m : Machine)

def validHost (value : Text) : Bool :=
  if value = [] || 253 < value.length then false
  else if (value.head? = some '[') != (value.getLast? = some ']') then false
  else
    match m.parseAddr (unbracket value) with
    | some zone => zone = [] || safeName zone false
    | none => safeName value true

def cutVariable : Text → Option (Text × Text)
  | [] => none
  | c :: rest =>
    if c = '$' && rest.head? = some '\x7b' then some ([], rest.tail)
    else (cutVariable rest).map fun (before, after) => (c :: before, after)

def replaceVariable (before after : Text) : Outcome Text :=
  match cut '\x7d' after with
  | (_, none) => .fail .includeEnvironment
  | (name, some rest) =>
    match m.lookupEnv name with
    | none => .fail .includeValue
    | some value =>
      if (cutVariable value).isSome then .fail .includeValue
      else if 4096 < (before ++ value ++ rest).length then .fail .includeLength
      else .ok (before ++ value ++ rest)

def expandVariables (m : Machine) : Nat → Text → Outcome Text
  | 0, _ => none
  | rounds + 1, pattern =>
    match cutVariable pattern with
    | none => .ok pattern
    | some (before, after) => do
      let pattern ← replaceVariable m before after
      expandVariables m rounds pattern

def expandHome (home pattern : Text) : Outcome Text :=
  match pattern with
  | '~' :: path =>
    let (name, rest) := cut '/' path
    if name = [] then .ok (join [home, rest.getD []])
    else match m.lookupUser name with
      | .error e => .fail (.includeAccount name e)
      | .ok home => .ok (join [home, rest.getD []])
  | pattern => .ok pattern

def expandInclude (rounds : Nat) (pattern home base : Text) : Outcome Text := do
  if 4096 < pattern.length then Outcome.fail .includeLength
  else
    let pattern ← expandVariables m rounds pattern
    if pattern.contains '%' then Outcome.fail .includeToken
    else
      let pattern ← expandHome m home pattern
      Outcome.ok (if pattern.head? = some '/' then pattern else join [base, pattern])

def unsupportedBrackets : List Text := ["[:", "[.", "[=", "[]", "[!]", "[^]"].map String.toList

def negations : Bool → Text → Text
  | _, [] => []
  | true, c :: rest => c :: negations false rest
  | false, '\\' :: rest => '\\' :: negations true rest
  | false, '[' :: '!' :: rest => '[' :: '^' :: negations false rest
  | false, c :: rest => c :: negations false rest

def includeGlob (pattern : Text) : Except String (List Text) :=
  if unsupportedBrackets.any fun sub => pattern.tails.any sub.isPrefixOf then
    .error "unsupported bracket expression in read-only worker SSH checks"
  else m.glob (negations false pattern)

/-- The lines of a text, as `bufio.ScanLines` takes them off. -/
def rawLines (data : Text) : List Text :=
  let parts := data.splitOn '\n'
  if parts.getLast? = some [] then parts.dropLast else parts

def dropCR (line : Text) : Text := if line.getLast? = some '\r' then line.dropLast else line

/-- `strings.ToLower` as far as it leads to ASCII: besides the ASCII letters, a dotted capital I and the Kelvin sign. -/
def toLower : Text → Text
  | 'Ä' :: '°' :: rest => 'i' :: toLower rest
  | 'â' :: '\u0084' :: 'ª' :: rest => 'k' :: toLower rest
  | c :: rest => c.toLower :: toLower rest
  | [] => []

/-- `strings.EqualFold(strings.TrimPrefix(field, "!"), "exec")` -/
def isExec (field : Text) : Bool :=
  (if field.head? = some '!' then field.tail else field).map Char.toLower = "exec".toList

structure State where
  aliases : List Text
  active : List Text
  files : Nat
  size : Nat
  deriving DecidableEq

def addAlias (name : Text) (s : State) : Outcome State :=
  if !validHost m name || containsAny "[]:".toList name || s.aliases.contains name then .ok s
  else if maxAliases ≤ s.aliases.length then .fail .aliases
  else .ok { s with aliases := s.aliases ++ [name] }

section Visit

variable (m : Machine) (rounds : Nat) (home base : Text)

section

variable (visit : Text → State → Outcome State)

def includePattern (pattern : Text) (s : State) : Outcome State := do
  let pattern ← expandInclude m rounds pattern home base
  match includeGlob m pattern with
  | .error e => Outcome.fail (.includePattern pattern e)
  | .ok matched =>
    if maxConfigFiles - s.files < matched.length then Outcome.fail .includeFiles else forEach visit matched s

variable (path : Text) (s : State)

def scanFields : List Text → Outcome State
  | keyword :: first :: rest =>
    if toLower keyword = "match".toList then
      if (first :: rest).any isExec then .fail (.matchExec path) else .ok s
    else if toLower keyword = "host".toList then forEach (addAlias m) (first :: rest) s
    else if toLower keyword = "include".toList then
      forEach (includePattern m rounds home base visit) (first :: rest) s
    else .ok s
  | _ => .ok s

def scanConfigLine (path line : Text) (s : State) : Outcome State :=
  if maxLineBytes ≤ line.length then .fail .tooLong
  else
    match configFields (dropCR line) with
    | none => .fail (.openQuote path)
    | some fields => scanFields m rounds home base visit path s fields

def readConfig : Outcome (Option Text) :=
  match m.file path with
  | .missing => .ok none
  | .failed e => .fail (.read path e)
  | .special => .fail (.notRegular path)
  | .regular size content =>
    if (maxConfigBytes - s.size : Int) < size then .fail .bytes
    else
      match content with
      | .error e => .fail (.read path e)
      | .ok content =>
        if maxConfigBytes < s.size + (content.take (maxConfigBytes - s.size + 1)).length then .fail .bytes
        else .ok (some (content.take (maxConfigBytes - s.size + 1)))

end

/-- `visit` with the include levels that are left. -/
def visit : Nat → Text → State → Outcome State
  | 0, _, _ => .fail .limit
  | depth + 1, path, s =>
    if maxConfigFiles ≤ s.files then .fail .limit
    else if s.active.contains (clean path) then .fail (.cycle (clean path))
    else do
      match ← readConfig m (clean path) s with
      | none => Outcome.ok s
      | some data =>
        let t ← forEach (scanConfigLine m rounds home base (visit depth) (clean path)) (rawLines data)
          { s with size := s.size + data.length, files := s.files + 1, active := clean path :: s.active }
        Outcome.ok { t with active := t.active.erase (clean path) }

end Visit

/-- Includes may be nested eight deep. -/
def discoverAliases (m : Machine) (rounds : Nat) (roots : List ConfigRoot) (home : Text) : Outcome (List Text) := do
  let s ← forEach (fun root => visit m rounds home root.base 9 root.path) roots ⟨[], [], 0, 0⟩
  Outcome.ok s.aliases

end LocalModelWorks.WorkerSsh
