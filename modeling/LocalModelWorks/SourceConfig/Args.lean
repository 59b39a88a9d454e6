import LocalModelWorks.SourceConfig.Encode

/-!
# Protected options

`CheckForbiddenArgs` compares extra arguments with the options that a recipe keeps for
itself.
-/

namespace LocalModelWorks.SourceConfig

open List
open Shell (Text)

def isFlagRest (c : Char) : Bool := c.isAlphanum || c = '_' || c = '-'

/-- `^--?[a-zA-Z0-9][a-zA-Z0-9_-]*$` -/
def isFlagName : Text → Bool
  | '-' :: '-' :: c :: rest => c.isAlphanum && rest.all isFlagRest
  | '-' :: c :: rest => c.isAlphanum && rest.all isFlagRest
  | _ => false

/-- `%q` of a text without characters to escape. -/
def inQuotes (text : Text) : String := "\"" ++ String.ofList text ++ "\""

def optionOf (arg : Text) : Text := arg.takeWhile (· != '=')

def isLong (option : Text) : Bool := "--".toList.isPrefixOf option

def isCluster : Text → Bool
  | '-' :: c :: _ => c != '-'
  | _ => false

def hyphen (c : Char) : Char := if c = '_' then '-' else c

def canonical (engineAliases : Bool) (option : Text) : Text :=
  if engineAliases && isLong option then option.map hyphen else option

structure ProtectedOption where
  flag : Text
  canonical : Text

def protectedOptions (engineAliases : Bool) (seen : List Text) : List Text → Except String (List ProtectedOption)
  | [] => .ok []
  | flag :: rest =>
    if byteLength flag > 128 || !isFlagName flag || seen.contains flag then
      .error ("forbiddenArgs contains an invalid or duplicate option: " ++ inQuotes flag)
    else match protectedOptions engineAliases (flag :: seen) rest with
      | .ok options => .ok (⟨flag, canonical engineAliases flag⟩ :: options)
      | .error message => .error message

def conflicts (engineAliases : Bool) (option : Text) (p : ProtectedOption) : Bool :=
  canonical engineAliases option = p.canonical ||
    engineAliases && 2 < (canonical engineAliases option).length && isLong (canonical engineAliases option) &&
      isLong p.canonical && (canonical engineAliases option).isPrefixOf p.canonical ||
    match p.flag with
    | [_, c] => isCluster option && option.tail.contains c
    | _ => false

def checkArgs (engineAliases : Bool) (options : List ProtectedOption) : List Text → Except String Unit
  | [] => .ok ()
  | arg :: rest =>
    match options.find? (conflicts engineAliases (optionOf arg)) with
    | some p =>
      .error ("argument " ++ inQuotes arg ++ " conflicts with controller-managed option " ++ String.ofList p.flag ++
        "; use full unambiguous options or dedicated configuration controls")
    | none => checkArgs engineAliases options rest

def checkForbiddenArgs (args forbidden : List Text) (engineAliases : Bool) : Except String Unit :=
  if forbidden.length > 128 then .error "forbiddenArgs exceeds 128 options"
  else match protectedOptions engineAliases [] forbidden with
    | .error message => .error message
    | .ok options => checkArgs engineAliases options args

variable {flag arg option : Text} {engineAliases : Bool} {args : List Text}

theorem mem_protectedOptions {seen forbidden : List Text} {options : List ProtectedOption}
    (h : protectedOptions engineAliases seen forbidden = .ok options) (hFlag : flag ∈ forbidden) :
    ⟨flag, canonical engineAliases flag⟩ ∈ options := by
  induction forbidden generalizing seen options with
  | nil => cases hFlag
  | cons head rest ih =>
    rw [protectedOptions] at h
    split at h
    · cases h
    split at h
    next tail hTail =>
      cases h
      rcases mem_cons.mp hFlag with rfl | hRest
      · exact mem_cons_self
      · exact mem_cons_of_mem _ (ih hTail hRest)
    · cases h

theorem checkArgs_eq_ok {options : List ProtectedOption} : checkArgs engineAliases options args = .ok () ↔
      ∀ arg ∈ args, ∀ p ∈ options, conflicts engineAliases (optionOf arg) p = false := by
  induction args with
  | nil => simp [checkArgs]
  | cons arg rest ih =>
    rw [checkArgs, forall_mem_cons, ← ih]
    cases hFind : options.find? (conflicts engineAliases (optionOf arg)) with
    | none =>
      simpa using fun _ => hFind
    | some p =>
      have hClash := find?_some hFind
      refine ⟨fun h => by simp at h, fun h => ?_⟩
      rw [h.1 p (mem_of_find?_eq_some hFind)] at hClash
      cases hClash

theorem conflicts_of_checkForbiddenArgs {forbidden : List Text}
    (h : checkForbiddenArgs args forbidden engineAliases = .ok ()) (hArg : arg ∈ args) (hFlag : flag ∈ forbidden) :
    conflicts engineAliases (optionOf arg) ⟨flag, canonical engineAliases flag⟩ = false := by
  unfold checkForbiddenArgs at h
  split at h
  · cases h
  split at h
  · cases h
  next options hOptions => exact checkArgs_eq_ok.mp h arg hArg _ (mem_protectedOptions hOptions hFlag)

/-- A command line: the declared options, whether the option that a text spells takes a value, and whether names may
be abbreviated and spelled with underscores. -/
structure Parser where
  options : List Text
  takesValue : Text → Bool
  aliases : Bool

namespace Parser

variable (P : Parser)

def letters : Text → Text
  | [] => []
  | c :: rest => c :: if P.takesValue ['-', c] then [] else letters rest

def optionArgs (isValue : Bool) : List Text → List Text
  | [] => []
  | arg :: rest =>
    if isValue then optionArgs false rest
    else if arg = "--".toList then []
    else if "-".toList.isPrefixOf arg then
      arg :: optionArgs (P.takesValue (optionOf arg) && !arg.contains '=') rest
    else optionArgs false rest

structure Abbreviates (option flag : Text) : Prop where
  aliases : P.aliases = true
  spelled : isLong option = true ∧ 2 < option.length ∨ isCluster option = true
  declared : flag ∈ P.options
  starts : canonical true option <+: canonical true flag
  only : ∀ other ∈ P.options, canonical true option <+: canonical true other → canonical true other = canonical true flag

inductive Denotes (arg flag : Text) : Prop
  | name (h : canonical P.aliases (optionOf arg) = canonical P.aliases flag)
  | abbreviation (h : P.Abbreviates (optionOf arg) flag)
  | letter (c : Char) (hFlag : flag = ['-', c]) (hCluster : isCluster (optionOf arg) = true)
      (hLetter : c ∈ P.letters (optionOf arg).tail)

variable {P}

theorem letters_subset {cluster : Text} {c : Char} (h : c ∈ P.letters cluster) : c ∈ cluster := by
  induction cluster with
  | nil => exact h
  | cons head rest ih =>
    rcases mem_cons.mp h with rfl | hRest
    · exact mem_cons_self
    split at hRest
    · cases hRest
    · exact mem_cons_of_mem _ (ih hRest)

theorem optionArgs_subset {isValue : Bool} (h : arg ∈ P.optionArgs isValue args) : arg ∈ args := by
  induction args generalizing isValue with
  | nil => exact h
  | cons head rest ih =>
    rw [optionArgs] at h
    split at h
    · exact mem_cons_of_mem _ (ih h)
    split at h
    · cases h
    split at h
    · rcases mem_cons.mp h with rfl | hRest
      · exact mem_cons_self
      · exact mem_cons_of_mem _ (ih hRest)
    · exact mem_cons_of_mem _ (ih h)

end Parser

theorem isLong_iff : isLong option = true ↔ ∃ rest, option = '-' :: '-' :: rest := by
  rw [isLong, isPrefixOf_iff_prefix]
  exact ⟨fun ⟨rest, h⟩ => ⟨rest, h.symm⟩, fun ⟨rest, h⟩ => ⟨rest, h.symm⟩⟩

theorem isLong_canonical (engineAliases : Bool) : isLong (canonical engineAliases option) = isLong option := by
  unfold canonical
  split
  next h =>
    obtain ⟨rest, rfl⟩ := isLong_iff.mp (Bool.and_eq_true_iff.mp h).2
    rfl
  · rfl

theorem conflicts_of_abbreviates {P : Parser} (h : P.Abbreviates option flag)
    (hLong : isLong option = true ∧ 2 < option.length) :
    conflicts P.aliases option ⟨flag, canonical P.aliases flag⟩ = true := by
  have hLen : 2 < (canonical true option).length := by
    simp only [canonical, hLong.1, Bool.and_self, if_true, length_map]
    exact hLong.2
  have hOption : isLong (canonical true option) = true := (isLong_canonical true).trans hLong.1
  have hFlag : isLong (canonical true flag) = true := by
    obtain ⟨rest, hRest⟩ := isLong_iff.mp hOption
    obtain ⟨tail, hTail⟩ := h.starts
    exact isLong_iff.mpr ⟨rest ++ tail, by rw [← hTail, hRest]; rfl⟩
  simp only [conflicts, h.aliases, Bool.true_and, Bool.or_eq_true, Bool.and_eq_true, decide_eq_true_iff]
  exact .inl (.inr ⟨⟨⟨hLen, hOption⟩, hFlag⟩, isPrefixOf_iff_prefix.mpr h.starts⟩)

theorem denotes_iff_of_conflicts {P : Parser}
    (h : conflicts P.aliases (optionOf arg) ⟨flag, canonical P.aliases flag⟩ = false) :
    P.Denotes arg flag ↔ isCluster (optionOf arg) = true ∧ P.Abbreviates (optionOf arg) flag := by
  constructor
  · intro hDenotes
    cases hDenotes with
    | name hName => simp [conflicts, hName] at h
    | abbreviation hAbbreviates =>
      rcases hAbbreviates.spelled with hLong | hCluster
      · rw [conflicts_of_abbreviates hAbbreviates hLong] at h
        cases h
      · exact ⟨hCluster, hAbbreviates⟩
    | letter c hFlag hCluster hLetter =>
      have hMem := P.letters_subset hLetter
      subst hFlag
      simp [conflicts, hCluster, hMem] at h
  · exact fun hAbbreviates => .abbreviation hAbbreviates.2

/-- Accepted arguments spell no protected option, unless one abbreviates an option with one dash. -/
theorem accepted_args_unprotected_iff (P : Parser) {args forbidden : List Text}
    (h : checkForbiddenArgs args forbidden P.aliases = .ok ()) :
    (∀ arg ∈ P.optionArgs false args, ∀ flag ∈ forbidden, ¬ P.Denotes arg flag) ↔
      ∀ arg ∈ P.optionArgs false args, ∀ flag ∈ forbidden,
        isCluster (optionOf arg) = true → ¬ P.Abbreviates (optionOf arg) flag := by
  refine forall₂_congr fun arg hArg => forall₂_congr fun flag hFlag => ?_
  rw [denotes_iff_of_conflicts (conflicts_of_checkForbiddenArgs h (P.optionArgs_subset hArg) hFlag), not_and]

def sampleEngine : Parser where
  options := ["--port".toList, "--port-mode".toList, "-p".toList, "--dtype".toList, "-tp".toList]
  takesValue _ := true
  aliases := true

theorem accepted_args_unprotected_port :
    checkForbiddenArgs ["--port-mode=auto".toList, "--dtype".toList, "bfloat16".toList] ["--port".toList, "-p".toList]
        true = .ok () ∧
      ∀ arg ∈ sampleEngine.optionArgs false ["--port-mode=auto".toList, "--dtype".toList, "bfloat16".toList],
        ∀ flag ∈ ["--port".toList, "-p".toList], ¬ sampleEngine.Denotes arg flag := by
  have hCheck : checkForbiddenArgs ["--port-mode=auto".toList, "--dtype".toList, "bfloat16".toList]
      ["--port".toList, "-p".toList] true = .ok () := by decide +kernel
  refine ⟨hCheck, (accepted_args_unprotected_iff sampleEngine hCheck).mpr ?_⟩
  have hNone : ∀ arg ∈ sampleEngine.optionArgs false ["--port-mode=auto".toList, "--dtype".toList, "bfloat16".toList],
      isCluster (optionOf arg) = false := by decide +kernel
  intro arg hArg flag _ hCluster
  rw [hNone arg hArg] at hCluster
  cases hCluster

theorem accepted_args_abbreviate : checkForbiddenArgs ["-t".toList, "8".toList] ["-tp".toList] true = .ok () ∧
      "-t".toList ∈ sampleEngine.optionArgs false ["-t".toList, "8".toList] ∧
      sampleEngine.Denotes "-t".toList "-tp".toList := by
  refine ⟨by decide +kernel, by decide +kernel, .abbreviation ⟨rfl, .inr rfl, by decide, ?_, ?_⟩⟩
  · exact ⟨"p".toList, rfl⟩
  · decide

end LocalModelWorks.SourceConfig
