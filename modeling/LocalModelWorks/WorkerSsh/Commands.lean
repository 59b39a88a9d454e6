import LocalModelWorks.WorkerSsh.Config
import Mathlib.Data.List.TakeWhile

/-!
# Commands in the SSH configuration

`ssh -G` runs the command of an `exec` criterion of a `Match` line. The scan misses one that is
written with an equals sign: `Match exec=command`.
-/

namespace LocalModelWorks.WorkerSsh

open List
open Downloads (clean)

def takesArgument (name : Text) : Bool := !(["all", "canonical", "final"].map String.toList).contains name

inductive Writing
  | apart
  | equals
  deriving DecidableEq

def criterionName (word : Text) : Text :=
  ((if word.head? = some '!' then word.tail else word).takeWhile (· ≠ '=')).map Char.toLower

def writing (word : Text) : Writing := if word.contains '=' then .equals else .apart

def criteria : List Text → List (Text × Writing)
  | [] => []
  | [word] => [(criterionName word, writing word)]
  | word :: argument :: rest =>
    if writing word = .apart && takesArgument (criterionName word) then (criterionName word, .apart) :: criteria rest
    else (criterionName word, writing word) :: criteria (argument :: rest)

def HasExec (w : Writing) (line : Text) : Prop :=
  ∃ keyword args, readLine line = some (keyword, args) ∧ keyword.map Char.toLower = "match".toList ∧
    ("exec".toList, w) ∈ criteria args

def IsMatchExec (line : Text) : Prop := ∃ w, HasExec w line

def Machine.lines (m : Machine) (path : Text) : List Text :=
  match m.file path with
  | .regular _ (.ok content) => (rawLines content).map dropCR
  | _ => []

def Includes (m : Machine) (home base path other : Text) : Prop :=
  ∃ line ∈ m.lines path, ∃ keyword args, readLine line = some (keyword, args) ∧
    keyword.map Char.toLower = "include".toList ∧ ∃ pattern ∈ args, ∃ rounds expanded matched,
      expandInclude m rounds pattern home base = .ok expanded ∧ includeGlob m expanded = .ok matched ∧ other ∈ matched

def Reached (m : Machine) (roots : List ConfigRoot) (home path : Text) : Prop :=
  ∃ root ∈ roots, Relation.ReflTransGen (Includes m home root.base) root.path path

theorem bind_ok {α β : Type} {x : Outcome α} {f : α → Outcome β} {b : β} (h : (x >>= f) = Outcome.ok b) :
    ∃ a, x = .ok a ∧ f a = .ok b := by
  rcases x with _ | _ | a
  · cases h
  · cases h
  · exact ⟨a, rfl, h⟩

theorem forEach_ok {α σ : Type} {body : α → σ → Outcome σ} {xs : List α} {s t : σ} (h : forEach body xs s = .ok t) :
    ∀ x ∈ xs, ∃ s₁ s₂, body x s₁ = .ok s₂ := by
  induction xs generalizing s with
  | nil => exact forall_mem_nil _
  | cons x xs ih =>
    obtain ⟨s', hBody, hRest⟩ := bind_ok h
    exact forall_mem_cons.mpr ⟨⟨s, s', hBody⟩, ih hRest⟩

variable {pattern keyword : Text} {k : Nat} {args : List Text}

theorem expandVariables_more {m : Machine} {rounds : Nat} {expanded : Text}
    (h : expandVariables m rounds pattern = .ok expanded) (more : Nat) :
    expandVariables m (rounds + more) pattern = .ok expanded := by
  induction rounds generalizing pattern with
  | zero => cases h
  | succ rounds ih =>
    rw [Nat.succ_add]
    cases hCut : cutVariable pattern with
    | none =>
      simp only [expandVariables, hCut] at h ⊢
      exact h
    | some parts =>
      simp only [expandVariables, hCut] at h ⊢
      obtain ⟨next, hNext, hRest⟩ := bind_ok h
      rw [hNext]
      exact ih hRest

theorem expandVariables_unique {m : Machine} {n : Nat} {e f : Text} (he : expandVariables m n pattern = .ok e)
    (hf : expandVariables m k pattern = .ok f) : e = f := by
  have hSame := (expandVariables_more he k).symm.trans (Nat.add_comm n k ▸ expandVariables_more hf n)
  exact Except.ok.inj (Option.some.inj hSame)

theorem expandInclude_unique {m : Machine} {n : Nat} {home base e f : Text}
    (he : expandInclude m n pattern home base = .ok e) (hf : expandInclude m k pattern home base = .ok f) :
    e = f := by
  unfold expandInclude at he hf
  split at he
  · cases he
  rename_i hLen
  rw [if_neg hLen] at hf
  obtain ⟨p, hp, he⟩ := bind_ok he
  obtain ⟨q, hq, hf⟩ := bind_ok hf
  cases expandVariables_unique hp hq
  exact Except.ok.inj (Option.some.inj (he.symm.trans hf))

theorem isPlain_of_toLower {c : Char} (h : isPlain c.toLower = true) : isPlain c = true := by
  by_contra hNot
  simp only [isPlain, isBlank, isQuote, Bool.not_eq_true', Bool.not_eq_false, Bool.or_eq_true, decide_eq_true_eq] at hNot
  rcases hNot with (((((rfl | rfl) | rfl) | (rfl | rfl)) | rfl) | rfl) | rfl <;> exact absurd h (by decide)

theorem toLower_ascii {text : Text} (h : ∀ c ∈ text, c ≠ 'Ä' ∧ c ≠ 'â') : toLower text = text.map Char.toLower := by
  fun_induction toLower text with
  | case1 => exact absurd rfl (h _ mem_cons_self).1
  | case2 => exact absurd rfl (h _ mem_cons_self).2
  | case3 c rest _ _ ih => rw [map_cons, ih fun d hd => h d (mem_cons_of_mem _ hd)]
  | case4 => rfl

theorem keyword_fields {line word : Text} (h : readLine line = some (keyword, args))
    (hWord : keyword.map Char.toLower = word) (hPlain : word.all isPlain = true) (hSome : word ≠ [])
    (hAscii : word.all (fun c => c ≠ 'Ä' && c ≠ 'â') = true) :
    configFields line = some (keyword :: args) ∧ toLower keyword = word := by
  subst hWord
  refine ⟨configFields_eq h ?_ fun hNil => hSome (by rw [hNil]; rfl), toLower_ascii fun c hc => ?_⟩
  · rw [all_eq_true] at hPlain ⊢
    exact fun c hc => isPlain_of_toLower (hPlain _ (mem_map_of_mem hc))
  have hLower := all_eq_true.mp hAscii _ (mem_map_of_mem hc)
  refine ⟨?_, ?_⟩
  · rintro rfl
    exact absurd hLower (by decide)
  · rintro rfl
    exact absurd hLower (by decide)

theorem isExec_of_name {word : Text} (hApart : writing word = .apart) (hName : criterionName word = "exec".toList) :
    isExec word = true := by
  have hEquals : '=' ∉ word := by
    intro hMem
    rw [writing, if_pos (contains_iff_mem.mpr hMem)] at hApart
    cases hApart
  have hWhole : ∀ text : Text, '=' ∉ text → text.takeWhile (· ≠ '=') = text := by
    intro text hText
    rw [takeWhile_eq_self_iff]
    intro c hc
    exact decide_eq_true fun hSame => hText (hSame ▸ hc)
  have hStripped : '=' ∉ (if word.head? = some '!' then word.tail else word) := by
    split
    · exact fun hMem => hEquals (mem_of_mem_tail hMem)
    · exact hEquals
  rw [criterionName, hWhole _ hStripped] at hName
  exact decide_eq_true hName

theorem isExec_of_criteria (h : ("exec".toList, Writing.apart) ∈ criteria args) : args.any isExec = true := by
  fun_induction criteria args with
  | case1 => cases h
  | case2 word =>
    obtain ⟨hName, hWriting⟩ := Prod.mk.inj (mem_singleton.mp h)
    rw [any_cons, isExec_of_name hWriting.symm hName.symm, Bool.true_or]
  | case3 word argument rest hApart ih =>
    rw [Bool.and_eq_true, decide_eq_true_eq] at hApart
    rcases mem_cons.mp h with hHere | hRest
    · rw [any_cons, isExec_of_name hApart.1 (Prod.mk.inj hHere).1.symm, Bool.true_or]
    · rw [any_cons, any_cons, ih hRest, Bool.or_true, Bool.or_true]
  | case4 word argument rest _ ih =>
    rcases mem_cons.mp h with hHere | hRest
    · obtain ⟨hName, hWriting⟩ := Prod.mk.inj hHere
      rw [any_cons, isExec_of_name hWriting.symm hName.symm, Bool.true_or]
    · rw [any_cons, ih hRest, Bool.or_true]

section Accepted

variable {m : Machine} {rounds : Nat} {home base path line : Text} {next : Text → State → Outcome State} {s t : State}

theorem scanFields_match (hWord : toLower keyword = "match".toList)
    (h : scanFields m rounds home base next path s (keyword :: args) = .ok t) :
    ("exec".toList, Writing.apart) ∉ criteria args := by
  intro hExec
  cases args with
  | nil => cases hExec
  | cons first rest =>
    rw [scanFields, if_pos hWord, if_pos (isExec_of_criteria hExec)] at h
    cases h

theorem scanFields_include {expanded : Text} {matched : List Text} {other : Text}
    (hWord : toLower keyword = "include".toList)
    (h : scanFields m rounds home base next path s (keyword :: args) = .ok t) (hPattern : pattern ∈ args)
    (hExpanded : expandInclude m k pattern home base = .ok expanded) (hMatched : includeGlob m expanded = .ok matched)
    (hOther : other ∈ matched) : ∃ s₁ s₂, next other s₁ = .ok s₂ := by
  cases args with
  | nil => cases hPattern
  | cons first rest =>
    rw [scanFields, if_neg (by rw [hWord]; decide), if_neg (by rw [hWord]; decide), if_pos hWord] at h
    obtain ⟨s₁, s₂, hInclude⟩ := forEach_ok h pattern hPattern
    obtain ⟨expanded', hExpanded', hVisit⟩ := bind_ok hInclude
    cases expandInclude_unique hExpanded hExpanded'
    rw [hMatched] at hVisit
    dsimp only at hVisit
    split at hVisit
    · cases hVisit
    · exact forEach_ok hVisit other hOther

theorem readConfig_some {data : Text} (h : readConfig m path s = .ok (some data)) :
    ∃ size, m.file path = .regular size (.ok data) := by
  unfold readConfig at h
  split at h
  · cases h
  · cases h
  · cases h
  rename_i size content hFile
  split at h
  · cases h
  split at h
  · cases h
  rename_i content
  split at h
  · cases h
  rename_i hSize
  have hData : content.take (maxConfigBytes - s.size + 1) = data :=
    Option.some.inj (Except.ok.inj (Option.some.inj h))
  refine ⟨size, ?_⟩
  rw [hFile, ← hData, take_of_length_le]
  rw [length_take] at hSize
  omega

theorem readConfig_none (h : readConfig m path s = .ok none) : m.file path = .missing := by
  unfold readConfig at h
  repeat' split at h
  all_goals first | assumption | cases h

theorem visit_lines {depth : Nat} (h : visit m rounds home base (depth + 1) path s = .ok t)
    (hClean : m.file (clean path) = m.file path) :
    ∀ line ∈ m.lines path, ∃ s₁ s₂ fields, configFields line = some fields ∧
      scanFields m rounds home base (visit m rounds home base depth) (clean path) s₁ fields = .ok s₂ := by
  rw [visit] at h
  split at h
  · cases h
  split at h
  · cases h
  obtain ⟨data, hRead, hRest⟩ := bind_ok h
  cases data with
  | none =>
    rw [Machine.lines, ← hClean, readConfig_none hRead]
    exact forall_mem_nil _
  | some data =>
    obtain ⟨size, hFile⟩ := readConfig_some hRead
    obtain ⟨t', hLines, _⟩ := bind_ok hRest
    intro line hLine
    rw [Machine.lines, ← hClean, hFile] at hLine
    obtain ⟨raw, hRaw, rfl⟩ := mem_map.mp hLine
    obtain ⟨s₁, s₂, hScan⟩ := forEach_ok hLines raw hRaw
    unfold scanConfigLine at hScan
    split at hScan
    · cases hScan
    split at hScan
    · cases hScan
    next fields hFields => exact ⟨s₁, s₂, fields, hFields, hScan⟩

theorem visit_apart {depth : Nat} (h : visit m rounds home base depth path s = .ok t)
    (hClean : ∀ p, Relation.ReflTransGen (Includes m home base) path p → m.file (clean p) = m.file p) {other : Text}
    (hOther : Relation.ReflTransGen (Includes m home base) path other) (hLine : line ∈ m.lines other) :
    ¬HasExec .apart line := by
  induction depth generalizing path s t with
  | zero => cases h
  | succ depth ih =>
    have hLines := visit_lines h (hClean path .refl)
    rcases Relation.ReflTransGen.cases_head hOther with rfl | ⟨q, hIncludes, hRest⟩
    · rintro ⟨keyword, args, hRead, hWord, hExec⟩
      obtain ⟨s₁, s₂, fields, hFields, hScan⟩ := hLines line hLine
      obtain ⟨hSame, hLower⟩ := keyword_fields hRead hWord (by decide) (by decide) (by decide)
      cases hFields.symm.trans hSame
      exact scanFields_match hLower hScan hExec
    obtain ⟨l, hl, keyword, args, hRead, hWord, pattern, hPattern, k, expanded, matched, hExpanded, hMatched, hq⟩ :=
      id hIncludes
    obtain ⟨s₁, s₂, fields, hFields, hScan⟩ := hLines l hl
    obtain ⟨hSame, hLower⟩ := keyword_fields hRead hWord (by decide) (by decide) (by decide)
    cases hFields.symm.trans hSame
    obtain ⟨u, v, hVisit⟩ := scanFields_include hLower hScan hPattern hExpanded hMatched hq
    exact ih hVisit (fun p hp => hClean p (.head hIncludes hp)) hRest

end Accepted

/-- In an accepted configuration whose paths name the same files when they are cleaned, the only commands are
those that are written with an equals sign. -/
theorem accepted_commands {m : Machine} {rounds : Nat} {roots : List ConfigRoot} {home : Text} {aliases : List Text}
    (h : discoverAliases m rounds roots home = .ok aliases)
    (hClean : ∀ path, Reached m roots home path → m.file (clean path) = m.file path) :
    (∀ path, Reached m roots home path → ∀ line ∈ m.lines path, ¬IsMatchExec line) ↔
      ∀ path, Reached m roots home path → ∀ line ∈ m.lines path, ¬HasExec .equals line := by
  obtain ⟨s, hRoots, _⟩ := bind_ok h
  refine ⟨fun hNone path hPath line hLine hExec => hNone path hPath line hLine ⟨.equals, hExec⟩, ?_⟩
  rintro hNone path hPath line hLine ⟨w, hExec⟩
  cases w with
  | equals => exact hNone path hPath line hLine hExec
  | apart =>
    obtain ⟨root, hRoot, hChain⟩ := hPath
    obtain ⟨s₁, s₂, hVisit⟩ := forEach_ok hRoots root hRoot
    exact visit_apart hVisit (fun p hp => hClean p ⟨root, hRoot, hp⟩) hChain hLine hExec

def samplePath : Text := "/etc/ssh/ssh_config".toList

def sampleMachine (content : String) : Machine where
  file path := if path = samplePath then .regular content.length (.ok content.toList) else .missing
  glob _ := .ok []
  lookupEnv _ := none
  lookupUser _ := .error "unknown user"
  parseAddr _ := none

def sampleRoots : List ConfigRoot := [⟨samplePath, "/etc/ssh".toList⟩]

theorem sample_reached (content : String) {path : Text} (h : Reached (sampleMachine content) sampleRoots [] path) :
    path = samplePath := by
  obtain ⟨root, hRoot, hChain⟩ := h
  cases mem_singleton.mp hRoot
  rcases Relation.ReflTransGen.cases_tail hChain with hSame | ⟨q, _, hIncludes⟩
  · exact hSame
  obtain ⟨_, _, _, _, _, _, _, _, _, _, matched, _, hMatched, hMem⟩ := hIncludes
  unfold includeGlob at hMatched
  split at hMatched
  · cases hMatched
  · cases hMatched
    cases hMem

def hostMatch : Machine := sampleMachine "Match host=b\nHost a\n"

theorem accepted_commands_plain : discoverAliases hostMatch 1 sampleRoots [] = .ok ["a".toList] ∧
    Reached hostMatch sampleRoots [] samplePath ∧ hostMatch.lines samplePath = ["Match host=b".toList, "Host a".toList] ∧
    (∀ path, Reached hostMatch sampleRoots [] path → ∀ line ∈ hostMatch.lines path, ¬HasExec .equals line) ∧
    ∀ path, Reached hostMatch sampleRoots [] path → ∀ line ∈ hostMatch.lines path, ¬IsMatchExec line := by
  have hOk : discoverAliases hostMatch 1 sampleRoots [] = .ok ["a".toList] := by decide +kernel
  have hLines : hostMatch.lines samplePath = ["Match host=b".toList, "Host a".toList] := by decide +kernel
  have hNone : ∀ path, Reached hostMatch sampleRoots [] path → ∀ line ∈ hostMatch.lines path, ¬HasExec .equals line := by
    intro path hPath
    rw [sample_reached _ hPath, hLines, forall_mem_cons, forall_mem_singleton]
    have hMatch : readLine "Match host=b".toList = some ("Match".toList, ["host=b".toList]) := by decide +kernel
    have hHost : readLine "Host a".toList = some ("Host".toList, ["a".toList]) := by decide +kernel
    constructor
    · rintro ⟨keyword, args, hRead, _, hExec⟩
      cases hMatch.symm.trans hRead
      exact absurd hExec (by decide)
    · rintro ⟨keyword, args, hRead, hWord, _⟩
      cases hHost.symm.trans hRead
      exact absurd hWord (by decide)
  refine ⟨hOk, ⟨_, mem_singleton.mpr rfl, .refl⟩, hLines, hNone, (accepted_commands hOk fun path hPath => ?_).mpr hNone⟩
  rw [sample_reached _ hPath]
  decide +kernel

theorem match_exec_missed : discoverAliases (sampleMachine "Match exec=touch\n") 1 sampleRoots [] = .ok [] ∧
      Reached (sampleMachine "Match exec=touch\n") sampleRoots [] samplePath ∧
      ∃ line ∈ (sampleMachine "Match exec=touch\n").lines samplePath, IsMatchExec line := by
  refine ⟨by decide +kernel, ⟨_, mem_singleton.mpr rfl, .refl⟩, "Match exec=touch".toList, by decide +kernel,
    .equals, "Match".toList, ["exec=touch".toList], by decide +kernel, by decide, by decide⟩

end LocalModelWorks.WorkerSsh
