import LocalModelWorks.FileTree

/-!
# Configuration paths of an upstream checkout

`upstreamPath` resolves a relative path below a root and accepts a missing one by looking
for its longest ancestor that exists.
-/

namespace LocalModelWorks.Upstream.Path

open FileTree

abbrev Tree := FileTree String

abbrev Names := List String

inductive PathError
  | refused (message : String)
  | notExist
  | notDirectory
  | isDirectory
  | tooManyLinks
  deriving DecidableEq

/-- `filepath.EvalSymlinks` of an absolute path. -/
def evalSymlinks (t : Tree) (path : Names) : Except PathError Names :=
  match t.follow 255 (absolutePath path) [] with
  | .found location => .ok location
  | .missing _ _ => .error .notExist
  | .notDirectory => .error .notDirectory
  | .tooManyLinks => .error .tooManyLinks

/-- `open` with `O_CREAT`: the location of the file it writes. The kernel follows `links` links. -/
def openCreate (t : Tree) (links : Nat) (path : Names) : Except PathError Names :=
  match t.follow links (absolutePath path) [] with
  | .found location => if t.kind location = some .directory then .error .isDirectory else .ok location
  | .missing location [] => .ok location
  | .missing _ (_ :: _) => .error .notExist
  | .notDirectory => .error .notDirectory
  | .tooManyLinks => .error .tooManyLinks

def parts (path : String) : List String := (path.toList.splitOn '/').map String.ofList

def safeUpstreamRelative (path : String) : Bool :=
  path.toList.head? ≠ some '/' &&
    !(path.toList.any fun c => c = '\\' || c = '\x00' || c = '\r' || c = '\n') &&
    !(parts path).contains ".."

/-- The names of a safe relative path, as `filepath.Join` leaves them. -/
def names (relative : String) : Names := ((parts relative).filter fun part => part ≠ "" && part ≠ ".").reverse

/-- The loop over the ancestors. `suffix` has the names that were taken off, the last one first. -/
def resolveAncestor (t : Tree) (root : Names) (relative : String) (allowMissing : Bool) :
    Names → Names → Except PathError Names
  | ancestor, suffix =>
    match evalSymlinks t ancestor with
    | .ok resolved =>
      if root.isSuffixOf resolved then .ok (suffix ++ resolved)
      else .error (.refused ("upstream.path_escapes_source: " ++ relative))
    | .error fault =>
      if !allowMissing || fault ≠ .notExist || ancestor = root then .error fault
      else
        match ancestor with
        | [] => .error fault
        | base :: dir => resolveAncestor t root relative allowMissing dir (suffix ++ [base])

def upstreamPath (t : Tree) (root : Names) (given : String) (allowMissing : Bool) : Except PathError Names :=
  let relative := if given = "" then "." else given
  if safeUpstreamRelative relative then
    resolveAncestor t root relative allowMissing (names relative ++ root) []
  else .error (.refused ("upstream.path_invalid: " ++ relative))

variable {t : Tree} {root : Names} {path resolved location rest : Names} {links : Nat} {base : String}

theorem evalSymlinks_ok (h : evalSymlinks t path = .ok resolved) :
    t.follow 255 (absolutePath path) [] = .found resolved := by
  unfold evalSymlinks at h
  cases hEnd : t.follow 255 (absolutePath path) [] <;> simp only [hEnd] at h <;> cases h
  rfl

theorem resolveAncestor_ok {relative : String} {ancestor suffix : Names}
    (h : resolveAncestor t root relative true ancestor suffix = .ok path) :
    ∃ taken rest resolved, ancestor = taken ++ rest ∧ path = suffix ++ taken ++ resolved ∧
      evalSymlinks t rest = .ok resolved ∧ root <:+ resolved ∧
      (taken = [] ∨ ∃ more base, taken = more ++ [base] ∧ evalSymlinks t (base :: rest) = .error .notExist ∧
        base :: rest ≠ root) := by
  fun_induction resolveAncestor t root relative true ancestor suffix with
  | case1 ancestor suffix resolved hRes hBelow =>
    cases h
    exact ⟨[], ancestor, resolved, rfl, by simp, hRes, List.isSuffixOf_iff_suffix.mp hBelow, .inl rfl⟩
  | case2 | case3 | case4 => cases h
  | case5 suffix fault base dir hFault hStop ih =>
    simp only [Bool.not_true, Bool.false_or, Bool.or_eq_true, decide_eq_true_eq, not_or, not_not] at hStop
    rw [hStop.1] at hFault
    obtain ⟨taken, rest, resolved, rfl, rfl, hRes, hBelow, hGone⟩ := ih h
    refine ⟨base :: taken, rest, resolved, rfl, by simp, hRes, hBelow, .inr ?_⟩
    rcases hGone with rfl | ⟨more, last, rfl, hGone⟩
    · exact ⟨[], base, rfl, hFault, hStop.2⟩
    · exact ⟨base :: more, last, rfl, hGone⟩

theorem openCreate_eq_ok : openCreate t links path = .ok location ↔
    (t.follow links (absolutePath path) [] = .found location ∧ t.kind location ≠ some .directory) ∨
      t.follow links (absolutePath path) [] = .missing location [] := by
  unfold openCreate
  cases t.follow links (absolutePath path) [] with
  | found end_ =>
    simp only [End.found.injEq, reduceCtorEq, or_false]
    constructor
    · intro h
      split at h
      · cases h
      next hKind =>
        cases h
        exact ⟨rfl, hKind⟩
    · rintro ⟨rfl, hKind⟩
      rw [if_neg hKind]
  | missing end_ rest => cases rest <;> simp
  | notDirectory | tooManyLinks => simp

theorem openCreate_found (hRes : evalSymlinks t rest = .ok resolved)
    (h : openCreate t links resolved = .ok location) : location = resolved := by
  have hExists := follow_exists t.root (evalSymlinks_ok hRes)
  rw [openCreate_eq_ok, follow_absolutePath_self hExists] at h
  rcases h with ⟨hEnd, _⟩ | hEnd
  · cases hEnd
    rfl
  · cases hEnd

theorem missing_in_parent (hRes : evalSymlinks t rest = .ok resolved)
    (hGone : evalSymlinks t (base :: rest) = .error .notExist) :
    t.kind resolved = some .directory ∧
      ∃ links location left, t.follow links [.name base] resolved = .missing location left := by
  have hFound := evalSymlinks_ok hRes
  obtain ⟨location, left, hEnd⟩ : ∃ location rest, t.follow 255 (absolutePath _) [] = .missing location rest := by
    unfold evalSymlinks at hGone
    cases hEnd : t.follow 255 (absolutePath (base :: rest)) [] <;> simp only [hEnd] at hGone <;> cases hGone
    exact ⟨_, _, hEnd⟩
  rw [absolutePath_cons] at hEnd
  obtain ⟨links, hEq⟩ := follow_append [.name base] t.root
  rw [hEq, hFound] at hEnd
  rcases follow_exists t.root hFound with hDir | hFile
  · exact ⟨hDir, links, location, left, by simpa [End.append, hDir] using hEnd⟩
  · simp [End.append, hFile] at hEnd

theorem openCreate_missing (more : Names) (hRes : evalSymlinks t rest = .ok resolved)
    (hGone : evalSymlinks t (base :: rest) = .error .notExist) :
    openCreate t links (more ++ base :: resolved) = .ok location ↔
      more = [] ∧ t.follow links [.name base] resolved = .missing location [] := by
  obtain ⟨hDir, enough, there, left, hEnd⟩ := missing_in_parent hRes hGone
  have hPath : absolutePath (more ++ base :: resolved) =
      absolutePath resolved ++ ([.name base] ++ absolutePath more) := by
    simp [absolutePath_append]
  rw [openCreate_eq_ok, hPath, follow_absolutePath hDir]
  obtain ⟨_, hEq⟩ := follow_append (absolutePath more) hDir
  by_cases hLinks : t.follow links [.name base] resolved = .tooManyLinks
  · rw [hEq, hLinks]
    simp [End.append]
  have hSame := follow_eq_of_missing _ hEnd hLinks
  rw [hEq, hSame]
  simp only [End.append, End.missing.injEq, List.append_eq_nil_iff]
  have hNil : absolutePath more = [] ↔ more = [] := by simp [absolutePath]
  tauto

/-- The last name of the path is a dangling link out of the root: in the directory that its parent resolves to
it is a link, and following it ends at a missing name of an existing directory outside. -/
def DanglesOutside (t : Tree) (links : Nat) (root : Names) : Names → Prop
  | [] => False
  | base :: dir => ∃ resolved target location, evalSymlinks t (dir ++ root) = .ok resolved ∧
      t.kind (base :: resolved) = some (.link target) ∧
      t.follow links [.name base] resolved = .missing location [] ∧ ¬root <:+ location

theorem kind_of_follow_missing {dir : Names} (h : t.follow links [.name base] dir = .missing location []) :
    location = base :: dir ∨ ∃ target, t.kind (base :: dir) = some (.link target) := by
  rw [follow] at h
  cases hKind : t.kind (base :: dir) with
  | none =>
    simp only [walk, hKind] at h
    cases h
    exact .inl rfl
  | some kind =>
    cases kind with
    | directory | file =>
      simp only [walk, hKind] at h
      cases h
    | link target => exact .inr ⟨target, rfl⟩

theorem names_given (given : String) : names (if given = "" then "." else given) = names given := by
  split
  next hEmpty =>
    rw [hEmpty]
    decide
  · rfl

theorem upstreamPath_ok {given : String} (h : upstreamPath t root given true = .ok path) :
    ∃ relative, resolveAncestor t root relative true (names given ++ root) [] = .ok path := by
  rw [← names_given given]
  simp only [upstreamPath] at h
  refine ⟨if given = "" then "." else given, ?_⟩
  by_cases hSafe : safeUpstreamRelative (if given = "" then "." else given) = true
  · rwa [if_pos hSafe] at h
  · rw [if_neg hSafe] at h
    cases h

theorem upstreamPath_dangling {relative : String} {dir : Names} {target : LinkTarget String}
    (hRes : evalSymlinks t (dir ++ root) = .ok resolved)
    (hLink : t.kind (base :: resolved) = some (.link target))
    (hEnd : t.follow links [.name base] resolved = .missing location [])
    (h : resolveAncestor t root relative true (base :: (dir ++ root)) [] = .ok path) :
    path = base :: resolved ∧ evalSymlinks t (base :: (dir ++ root)) = .error .notExist := by
  have hDir := t.parent base resolved (by simp [hLink])
  obtain ⟨left, hEq⟩ := follow_append [.name base] t.root
  rw [evalSymlinks_ok hRes] at hEq
  simp only [End.append, hDir] at hEq
  rw [resolveAncestor] at h
  cases hEval : evalSymlinks t (base :: (dir ++ root)) with
  | ok found =>
    -- the link leads to a missing name with any number of links that is enough
    have hFound := evalSymlinks_ok hEval
    rw [absolutePath_cons, hEq] at hFound
    have hSame := follow_eq_of_missing left hEnd (by simp [hFound])
    rw [hSame] at hFound
    cases hFound
  | error fault =>
    simp only [hEval] at h
    split at h
    · cases h
    rename_i hStop
    simp only [Bool.not_true, Bool.false_or, Bool.or_eq_true, decide_eq_true_eq, not_or, not_not] at hStop
    rw [resolveAncestor] at h
    simp only [hRes] at h
    split at h
    · cases h
      exact ⟨rfl, by rw [hStop.1]⟩
    · cases h

/-- Opening an accepted path for writing stays below the root exactly where the path does not end in a dangling
link out of it. -/
theorem config_write_below_root_iff {links : Nat} {given : String} {path : Names}
    (hPath : upstreamPath t root given true = .ok path) :
    (∀ location, openCreate t links path = .ok location → root <:+ location) ↔
      ¬DanglesOutside t links root (names given) := by
  obtain ⟨relative, hLoop⟩ := upstreamPath_ok hPath
  constructor
  · intro hBelow hDangles
    cases hNames : names given with
    | nil => simp [hNames, DanglesOutside] at hDangles
    | cons base dir =>
      rw [hNames] at hDangles hLoop
      obtain ⟨resolved, target, location, hRes, hLink, hEnd, hOut⟩ := hDangles
      obtain ⟨rfl, hGone⟩ := upstreamPath_dangling hRes hLink hEnd hLoop
      exact hOut (hBelow location ((openCreate_missing [] hRes hGone).mpr ⟨rfl, hEnd⟩))
  intro hSafe location hOpen
  obtain ⟨taken, rest, resolved, hSplit, rfl, hRes, hRoot, hTaken⟩ := resolveAncestor_ok hLoop
  rcases hTaken with rfl | ⟨more, base, rfl, hGone, hNotRoot⟩
  · rw [openCreate_found hRes hOpen]
    exact hRoot
  have hPath : [] ++ (more ++ [base]) ++ resolved = more ++ base :: resolved := by simp
  rw [hPath, openCreate_missing more hRes hGone] at hOpen
  obtain ⟨rfl, hEnd⟩ := hOpen
  rcases kind_of_follow_missing hEnd with rfl | ⟨target, hLink⟩
  · exact hRoot.trans (List.suffix_cons base resolved)
  -- the only name taken off is the last one, and it is a link
  by_contra hOut
  cases hNames : names given with
  | nil =>
    rw [hNames] at hSplit
    exact hNotRoot hSplit.symm
  | cons last dir =>
    rw [hNames] at hSplit hSafe
    obtain ⟨rfl, rfl⟩ := List.cons.inj hSplit
    exact hSafe ⟨resolved, target, location, hRes, hLink, hEnd, hOut⟩

/-- A checkout `/src` whose `.env` is a link to `/etc/new`, which does not exist, and whose `lib` is a link to
its own directory `vendor`. -/
def linkedCheckout : Tree :=
  .ofEntries [([], .directory), (["src"], .directory), (["vendor", "src"], .directory), (["etc"], .directory),
    (["lib", "src"], .link ⟨false, [.name "vendor"]⟩),
    ([".env", "src"], .link ⟨true, [.name "etc", .name "new"]⟩)] (by decide) (by decide)

theorem config_write_below_root_linked :
    upstreamPath linkedCheckout ["src"] "lib/app.env" true = .ok ["app.env", "vendor", "src"] ∧
      openCreate linkedCheckout 40 ["app.env", "vendor", "src"] = .ok ["app.env", "vendor", "src"] ∧
      ["src"] <:+ ["app.env", "vendor", "src"] := by
  have hPath : upstreamPath linkedCheckout ["src"] "lib/app.env" true = .ok ["app.env", "vendor", "src"] := by
    decide +kernel
  have hOpen : openCreate linkedCheckout 40 ["app.env", "vendor", "src"] = .ok ["app.env", "vendor", "src"] := by
    decide +kernel
  refine ⟨hPath, hOpen, (config_write_below_root_iff hPath).mpr ?_ _ hOpen⟩
  rintro ⟨resolved, target, location, hRes, hLink, -⟩
  cases hLink

theorem dangling_link_written_outside : upstreamPath linkedCheckout ["src"] ".env" true = .ok [".env", "src"] ∧
      openCreate linkedCheckout 40 [".env", "src"] = .ok ["new", "etc"] ∧ ¬["src"] <:+ ["new", "etc"] :=
  ⟨by decide +kernel, by decide +kernel, by decide⟩

end LocalModelWorks.Upstream.Path
