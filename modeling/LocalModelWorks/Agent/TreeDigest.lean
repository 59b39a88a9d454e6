import LocalModelWorks.Agent.Manifest

/-!
# What a tree digest identifies

Two listings have the same text when they agree but for the newline at which a link's
target ends. Trees whose listings are reframed have one digest, and no others do.
-/

namespace LocalModelWorks.Agent

open List FileEntry Function Item

variable {sha256 : Bytes → Bytes}

theorem hexDigit_inj : ∀ m < 16, ∀ n < 16, hexDigit m = hexDigit n → m = n := by decide

theorem hexDigit_ne_zero : ∀ n < 16, hexDigit n ≠ 0 := by decide

theorem hex_injective : Injective hex := by
  intro u
  induction u with
  | nil =>
    intro v h
    cases v with
    | nil => rfl
    | cons b v => cases h
  | cons a u ih =>
    intro v h
    cases v with
    | nil => cases h
    | cons b v =>
      simp only [hex, flatMap_cons, cons_append, List.cons.injEq] at h
      obtain ⟨hHigh, hLow, hRest⟩ := h
      have hA := a.toNat_lt
      have hB := b.toNat_lt
      have hDiv := hexDigit_inj _ (by omega) _ (by omega) hHigh
      have hMod := hexDigit_inj _ (Nat.mod_lt _ (by decide)) _ (Nat.mod_lt _ (by decide)) hLow
      rw [ih hRest, UInt8.toNat_inj.mp (show a.toNat = b.toNat by omega)]

theorem zero_notMem_hex (b : Bytes) : 0 ∉ hex b := by
  intro h
  obtain ⟨x, -, hx⟩ := mem_flatMap.mp h
  have hLt := x.toNat_lt
  simp only [mem_cons, not_mem_nil, or_false] at hx
  rcases hx with hHigh | hLow
  · exact hexDigit_ne_zero _ (by omega) hHigh.symm
  · exact hexDigit_ne_zero _ (Nat.mod_lt _ (by decide)) hLow.symm

variable (content : Bytes)

theorem zero_notMem_digestOf : 0 ∉ digestOf sha256 content := by
  rw [digestOf, mem_append]
  rintro (hTag | hHex)
  · exact absurd hTag (by decide)
  · exact zero_notMem_hex _ hHex

theorem digestOf_ne_nil : digestOf sha256 content ≠ [] := append_ne_nil_of_left_ne_nil (by decide) _

theorem digestOf_injective (hSha : Injective sha256) : Injective (digestOf sha256) :=
  fun _ _ h => hSha (hex_injective (append_cancel_left h))

theorem zero_notMem_decimal (n : Nat) : 0 ∉ decimal n := by
  intro h
  obtain ⟨c, hc, hZero⟩ := mem_map.mp h
  have hDigit : 48 ≤ c.toNat ∧ c.toNat ≤ 57 :=
    Char.isDigit_iff_toNat.mp (Nat.isDigit_of_mem_toDigits (by decide) (by decide) hc)
  have hValue := congrArg UInt8.toNat hZero
  simp only [UInt8.toNat_ofNat', UInt8.toNat_zero] at hValue
  omega

variable (u rest : Bytes) (e : FileEntry)

theorem line_append : u ++ (e.line ++ rest) =
      (u ++ e.path) ++ 0 :: (decimal e.size ++ 0 :: (e.sha256 ++ 0 :: ((e.symlinkTarget ++ [newline]) ++ rest))) := by
  simp [line]

theorem line_append_inj {u v rest rest' : Bytes} {d e : FileEntry} (hU : 0 ∉ u ++ d.path) (hV : 0 ∉ v ++ e.path)
    (hD : 0 ∉ d.sha256) (hE : 0 ∉ e.sha256) (h : u ++ (d.line ++ rest) = v ++ (e.line ++ rest')) :
    u ++ d.path = v ++ e.path ∧ d.sha256 = e.sha256 ∧
      (d.symlinkTarget ++ [newline]) ++ rest = (e.symlinkTarget ++ [newline]) ++ rest' := by
  rw [line_append, line_append] at h
  obtain ⟨hPath, hSize⟩ := Separator.append_inj hU hV h
  obtain ⟨-, hDigest⟩ := Separator.append_inj (zero_notMem_decimal _) (zero_notMem_decimal _) hSize
  obtain ⟨hSha, hTarget⟩ := Separator.append_inj hD hE hDigest
  exact ⟨hPath, hSha, hTarget⟩

/-- Two listings whose texts are the same after what each has pending: every file has its
counterpart, and a link and the path after it meet at one of the newlines between them. -/
inductive Agrees : Bytes → List Item → Bytes → List Item → Prop
  | done (u : Bytes) : Agrees u [] u []
  | file {u v p q : Bytes} {mode mode' : Nat} {content : Bytes} {xs ys : List Item} (hPath : u ++ p = v ++ q)
      (hRest : Agrees [newline] xs [newline] ys) :
      Agrees u (⟨p, .file mode content⟩ :: xs) v (⟨q, .file mode' content⟩ :: ys)
  | link {u v p q : Bytes} {t t' : Target} {xs ys : List Item} (hPath : u ++ p = v ++ q)
      (hRest : Agrees (t.1 ++ [newline]) xs (t'.1 ++ [newline]) ys) :
      Agrees u (⟨p, .link t⟩ :: xs) v (⟨q, .link t'⟩ :: ys)

inductive Item.Same : Item → Item → Prop
  | file (p : Bytes) (mode mode' : Nat) (content : Bytes) : Same ⟨p, .file mode content⟩ ⟨p, .file mode' content⟩
  | link (p : Bytes) (t : Target) : Same ⟨p, .link t⟩ ⟨p, .link t⟩

/-- Two listings that are the same up to a link. One of them has a longer target there, by
a newline and a piece `w`, and the other has this piece and a newline in front of the next
path; after that they agree. -/
inductive Reframed : List Item → List Item → Prop
  | same {x y : Item} {xs ys : List Item} (hSame : x.Same y) (hRest : Reframed xs ys) : Reframed (x :: xs) (y :: ys)
  | right {p w : Bytes} {t t' : Target} {xs ys : List Item} (hTarget : t'.1 = t.1 ++ newline :: w)
      (hRest : Agrees [] xs (w ++ [newline]) ys) : Reframed (⟨p, .link t⟩ :: xs) (⟨p, .link t'⟩ :: ys)
  | left {p w : Bytes} {t t' : Target} {xs ys : List Item} (hTarget : t.1 = t'.1 ++ newline :: w)
      (hRest : Agrees (w ++ [newline]) xs [] ys) : Reframed (⟨p, .link t⟩ :: xs) (⟨p, .link t'⟩ :: ys)

def PlainPaths (items : List Item) : Prop := ∀ item ∈ items, 0 ∉ item.path

theorem zero_notMem_sha256 (item : Item) : 0 ∉ (item.entry sha256).sha256 := by
  rcases item with ⟨path, body⟩
  cases body with
  | file mode content => exact zero_notMem_digestOf content
  | link target => exact not_mem_nil

theorem zero_notMem_pending (target : Target) : 0 ∉ target.1 ++ [newline] := not_mem_append target.2.2 (by decide)

theorem zero_notMem_newline : 0 ∉ [newline] := by decide

theorem treeText_nil : treeText [] = [] := rfl

theorem treeText_cons (es : List FileEntry) : treeText (e :: es) = e.line ++ treeText es := rfl

theorem zero_mem_treeText : 0 ∈ u ++ (e.line ++ rest) := by
  rw [line_append]
  exact mem_append_right _ mem_cons_self

theorem append_treeText_iff (hSha : Injective sha256) {xs ys : List Item} (hXs : PlainPaths xs)
    (hYs : PlainPaths ys) {u v : Bytes} (hU : 0 ∉ u) (hV : 0 ∉ v) :
    u ++ treeText (xs.map (entry sha256)) = v ++ treeText (ys.map (entry sha256)) ↔ Agrees u xs v ys := by
  induction xs generalizing ys u v with
  | nil =>
    cases ys with
    | nil =>
      rw [map_nil, treeText_nil, append_nil, append_nil]
      constructor
      · rintro rfl
        exact .done u
      · rintro ⟨⟩
        rfl
    | cons y ys =>
      constructor
      · intro h
        rw [map_nil, treeText_nil, append_nil] at h
        exact absurd (h ▸ zero_mem_treeText v _ _) hU
      · rintro ⟨⟩
  | cons x xs ih =>
    cases ys with
    | nil =>
      constructor
      · intro h
        rw [map_nil, treeText_nil, append_nil] at h
        exact absurd (h ▸ zero_mem_treeText u _ _) hV
      · rintro ⟨⟩
    | cons y ys =>
      obtain ⟨hX, hXsRest⟩ := forall_mem_cons.mp hXs
      obtain ⟨hY, hYsRest⟩ := forall_mem_cons.mp hYs
      rw [map_cons, map_cons, treeText_cons, treeText_cons]
      constructor
      · intro h
        obtain ⟨hPath, hDigest, hRest⟩ := line_append_inj (by simpa using not_mem_append hU hX)
          (by simpa using not_mem_append hV hY) (zero_notMem_sha256 x) (zero_notMem_sha256 y) h
        rcases x with ⟨p, body⟩
        rcases y with ⟨q, body'⟩
        cases body with
        | file mode content =>
          cases body' with
          | file mode' content' =>
            obtain rfl := digestOf_injective hSha hDigest
            exact .file hPath ((ih hXsRest hYsRest zero_notMem_newline zero_notMem_newline).mp hRest)
          | link t' => exact absurd hDigest (digestOf_ne_nil content)
        | link t =>
          cases body' with
          | file mode' content' => exact absurd hDigest.symm (digestOf_ne_nil content')
          | link t' => exact .link hPath ((ih hXsRest hYsRest (zero_notMem_pending t) (zero_notMem_pending t')).mp hRest)
      intro h
      rw [line_append, line_append]
      cases h with
      | file hPath hRest =>
        have hText := (ih hXsRest hYsRest zero_notMem_newline zero_notMem_newline).mpr hRest
        simp only [entry_path, hPath]
        simpa [entry, fileEntry] using hText
      | link hPath hRest =>
        have hText := (ih hXsRest hYsRest (zero_notMem_pending _) (zero_notMem_pending _)).mpr hRest
        simp only [entry_path, hPath]
        simpa [entry, linkEntry] using hText

section

variable {u v : Bytes} {xs ys : List Item}

theorem Agrees.symm (h : Agrees u xs v ys) : Agrees v ys u xs := by
  induction h with
  | done u => exact .done u
  | file hPath hRest ih => exact .file hPath.symm ih
  | link hPath hRest ih => exact .link hPath.symm ih

theorem Agrees.append (s : Bytes) (h : Agrees u xs v ys) : Agrees (s ++ u) xs (s ++ v) ys := by
  cases h with
  | done u => exact .done (s ++ u)
  | file hPath hRest => exact .file (by simp [hPath]) hRest
  | link hPath hRest => exact .link (by simp [hPath]) hRest

theorem Agrees.cancel {s : Bytes} (h : Agrees (s ++ u) xs (s ++ v) ys) : Agrees u xs v ys := by
  generalize hLeft : s ++ u = left at h
  generalize hRight : s ++ v = right at h
  cases h with
  | done =>
    obtain rfl := append_cancel_left (hLeft.trans hRight.symm)
    exact .done u
  | file hPath hRest =>
    subst hLeft hRight
    exact .file (by simpa using hPath) hRest
  | link hPath hRest =>
    subst hLeft hRight
    exact .link (by simpa using hPath) hRest

theorem Agrees.pending (h : Agrees u xs v ys) : ∃ p q, u ++ p = v ++ q := by
  cases h with
  | done u => exact ⟨[], [], rfl⟩
  | file hPath hRest => exact ⟨_, _, hPath⟩
  | link hPath hRest => exact ⟨_, _, hPath⟩

theorem newline_part {t t' a : Bytes} (hNe : t' ≠ t) (h : t' ++ [newline] = (t ++ [newline]) ++ a) :
    ∃ w, t' = t ++ newline :: w := by
  rcases eq_nil_or_concat' a with rfl | ⟨w, x, rfl⟩
  · rw [append_nil] at h
    exact absurd (append_cancel_right h) hNe
  · have hLast : t' ++ [newline] = (t ++ newline :: w) ++ [x] := by simpa using h
    exact ⟨w, (append_inj' hLast rfl).1⟩

theorem Agrees.of_longer {t t' w : Bytes} (hTarget : t' = t ++ newline :: w)
    (h : Agrees (t ++ [newline]) xs (t' ++ [newline]) ys) : Agrees [] xs (w ++ [newline]) ys := by
  subst hTarget
  have hSplit : Agrees ((t ++ [newline]) ++ []) xs ((t ++ [newline]) ++ (w ++ [newline])) ys := by simpa using h
  exact hSplit.cancel

theorem Agrees.longer {t t' w : Bytes} (hTarget : t' = t ++ newline :: w)
    (h : Agrees [] xs (w ++ [newline]) ys) : Agrees (t ++ [newline]) xs (t' ++ [newline]) ys := by
  subst hTarget
  simpa using h.append (t ++ [newline])

theorem Agrees.same_or_reframed (h : Agrees u xs v ys) : u = v → List.Forall₂ Same xs ys ∨ Reframed xs ys := by
  induction h with
  | done u => exact fun _ => .inl .nil
  | @file u v p q mode mode' content xs ys hPath hRest ih =>
    rintro rfl
    obtain rfl := append_cancel_left hPath
    exact (ih rfl).imp (.cons (.file p mode mode' content)) (.same (.file p mode mode' content))
  | @link u v p q t t' xs ys hPath hRest ih =>
    rintro rfl
    obtain rfl := append_cancel_left hPath
    by_cases hEq : t = t'
    · subst hEq
      exact (ih rfl).imp (.cons (.link p t)) (.same (.link p t))
    have hNe : t.1 ≠ t'.1 := fun h => hEq (Subtype.ext h)
    obtain ⟨more, more', hPend⟩ := hRest.pending
    rcases append_eq_append_iff.mp hPend with ⟨a, hLonger, -⟩ | ⟨a, hLonger, -⟩
    · obtain ⟨w, hTarget⟩ := newline_part hNe.symm hLonger
      exact .inr (.right hTarget (hRest.of_longer hTarget))
    · obtain ⟨w, hTarget⟩ := newline_part hNe hLonger
      exact .inr (.left hTarget (hRest.symm.of_longer hTarget).symm)

theorem Reframed.agrees (h : Reframed xs ys) (u : Bytes) : Agrees u xs u ys := by
  induction h generalizing u with
  | same hSame hRest ih =>
    cases hSame with
    | file p mode mode' content => exact .file rfl (ih [newline])
    | link p t => exact .link rfl (ih _)
  | right hTarget hRest => exact .link rfl (hRest.longer hTarget)
  | left hTarget hRest => exact .link rfl (hRest.symm.longer hTarget).symm

theorem Reframed.not_same (h : Reframed xs ys) : ¬ List.Forall₂ Same xs ys := by
  induction h with
  | same hSame hRest ih =>
    rintro (- | ⟨-, hTail⟩)
    exact ih hTail
  | right hTarget hRest =>
    rintro (- | ⟨⟨⟩, -⟩)
    simp at hTarget
  | left hTarget hRest =>
    rintro (- | ⟨⟨⟩, -⟩)
    simp at hTarget

end

def FileEntry.listed (e : FileEntry) : Bytes × Nat × Bytes × Bytes := (e.path, e.size, e.sha256, e.symlinkTarget)

theorem same_iff_listed (hSha : Injective sha256) (x y : Item) :
    (x.entry sha256).listed = (y.entry sha256).listed ↔ x.Same y := by
  constructor
  · rcases x with ⟨p, body⟩
    rcases y with ⟨q, body'⟩
    intro h
    simp only [listed, entry_path, Prod.mk.injEq] at h
    obtain ⟨rfl, -, hDigest, hTarget⟩ := h
    cases body with
    | file mode content =>
      cases body' with
      | file mode' content' =>
        obtain rfl := digestOf_injective hSha hDigest
        exact .file p mode mode' content
      | link t' => exact absurd hDigest (digestOf_ne_nil content)
    | link t =>
      cases body' with
      | file mode' content' => exact absurd hDigest.symm (digestOf_ne_nil content')
      | link t' =>
        obtain rfl := Subtype.ext hTarget
        exact .link p t
  · rintro ⟨⟩ <;> rfl

theorem map_listed_iff (hSha : Injective sha256) (xs ys : List Item) :
    (xs.map (entry sha256)).map listed = (ys.map (entry sha256)).map listed ↔
      List.Forall₂ Same xs ys := by
  have hSame : (fun x y => (x.entry sha256).listed = (y.entry sha256).listed) = Same := by
    funext x y
    exact propext (same_iff_listed hSha x y)
  rw [map_map, map_map, ← forall₂_eq_eq_eq, forall₂_map_left_iff, forall₂_map_right_iff, ← hSame]
  rfl

theorem plainPaths_items {rel : List FileName} (node : Node) : PlainPaths (node.items rel) := by
  intro item hItem
  obtain ⟨below, hPath⟩ := Node.items_path hItem
  rw [hPath]
  exact zero_notMem_relPath _

theorem plainPaths_listing (disk : Disk) (root : List FileName) : PlainPaths (disk.listing root) := by
  unfold Disk.listing
  cases disk.lstat root with
  | none => exact fun _ h => absurd h not_mem_nil
  | some node =>
    have hSort : PlainPaths ((node.items []).insertionSort before) :=
      fun item hItem => plainPaths_items node item ((mem_insertionSort before).mp hItem)
    cases node with
    | file mode content => exact forall_mem_singleton.mpr (show 0 ∉ transferRootFile by decide)
    | link | directory | other => exact hSort

variable {disk disk' : Disk} {trouble trouble' : List FileName → Option Bytes}
  {root root' contain contain' : List FileName} {m m' : Manifest}

theorem treeDigest_eq_iff (hSha : Injective sha256)
    (h : collectManifest sha256 disk trouble root contain = .ok m)
    (h' : collectManifest sha256 disk' trouble' root' contain' = .ok m') :
    m.treeDigest = m'.treeDigest ↔ Agrees [] (disk.listing root) [] (disk'.listing root') := by
  rw [collectManifest_eq h, collectManifest_eq h', ← append_treeText_iff hSha (plainPaths_listing disk root)
    (plainPaths_listing disk' root') not_mem_nil not_mem_nil]
  exact (digestOf_injective hSha).eq_iff

/-- Equal tree digests mean equal entries, unless one listing is the other with the end of a link's target moved to
another newline. -/
theorem treeDigest_identifies_iff (hSha : Function.Injective sha256)
    (h : collectManifest sha256 disk trouble root contain = .ok m)
    (h' : collectManifest sha256 disk' trouble' root' contain' = .ok m') :
    (m.treeDigest = m'.treeDigest → m.files.map FileEntry.listed = m'.files.map FileEntry.listed) ↔
      ¬ Reframed (disk.listing root) (disk'.listing root') := by
  have hFiles : m.files.map listed = m'.files.map listed ↔
      List.Forall₂ Same (disk.listing root) (disk'.listing root') := by
    rw [collectManifest_eq h, collectManifest_eq h']
    exact map_listed_iff hSha _ _
  rw [treeDigest_eq_iff hSha h h', hFiles]
  constructor
  · intro hSame hReframed
    exact hReframed.not_same (hSame (hReframed.agrees []))
  · intro hNot hAgrees
    exact (hAgrees.same_or_reframed rfl).resolve_right hNot

def fileName (text : String) (h : IsFileName (ascii text)) : FileName := ⟨ascii text, h⟩

def linkTo (text : String) (h : ascii text ≠ [] ∧ 0 ∉ ascii text) : Target := ⟨ascii text, h⟩

def sourceDisk (dir : FileName) (link : Target) (file : FileName) (hNe : file ≠ dir)
    (hDir : dir ≠ fileName "a" (by decide)) (hFile : file ≠ fileName "a" (by decide)) : Disk where
  top := .cons (fileName "src" (by decide)) (.directory
    (.cons (fileName "a" (by decide)) (.link link) (.cons dir (.directory .nil) (.cons file (.file 420 []) .nil)))) .nil
  distinct := by
    simp [Children.Distinct, Node.Distinct, Children.find, hDir, hFile, hNe]

def longTarget : Disk :=
  sourceDisk (fileName "d\nx" (by decide)) (linkTo "d\nx" (by decide)) (fileName "y" (by decide))
    (by decide) (by decide) (by decide)

def longPath : Disk :=
  sourceDisk (fileName "d" (by decide)) (linkTo "d" (by decide)) (fileName "x\ny" (by decide))
    (by decide) (by decide) (by decide)

def sourceRoot : List FileName := [fileName "src" (by decide)]

def sourceManifest (target file : String) : Manifest :=
  manifestOf id [⟨ascii "a", 0, modeSymlink, [], ascii target⟩, ⟨ascii file, 0, 420, ascii "sha256:", []⟩]

theorem collectManifest_longTarget :
    collectManifest id longTarget (fun _ => none) sourceRoot sourceRoot = .ok (sourceManifest "d\nx" "y") := by
  decide +kernel

theorem collectManifest_longPath :
    collectManifest id longPath (fun _ => none) sourceRoot sourceRoot = .ok (sourceManifest "d" "x\ny") := by
  decide +kernel

theorem treeDigest_identifies_iff_source : Function.Injective (id : Bytes → Bytes) ∧
      collectManifest id longTarget (fun _ => none) sourceRoot sourceRoot = .ok (sourceManifest "d\nx" "y") ∧
      collectManifest id longPath (fun _ => none) sourceRoot sourceRoot = .ok (sourceManifest "d" "x\ny") ∧
      (((sourceManifest "d\nx" "y").treeDigest = (sourceManifest "d" "x\ny").treeDigest →
        (sourceManifest "d\nx" "y").files.map FileEntry.listed = (sourceManifest "d" "x\ny").files.map FileEntry.listed) ↔
        ¬ Reframed (longTarget.listing sourceRoot) (longPath.listing sourceRoot)) :=
  ⟨injective_id, collectManifest_longTarget, collectManifest_longPath,
    treeDigest_identifies_iff injective_id collectManifest_longTarget collectManifest_longPath⟩

theorem treeDigest_collision : Function.Injective (id : Bytes → Bytes) ∧ ∃ m m',
      collectManifest id longTarget (fun _ => none) sourceRoot sourceRoot = .ok m ∧
      collectManifest id longPath (fun _ => none) sourceRoot sourceRoot = .ok m' ∧
      m.treeDigest = m'.treeDigest ∧ m.files.map FileEntry.listed ≠ m'.files.map FileEntry.listed :=
  ⟨injective_id, _, _, collectManifest_longTarget, collectManifest_longPath,
    by decide +kernel, by decide +kernel⟩

end LocalModelWorks.Agent
