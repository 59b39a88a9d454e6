import LocalModelWorks.Recipe.Packages

/-!
# Installed recipes keep their package

A row whose directory was moved aside is covered by the call that moved it, or after a crash
by the directory itself. The undo of a call is harmless as long as nobody else counts on what
it takes away.
-/

namespace LocalModelWorks.Recipe.Packages

open Transition Option

variable {ι δ : Type}

def Call.holding : Call δ → Option δ
  | .store d (.commit _) => some d
  | _ => none

def Call.staged : Call δ → Option (δ × Nat)
  | .delete d (.commit (some n)) => some (d, n)
  | .delete d (.undo n) => some (d, n)
  | .delete d (.cleanUp n) => some (d, n)
  | _ => none

def Call.undoes : Call δ → Option (δ × Nat)
  | .delete d (.commit (some n)) => some (d, n)
  | .delete d (.undo n) => some (d, n)
  | _ => none

variable {c : Call δ} {x : δ × Nat}

theorem Call.staged_of_undoes (h : c.undoes = some x) : c.staged = some x := by
  unfold Call.undoes at h
  split at h <;> first | exact h | cases h

variable (s : State ι δ) (d : δ)

def Kept : Prop :=
  match s.life with
  | .up => ∃ i n, (s.call i).undoes = some (d, n) ∧ s.tomb (d, n) = some .complete
  | .down => ∃ n, s.tomb (d, n) = some .complete
  | .recovering removing entries =>
    ∃ n, s.tomb (d, n) = some .complete ∧ (d, n) ∈ (if removing then entries.tail else entries)

structure Inv (s : State ι δ) : Prop where
  row : ∀ d, s.row d = true → s.dir d = some .complete ∨ s.dir d = none ∧ Kept s d
  held : ∀ i d, (s.call i).holding = some d → s.dir d = some .complete
  staged : ∀ i x, (s.call i).staged = some x → s.tomb x ≠ none
  apart : ∀ i j x, (s.call i).staged = some x → (s.call j).staged = some x → i = j
  quiet : s.life ≠ .up → ∀ i, s.call i = .idle
  entries : ∀ removing entries, s.life = .recovering removing entries → entries.Nodup

def Free (i : ι) : Prop := ∀ j, j ≠ i → (s.call j).holding ≠ some d

def Orderly : Event ι δ → Prop
  | .step i result =>
    match s.call i, result with
    -- the package that a call has published is removed while there is no row and nobody counts on it
    | .store d .rollback, .ok _ => s.row d = false ∧ Free s d i
    | .store d .rollback, .erode _ => s.row d = false ∧ Free s d i
    -- the package of another call is found with its assets
    | .store d .recheck, .ok _ => ∀ p ∈ s.dir d, p.layout = true → p.assets = true
    | .delete d .stage, .ok _ => Free s d i
    -- what is put back is complete, and it is put back
    | .delete d (.undo n), .ok _ => s.row d = true → s.dir d = none → s.tomb (d, n) = some .complete
    | .delete d (.undo _), .fail => s.row d = true → s.dir d ≠ none
    | _, _ => True
  | .recover (.ok _) =>
    match s.life with
    | .recovering false ((d, n) :: _) => s.row d = true → s.dir d = none → s.tomb (d, n) = some .complete
    | _ => True
  | _ => True

variable {s : State ι δ} {i : ι} {c : Call δ} {d : δ} {n : Nat} {x : δ × Nat} {p : Option Package} {b : Bool}
  {rest : List (δ × Nat)}

theorem kept_up (hUp : s.life = .up) :
    Kept s d ↔ ∃ i n, (s.call i).undoes = some (d, n) ∧ s.tomb (d, n) = some .complete := by
  rw [Kept, hUp]

theorem Inv.free (hInv : Inv s) (hDir : s.dir d ≠ some .complete) : ∀ j, (s.call j).holding ≠ some d :=
  fun j hj => hDir (hInv.held j d hj)

theorem Inv.alone (hInv : Inv s) (h : (s.call i).staged = some x) :
    ∀ j, j ≠ i → (s.call j).staged ≠ some x := fun j hj hx => hj (hInv.apart j i x hx h)

theorem Inv.not_undone {n : Nat} (hInv : Inv s) (hCall : s.call i = .delete d (.cleanUp n)) :
    ∀ j, (s.call j).undoes ≠ some (d, n) := by
  intro j hj
  have hHere : (s.call i).staged = some (d, n) := hCall ▸ rfl
  have hSame := hInv.apart j i _ (Call.staged_of_undoes hj) hHere
  rw [hSame, hCall] at hj
  cases hj

theorem inv_of_idle (hIdle : ∀ i, s.call i = .idle)
    (hRow : ∀ d, s.row d = true → s.dir d = some .complete ∨ s.dir d = none ∧ Kept s d)
    (hEntries : ∀ removing entries, s.life = .recovering removing entries → entries.Nodup) : Inv s := by
  refine ⟨hRow, fun i e he => ?_, fun i x hx => ?_, fun i j x hx => ?_, fun _ => hIdle, hEntries⟩
  · rw [hIdle i] at he
    cases he
  · rw [hIdle i] at hx
    cases hx
  · rw [hIdle i] at hx
    cases hx

theorem Kept.tomb (h : Kept s d) : ∃ n, s.tomb (d, n) = some .complete := by
  unfold Kept at h
  split at h
  · obtain ⟨_, n, _, hTomb⟩ := h
    exact ⟨n, hTomb⟩
  · exact h
  · obtain ⟨n, hTomb, _⟩ := h
    exact ⟨n, hTomb⟩

theorem Inv.awaits {removing : Bool} {entries : List (δ × Nat)} (hInv : Inv s)
    (hLife : s.life = .recovering removing entries) (hRow : s.row d = true) : s.dir d = some .complete ∨
      s.dir d = none ∧ ∃ n, s.tomb (d, n) = some .complete ∧ (d, n) ∈ if removing then entries.tail else entries := by
  simpa only [Kept, hLife] using hInv.row d hRow

theorem inv_restart {entries : List (δ × Nat)} (hInv : Inv s) (hDown : s.life = .down) (hNodup : entries.Nodup)
    (hAll : ∀ x, x ∈ entries ↔ s.tomb x ≠ none) : Inv { s with life := .recovering false entries } := by
  refine inv_of_idle (hInv.quiet (by rw [hDown]; simp)) (fun d hRow => ?_) fun _ _ h => by cases h; exact hNodup
  refine (hInv.row d hRow).imp_right fun ⟨hNone, hKept⟩ => ⟨hNone, ?_⟩
  obtain ⟨n, hTomb⟩ := hKept.tomb
  exact ⟨n, hTomb, (hAll _).mpr (by rw [hTomb]; exact some_ne_none _)⟩

theorem inv_startRemoving (hInv : Inv s) (hLife : s.life = .recovering false ((d, n) :: rest))
    (h : ¬(s.row d = true ∧ s.dir d = none)) : Inv { s with life := .recovering true ((d, n) :: rest) } := by
  refine inv_of_idle (hInv.quiet (by rw [hLife]; simp)) (fun e he => ?_) fun _ _ hSame => by
    cases hSame
    exact hInv.entries _ _ hLife
  refine (hInv.awaits hLife he).imp_right fun ⟨hNone, k, hTomb, hMem⟩ => ⟨hNone, k, hTomb, ?_⟩
  refine (List.mem_cons.mp hMem).resolve_left fun hHead => ?_
  cases hHead
  exact h ⟨he, hNone⟩

theorem inv_recovered {removing : Bool} (hInv : Inv s) (hLife : s.life = .recovering removing []) :
    Inv { s with life := .up } := by
  refine inv_of_idle (hInv.quiet (by rw [hLife]; simp)) (fun e he => .inl ?_) fun _ _ h => by cases h
  refine (hInv.awaits hLife he).resolve_right fun ⟨_, _, _, hMem⟩ => ?_
  cases removing <;> cases hMem

section Calls

variable [DecidableEq ι]

@[simp] theorem setCall_self : (s.setCall i c).call i = c := if_pos rfl

theorem setCall_other {j : ι} (h : j ≠ i) : (s.setCall i c).call j = s.call j := if_neg h

@[elab_as_elim] theorem setCall_cases {motive : ι → Call δ → Prop} (j : ι) (here : motive i c)
    (others : ∀ j, j ≠ i → motive j (s.call j)) : motive j ((s.setCall i c).call j) := by
  by_cases hSame : j = i
  · rw [hSame, setCall_self]
    exact here
  · rw [setCall_other hSame]
    exact others j hSame

theorem inv_setCall (hInv : Inv s) (hUp : s.life = .up) (hHeld : ∀ d, c.holding = some d → s.dir d = some .complete)
    (hStaged : ∀ x, c.staged = some x → s.tomb x ≠ none ∧ ∀ j, j ≠ i → (s.call j).staged ≠ some x)
    (hUndoes : ∀ d n, (s.call i).undoes = some (d, n) → c.undoes = some (d, n) ∨ s.row d = false ∨ s.dir d ≠ none) :
    Inv (s.setCall i c) := by
  refine ⟨fun e hRow => ?_, fun j e => setCall_cases j (hHeld e) fun j _ => hInv.held j e,
    fun j x => setCall_cases j (fun hj => (hStaged x hj).1) fun j _ => hInv.staged j x, fun j k x => ?_,
    fun hNot => absurd hUp hNot, fun r es hLife => absurd (hUp.symm.trans hLife) (by simp)⟩
  · refine (hInv.row e hRow).imp_right fun ⟨hNone, hKept⟩ => ⟨hNone, ?_⟩
    obtain ⟨j, n, hUndo, hTomb⟩ := (kept_up hUp).mp hKept
    refine (kept_up (s := s.setCall i c) hUp).mpr ⟨j, n, ?_, hTomb⟩
    revert hUndo
    refine setCall_cases j (fun hUndo => ?_) fun _ _ hUndo => hUndo
    refine (hUndoes e n hUndo).resolve_right fun hGone => ?_
    exact hGone.elim (fun hFalse => absurd (hRow.symm.trans hFalse) (by decide)) fun hSome => hSome hNone
  refine setCall_cases j (fun hj => ?_) fun j hj' hj => ?_
  · exact setCall_cases k (fun _ => rfl) fun k hk' hk => absurd hk ((hStaged x hj).2 k hk')
  · exact setCall_cases k (fun hk => absurd hj ((hStaged x hk).2 j hj')) fun k _ hk => hInv.apart j k x hj hk

theorem inv_idle (hInv : Inv s) (hUp : s.life = .up)
    (hUndoes : ∀ d n, (s.call i).undoes = some (d, n) → s.row d = false ∨ s.dir d ≠ none) : Inv (s.setCall i .idle) :=
  inv_setCall hInv hUp (fun _ h => absurd h (by simp [Call.holding])) (fun _ h => absurd h (by simp [Call.staged]))
    fun d n h => .inr (hUndoes d n h)

theorem inv_enter (hInv : Inv s) (hUp : s.life = .up) (hUndo : (s.call i).undoes = none) (hStaged : c.staged = none)
    (hHeld : ∀ e, c.holding = some e → s.dir e = some .complete) : Inv (s.setCall i c) :=
  inv_setCall hInv hUp hHeld (fun x hx => absurd (hStaged.symm.trans hx) (by simp)) fun e n he =>
    absurd (hUndo.symm.trans he) (by simp)

theorem inv_free (hInv : Inv s) (hUp : s.life = .up) (hUndo : (s.call i).undoes = none) (hStaged : c.staged = none)
    (hFree : c.holding = none) : Inv (s.setCall i c) :=
  inv_enter hInv hUp hUndo hStaged fun e he => absurd (hFree.symm.trans he) (by simp)

theorem inv_delete (hInv : Inv s) (hUp : s.life = .up) (hHeld : c.holding = none) (hStaged : c.staged = (s.call i).staged)
    (hUndoes : ∀ d n, (s.call i).undoes = some (d, n) → c.undoes = some (d, n) ∨ s.row d = false ∨ s.dir d ≠ none) :
    Inv (s.setCall i c) := by
  refine inv_setCall hInv hUp (fun e he => absurd (hHeld.symm.trans he) (by simp)) (fun x hx => ?_) hUndoes
  have hHere := hStaged.symm.trans hx
  exact ⟨hInv.staged i x hHere, hInv.alone hHere⟩

theorem inv_storeFail (hInv : Inv s) {phase : StorePhase} (hUp : s.life = .up) (hCall : s.call i = .store d phase) :
    Inv (storeFail s i d phase) := by
  have hUndo : (s.call i).undoes = none := hCall ▸ rfl
  unfold storeFail
  split <;> exact inv_free hInv hUp hUndo rfl rfl

theorem inv_deleteFail {phase : DeletePhase} (hInv : Inv s) (hUp : s.life = .up) (hCall : s.call i = .delete d phase)
    (hOrderly : Orderly s (.step i .fail)) : Inv (deleteFail s i d phase) := by
  cases phase with
  | commit tombstone =>
    cases tombstone with
    | none => exact inv_free hInv hUp (hCall ▸ rfl) rfl rfl
    | some n =>
      refine inv_delete hInv hUp rfl (hCall ▸ rfl) fun e k he => .inl ?_
      rw [hCall] at he
      exact he
  | undo n =>
    have hThere : s.row d = true → s.dir d ≠ none := by simpa only [Orderly, hCall] using hOrderly
    refine inv_idle hInv hUp fun e k he => ?_
    rw [hCall] at he
    cases he
    cases hRow : s.row d with
    | false => exact .inl rfl
    | true => exact .inr (hThere hRow)
  | lookUp | stage | cleanUp => exact inv_free hInv hUp (hCall ▸ rfl) rfl rfl

end Calls

section Packages

variable [DecidableEq δ]

@[simp] theorem setRow_self : (s.setRow d b).row d = b := if_pos rfl

@[simp] theorem setDir_self : (s.setDir d p).dir d = p := if_pos rfl

@[simp] theorem setTomb_self : (s.setTomb x p).tomb x = p := if_pos rfl

theorem setRow_other {e : δ} (h : e ≠ d) : (s.setRow d b).row e = s.row e := if_neg h

theorem setDir_other {e : δ} (h : e ≠ d) : (s.setDir d p).dir e = s.dir e := if_neg h

theorem setTomb_other {y : δ × Nat} (h : y ≠ x) : (s.setTomb x p).tomb y = s.tomb y := if_neg h

theorem inv_setDir (hInv : Inv s) {p : Option Package} (hRow : s.row d = true → p = some .complete ∨ p = none ∧ Kept s d)
    (hHeld : ∀ j, (s.call j).holding = some d → p = some .complete) : Inv (s.setDir d p) := by
  refine { hInv with row := fun e he => ?_, held := fun j e hj => ?_ } <;> dsimp only [State.setDir] <;> split
  · subst_vars
    exact hRow he
  · exact hInv.row e he
  · subst_vars
    exact hHeld j hj
  · exact hInv.held j e hj

theorem inv_setTomb (hInv : Inv s) (hUp : s.life = .up) {p : Option Package} (hStaged : p ≠ none ∨ ∀ j, (s.call j).staged ≠ some x)
    (hUndoes : ∀ j, (s.call j).undoes ≠ some x) : Inv (s.setTomb x p) := by
  refine { hInv with row := fun e he => ?_, staged := fun j y hj => ?_ }
  · refine (hInv.row e he).imp_right fun ⟨hNone, hKept⟩ => ⟨hNone, ?_⟩
    obtain ⟨j, n, hUndo, hTomb⟩ := (kept_up hUp).mp hKept
    refine (kept_up (s := s.setTomb x p) hUp).mpr ⟨j, n, hUndo, ?_⟩
    rw [setTomb_other]
    · exact hTomb
    · rintro rfl
      exact hUndoes j hUndo
  dsimp only [State.setTomb]
  split
  · subst_vars
    exact hStaged.resolve_right fun hNobody => hNobody j hj
  · exact hInv.staged j y hj

theorem inv_setRow (hInv : Inv s) {b : Bool} (h : b = true → s.dir d = some .complete) : Inv (s.setRow d b) := by
  refine { hInv with row := fun e he => ?_ }
  by_cases hSame : e = d
  · subst hSame
    rw [setRow_self] at he
    exact .inl (h he)
  · rw [setRow_other hSame] at he
    exact hInv.row e he

theorem inv_take (hInv : Inv s) {p : Option Package} (hNoRow : s.row d = false) (hFree : Free s d i)
    (hHere : (s.call i).holding ≠ some d) : Inv (s.setDir d p) := by
  refine inv_setDir hInv (fun hRow => absurd (hRow.symm.trans hNoRow) (by decide)) fun j hj => ?_
  by_cases hSame : j = i
  · exact absurd (hSame ▸ hj) hHere
  · exact absurd hj (hFree j hSame)

theorem inv_putBack (hInv : Inv s) (hLife : s.life = .recovering false ((d, n) :: rest)) {p : Option Package}
    (hRow : s.row d = true → p = some .complete) :
    Inv { (s.setDir d p).setTomb (d, n) none with life := .recovering false rest } := by
  refine inv_of_idle (hInv.quiet (by rw [hLife]; simp)) (fun e he => ?_) fun _ _ h => by
    cases h
    exact (List.nodup_cons.mp (hInv.entries _ _ hLife)).2
  by_cases hSame : e = d
  · subst hSame
    exact .inl (setDir_self.trans (hRow he))
  refine (hInv.awaits hLife he).imp (setDir_other hSame).trans fun ⟨hNone, k, hTomb, hMem⟩ => ?_
  have hOther : (e, k) ≠ (d, n) := fun h => hSame (Prod.mk.inj h).1
  exact ⟨(setDir_other hSame).trans hNone, k, (setTomb_other hOther).trans hTomb,
    (List.mem_cons.mp hMem).resolve_left hOther⟩

theorem inv_remove (hInv : Inv s) (hLife : s.life = .recovering true ((d, n) :: rest)) {p : Option Package}
    {removing : Bool} {entries : List (δ × Nat)} (hRest : (if removing then entries.tail else entries) = rest)
    (hNodup : entries.Nodup) : Inv { s.setTomb (d, n) p with life := .recovering removing entries } := by
  refine inv_of_idle (hInv.quiet (by rw [hLife]; simp)) (fun e he => ?_) fun _ _ h => by cases h; exact hNodup
  refine (hInv.awaits hLife he).imp_right fun ⟨hNone, k, hTomb, hMem⟩ => ?_
  have hOther : (e, k) ≠ (d, n) := fun h => (List.nodup_cons.mp (hInv.entries _ _ hLife)).1 (h ▸ hMem)
  exact ⟨hNone, k, (setTomb_other hOther).trans hTomb, hRest ▸ hMem⟩

theorem inv_recoverStep {result : Result} (hInv : Inv s) (hOrderly : Orderly s (.recover result)) :
    Inv (recoverStep s result) := by
  cases hLife : s.life with
  | up | down => simpa only [recoverStep, hLife] using hInv
  | recovering removing entries =>
    have hDown : Inv { s with life := .down } := inv_of_idle (hInv.quiet (by rw [hLife]; simp))
      (fun e he => (hInv.row e he).imp_right fun h => ⟨h.1, h.2.tomb⟩) fun _ _ h => by cases h
    rw [recoverStep, hLife]
    cases entries with
    | nil =>
      cases result with
      | ok time => exact inv_recovered hInv hLife
      | fail => exact hDown
      | erode left => exact hInv
    | cons x rest =>
      obtain ⟨d, n⟩ := x
      have hNodup := hInv.entries _ _ hLife
      cases removing with
      | false =>
        cases result with
        | ok time =>
          have hFull : s.row d = true → s.dir d = none → s.tomb (d, n) = some .complete := by
            simpa only [Orderly, hLife] using hOrderly
          dsimp only
          split <;> rename_i hGone <;> rw [Bool.and_eq_true, isNone_iff_eq_none] at hGone
          · exact inv_putBack hInv hLife fun hRow => hFull hRow hGone.2
          · exact inv_startRemoving hInv hLife hGone
        | fail => exact hDown
        | erode left => exact hInv
      | true =>
        cases result with
        | ok time => exact inv_remove hInv hLife rfl (List.nodup_cons.mp hNodup).2
        | fail => exact hDown
        | erode left =>
          have hErode : Inv { s.setTomb (d, n) (some left) with life := .recovering true ((d, n) :: rest) } :=
            inv_remove hInv hLife rfl hNodup
          rw [← hLife] at hErode
          exact hErode

end Packages

variable [DecidableEq ι] [DecidableEq δ]

theorem inv_storeStep (hInv : Inv s) {phase : StorePhase} {time : Nat} (hUp : s.life = .up) (hCall : s.call i = .store d phase)
    (hOrderly : Orderly s (.step i (.ok time))) : Inv (storeStep s i d phase) := by
  have hUndo : (s.call i).undoes = none := hCall ▸ rfl
  have hFree {c : Call δ} : c.staged = none → c.holding = none → Inv (s.setCall i c) := inv_free hInv hUp hUndo
  have hCommit {created : Bool} hDir : Inv (s.setCall i (.store d (.commit created))) :=
    inv_enter hInv hUp hUndo rfl fun e he => by cases he; exact hDir
  cases phase with
  | stat | verifyLayout | restat =>
    rw [storeStep]
    split <;> exact hFree rfl rfl
  | verifyAssets =>
    rw [storeStep]
    split
    · exact hCommit ‹_›
    · exact hFree rfl rfl
  | prepare => exact hFree rfl rfl
  | publish =>
    rw [storeStep]
    split
    · have hPub : Inv (s.setDir d (some .complete)) := inv_setDir hInv (fun _ => .inl rfl) fun _ _ => rfl
      refine inv_enter hPub hUp hUndo rfl fun e he => ?_
      cases he
      exact setDir_self
    · exact hFree rfl rfl
  | recheck =>
    have hAssets : ∀ p ∈ s.dir d, p.layout = true → p.assets = true := by
      simpa only [Orderly, hCall] using hOrderly
    rw [storeStep]
    split
    next hLayout =>
      refine hCommit ?_
      obtain ⟨p, hp, hIntact⟩ := (any_eq_true _ _).mp hLayout
      have hBoth := hAssets p hp hIntact
      obtain ⟨_, _⟩ := p
      cases hIntact
      cases hBoth
      exact hp
    · exact hFree rfl rfl
  | commit created =>
    have hFull : s.dir d = some .complete := hInv.held i d (hCall ▸ rfl)
    exact inv_free (inv_setRow hInv fun _ => hFull) hUp hUndo rfl rfl
  | rollback =>
    obtain ⟨hNoRow, hOthers⟩ : s.row d = false ∧ Free s d i := by simpa only [Orderly, hCall] using hOrderly
    exact inv_free (inv_take hInv hNoRow hOthers (by rw [hCall]; simp [Call.holding])) hUp hUndo rfl rfl

theorem inv_stage (hInv : Inv s) {p : Package} {n : Nat} (hUp : s.life = .up) (hCall : s.call i = .delete d .stage)
    (hFree : Free s d i) (hDir : s.dir d = some p) (hTomb : s.tomb (d, n) = none) :
    Inv (((s.setDir d none).setTomb (d, n) (some p)).setCall i (.delete d (.commit (some n)))) := by
  have hNobody : ∀ j, (s.call j).staged ≠ some (d, n) := fun j hj => hInv.staged j _ hj hTomb
  have hMoved : Inv (s.setTomb (d, n) (some p)) :=
    inv_setTomb hInv hUp (.inl (some_ne_none p)) fun j hj => hNobody j (Call.staged_of_undoes hj)
  have hStaged : Inv ((s.setTomb (d, n) (some p)).setCall i (.delete d (.commit (some n)))) := by
    refine inv_setCall hMoved hUp (fun e he => by cases he) (fun x hx => ?_) fun e k he => ?_
    · cases hx
      refine ⟨?_, fun j _ => hNobody j⟩
      rw [setTomb_self]
      exact some_ne_none p
    change (s.call i).undoes = some (e, k) at he
    rw [hCall] at he
    cases he
  refine inv_setDir hStaged (fun hRow => .inr ⟨rfl, ?_⟩) fun j hj => ?_
  · have hFull := (hInv.row d hRow).resolve_right fun h => some_ne_none p (hDir.symm.trans h.1)
    rw [hDir] at hFull
    refine (kept_up (s := (s.setTomb (d, n) (some p)).setCall i _) hUp).mpr ⟨i, n, ?_, ?_⟩
    · rw [setCall_self]
      rfl
    · exact setTomb_self.trans hFull
  by_cases hSame : j = i
  · rw [hSame, setCall_self] at hj
    cases hj
  · rw [setCall_other hSame] at hj
    exact absurd hj (hFree j hSame)

theorem inv_bury (hIdle : Inv (s.setCall i .idle)) (hUp : s.life = .up)
    (hAlone : ∀ j, j ≠ i → (s.call j).staged ≠ some x) : Inv ((s.setCall i .idle).setTomb x none) := by
  have hNobody : ∀ j, ((s.setCall i .idle).call j).staged ≠ some x := by
    intro j hj
    by_cases hSame : j = i
    · rw [hSame, setCall_self] at hj
      cases hj
    · rw [setCall_other hSame] at hj
      exact hAlone j hSame hj
  exact inv_setTomb hIdle hUp (.inr hNobody) fun j hj => hNobody j (Call.staged_of_undoes hj)

theorem inv_undo {n : Nat} (hInv : Inv s) (hUp : s.life = .up) (hCall : s.call i = .delete d (.undo n))
    (hFree : replaceable (s.dir d) = true)
    (hFull : s.row d = true → s.dir d = none → s.tomb (d, n) = some .complete) :
    Inv (((s.setDir d (s.tomb (d, n))).setTomb (d, n) none).setCall i .idle) := by
  have hHere : (s.call i).staged = some (d, n) := hCall ▸ rfl
  have hNot : s.dir d ≠ some .complete := by
    intro hDir
    rw [hDir] at hFree
    cases hFree
  have hBack : Inv (s.setDir d (s.tomb (d, n))) := by
    refine inv_setDir hInv (fun hRow => .inl (hFull hRow ?_)) fun j hj => absurd hj (hInv.free hNot j)
    exact ((hInv.row d hRow).resolve_left hNot).1
  refine inv_bury (inv_idle hBack hUp fun e k he => .inr ?_) hUp (hInv.alone hHere)
  change (s.call i).undoes = some (e, k) at he
  rw [hCall] at he
  cases he
  rw [setDir_self]
  exact hInv.staged i _ hHere

theorem inv_deleteStep {phase : DeletePhase} {time : Nat} (hInv : Inv s) (hUp : s.life = .up)
    (hCall : s.call i = .delete d phase) (hOrderly : Orderly s (.step i (.ok time))) :
    Inv (deleteStep s i d time phase) := by
  cases phase with
  | lookUp =>
    have hUndo : (s.call i).undoes = none := hCall ▸ rfl
    rw [deleteStep]
    split <;> exact inv_free hInv hUp hUndo rfl rfl
  | stage =>
    have hFree : Free s d i := by simpa only [Orderly, hCall] using hOrderly
    have hUndo : (s.call i).undoes = none := hCall ▸ rfl
    rw [deleteStep]
    cases hDir : s.dir d with
    | none => exact inv_free hInv hUp hUndo rfl rfl
    | some p =>
      dsimp only
      split
      · exact inv_free hInv hUp hUndo rfl rfl
      next hTomb => exact inv_stage hInv hUp hCall hFree hDir (by simpa using hTomb)
  | commit tombstone =>
    have hRow : Inv (s.setRow d false) := inv_setRow hInv fun h => absurd h (by decide)
    cases tombstone with
    | none => exact inv_free hRow hUp (by rw [State.setRow, hCall]; rfl) rfl rfl
    | some n =>
      refine inv_delete hRow hUp rfl ?_ fun e k he => .inr (.inl ?_)
      · change _ = (s.call i).staged
        rw [hCall]
        rfl
      change (s.call i).undoes = some (e, k) at he
      rw [hCall] at he
      cases he
      exact setRow_self
  | undo n =>
    have hFull : s.row d = true → s.dir d = none → s.tomb (d, n) = some .complete := by
      simpa only [Orderly, hCall] using hOrderly
    rw [deleteStep]
    split
    next hFree => exact inv_undo hInv hUp hCall hFree hFull
    next hThere =>
      refine inv_idle hInv hUp fun e k he => .inr ?_
      rw [hCall] at he
      cases he
      intro hNone
      rw [hNone] at hThere
      exact hThere rfl
  | cleanUp n =>
    have hIdle : Inv (s.setCall i .idle) := inv_free hInv hUp (hCall ▸ rfl) rfl rfl
    exact inv_bury hIdle hUp (hInv.alone (hCall ▸ rfl))

theorem inv_callStep {result : Result} (hInv : Inv s) (hUp : s.life = .up) (hOrderly : Orderly s (.step i result)) :
    Inv (callStep s i result) := by
  cases result with
  | ok time =>
    rw [callStep]
    cases hCall : s.call i with
    | idle => exact hInv
    | store d phase => exact inv_storeStep hInv hUp hCall hOrderly
    | delete d phase => exact inv_deleteStep hInv hUp hCall hOrderly
  | fail =>
    rw [callStep]
    cases hCall : s.call i with
    | idle => exact hInv
    | store d phase => exact inv_storeFail hInv hUp hCall
    | delete d phase => exact inv_deleteFail hInv hUp hCall hOrderly
  | erode left =>
    rw [callStep]
    split
    next d hCall =>
      obtain ⟨hNoRow, hFree⟩ : s.row d = false ∧ Free s d i := by simpa only [Orderly, hCall] using hOrderly
      exact inv_take hInv hNoRow hFree (by rw [hCall]; simp [Call.holding])
    next d n hCall => exact inv_setTomb hInv hUp (.inl (some_ne_none left)) (hInv.not_undone hCall)
    · exact hInv

theorem inv_step {e : Event ι δ} (hInv : Inv s) (hOn : system.enabled s e) (hOrderly : Orderly s e) :
    Inv (system.next s e) := by
  cases e with
  | store | delete => exact inv_free hInv hOn.1 (by rw [hOn.2]; rfl) rfl rfl
  | step i result =>
    have hUp : s.life = .up := by cases result <;> exact hOn.1
    exact inv_callStep hInv hUp hOrderly
  | crash =>
    exact inv_of_idle (fun _ => rfl) (fun d hRow => (hInv.row d hRow).imp_right fun h => ⟨h.1, h.2.tomb⟩)
      fun _ _ h => by cases h
  | restart entries => exact inv_restart hInv hOn.1 hOn.2.1 hOn.2.2
  | recover result => exact inv_recoverStep hInv hOrderly

theorem installed_recipe_complete (hReachable : system.Reachable Orderly s) (hQuiet : s.Quiet) :
    ∀ d, s.row d = true → s.dir d = some .complete := by
  have hInv : Inv s := hReachable.invariant
    (fun t ⟨hUp, hIdle, hRow⟩ => inv_of_idle hIdle (fun d hd => .inl (hRow d hd))
      fun _ _ h => absurd (hUp.symm.trans h) (by simp))
    fun _ _ hInv hOn hOrderly => inv_step hInv hOn hOrderly
  intro d hRow
  refine (hInv.row d hRow).resolve_right fun ⟨_, hKept⟩ => ?_
  obtain ⟨j, n, hUndo, _⟩ := (kept_up hQuiet.1).mp hKept
  rw [hQuiet.2 j] at hUndo
  cases hUndo

def sampleStart : State (Fin 2) Unit := ⟨fun _ => false, fun _ => none, fun _ => none, fun _ => .idle, .up⟩

theorem sampleStart_init : system.init sampleStart := ⟨rfl, fun _ => rfl, fun _ h => by cases h⟩

def interrupted (a b : Fin 2) : List (Event (Fin 2) Unit) :=
  [.store a (), .step a (.ok 0), .step a (.ok 0), .step a (.ok 0), .step a (.ok 0), .delete b (), .step b (.ok 0),
    .step b (.ok 7), .crash, .restart [((), 7)], .recover (.ok 0), .recover (.ok 0)]

theorem installed_recipe_complete_interrupted :
    ∃ s : State (Fin 2) Unit, s.Quiet ∧ s.row () = true ∧ s.dir () = some .complete := by
  have hFree : ∀ s : State (Fin 2) Unit, s.call 0 = .idle → Free s () 1 := by
    intro s hIdle j hj
    have hZero : j = 0 := by omega
    rw [hZero, hIdle]
    exact (some_ne_none ()).symm
  have hEntries : ∀ x : Unit × Nat, x ∈ [((), 7)] ↔ (system.exec sampleStart ((interrupted 0 1).take 9)).tomb x ≠ none := by
    intro x
    constructor
    · intro hx
      rw [List.mem_singleton.mp hx]
      exact some_ne_none _
    intro hSome
    by_contra hOther
    exact hSome (if_neg fun hx => hOther (List.mem_singleton.mpr hx))
  have hMay : system.Allowed Orderly sampleStart (interrupted 0 1) := by
    refine ⟨⟨⟨rfl, rfl⟩, trivial⟩, ?_, ?_, ?_, ?_, ⟨⟨rfl, rfl⟩, trivial⟩, ?_, ⟨⟨rfl, by decide⟩, hFree _ rfl⟩,
      ⟨nofun, trivial⟩, ⟨⟨rfl, by decide, hEntries⟩, trivial⟩, ⟨trivial, fun _ _ => rfl⟩,
      ⟨trivial, trivial⟩, trivial⟩
    all_goals exact ⟨⟨rfl, by decide⟩, trivial⟩
  have hQuiet : (system.exec sampleStart (interrupted 0 1)).Quiet := ⟨rfl, fun _ => rfl⟩
  exact ⟨_, hQuiet, rfl, installed_recipe_complete (System.Reachable.of_allowed sampleStart_init hMay) hQuiet () rfl⟩

def shared (a b : Fin 2) : List (Event (Fin 2) Unit) :=
  [.store a (), .store b (), .step a (.ok 0), .step a (.ok 0), .step a (.ok 0), .step b (.ok 0), .step b (.ok 0),
    .step b (.ok 0), .step b (.ok 0), .step a .fail, .step a (.ok 0)]

theorem installed_recipe_lost :
    ∃ s : State (Fin 2) Unit, system.Reachable (fun _ _ => True) s ∧ s.Quiet ∧ s.row () = true ∧ s.dir () = none := by
  have hMay : system.Allowed (fun _ _ => True) sampleStart (shared 0 1) := by
    refine ⟨⟨⟨rfl, rfl⟩, trivial⟩, ⟨⟨rfl, rfl⟩, trivial⟩, ?_, ?_, ?_, ?_, ?_, ?_, ?_, ?_, ?_, trivial⟩
    all_goals exact ⟨⟨rfl, by decide⟩, trivial⟩
  exact ⟨_, System.Reachable.of_allowed sampleStart_init hMay, ⟨rfl, by decide⟩, rfl, rfl⟩

end LocalModelWorks.Recipe.Packages
