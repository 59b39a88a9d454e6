import LocalModelWorks.Transition
import Mathlib.Data.Fintype.Basic

/-!
# Packages on disk

`storeReviewedPack` publishes the directory of a package and then inserts the row of its
recipe; `Delete` moves the directory aside, deletes the row and then removes what it moved.
-/

namespace LocalModelWorks.Recipe.Packages

open Transition

structure Package where
  layout : Bool
  assets : Bool
  deriving DecidableEq

def Package.complete : Package := ⟨true, true⟩

def Package.empty : Package := ⟨false, false⟩

def Package.Within (p q : Package) : Prop := (p.layout = true → q.layout = true) ∧ (p.assets = true → q.assets = true)

instance (p q : Package) : Decidable (p.Within q) := inferInstanceAs (Decidable (_ ∧ _))

/-- Where a call of `storeReviewedPack` stands; up to `commit` it is in `PersistPackage`. -/
inductive StorePhase
  | stat
  | verifyLayout
  | verifyAssets
  | prepare
  | publish
  | restat
  | recheck
  | commit (created : Bool)
  | rollback
  deriving DecidableEq

inductive DeletePhase
  | lookUp
  | stage
  | commit (tombstone : Option Nat)
  | undo (tombstone : Nat)
  | cleanUp (tombstone : Nat)
  deriving DecidableEq

inductive Call (δ : Type)
  | idle
  | store (digest : δ) (phase : StorePhase)
  | delete (digest : δ) (phase : DeletePhase)
  deriving DecidableEq

/-- The service is there, or not, or on its way through the entries that were moved aside. -/
inductive Life (δ : Type)
  | up
  | down
  | recovering (removing : Bool) (entries : List (δ × Nat))
  deriving DecidableEq

structure State (ι δ : Type) where
  row : δ → Bool
  dir : δ → Option Package
  tomb : δ × Nat → Option Package
  call : ι → Call δ
  life : Life δ

inductive Result
  | ok (time : Nat)
  | fail
  | erode (left : Package)
  deriving DecidableEq

inductive Event (ι δ : Type)
  | store (i : ι) (digest : δ)
  | delete (i : ι) (digest : δ)
  | step (i : ι) (result : Result)
  | crash
  | restart (entries : List (δ × Nat))
  | recover (result : Result)
  deriving DecidableEq

section Steps

variable {ι δ : Type} [DecidableEq ι] [DecidableEq δ] (s : State ι δ) (i : ι)

def State.setCall (call : Call δ) : State ι δ :=
  { s with call := fun j => if j = i then call else s.call j }

variable (d : δ)

def State.setRow (present : Bool) : State ι δ :=
  { s with row := fun e => if e = d then present else s.row e }

def State.setDir (package : Option Package) : State ι δ :=
  { s with dir := fun e => if e = d then package else s.dir e }

def State.setTomb (x : δ × Nat) (package : Option Package) : State ι δ :=
  { s with tomb := fun y => if y = x then package else s.tomb y }

def replaceable : Option Package → Bool
  | none => true
  | some p => p = .empty

def storeStep : StorePhase → State ι δ
  | .stat => s.setCall i (.store d (if (s.dir d).isSome then .verifyLayout else .prepare))
  | .verifyLayout => s.setCall i (if (s.dir d).any (·.layout) then .store d .verifyAssets else .idle)
  | .verifyAssets => s.setCall i (if s.dir d = some .complete then .store d (.commit false) else .idle)
  | .prepare => s.setCall i (.store d .publish)
  | .publish =>
    if replaceable (s.dir d) then (s.setDir d (some .complete)).setCall i (.store d (.commit true))
    else s.setCall i (.store d .restat)
  | .restat => s.setCall i (if (s.dir d).isSome then .store d .recheck else .idle)
  | .recheck => s.setCall i (if (s.dir d).any (·.layout) then .store d (.commit false) else .idle)
  | .commit _ => (s.setRow d true).setCall i .idle
  | .rollback => (s.setDir d none).setCall i .idle

def storeFail : StorePhase → State ι δ
  | .publish => s.setCall i (.store d .restat)
  | .commit true => s.setCall i (.store d .rollback)
  | _ => s.setCall i .idle

def deleteStep (time : Nat) : DeletePhase → State ι δ
  | .lookUp => s.setCall i (if s.row d then .delete d .stage else .idle)
  | .stage =>
    match s.dir d with
    | none => s.setCall i (.delete d (.commit none))
    | some p =>
      if (s.tomb (d, time)).isSome then s.setCall i .idle
      else ((s.setDir d none).setTomb (d, time) (some p)).setCall i (.delete d (.commit (some time)))
  | .commit none => (s.setRow d false).setCall i .idle
  | .commit (some n) => (s.setRow d false).setCall i (.delete d (.cleanUp n))
  | .undo n =>
    if replaceable (s.dir d) then ((s.setDir d (s.tomb (d, n))).setTomb (d, n) none).setCall i .idle
    else s.setCall i .idle
  | .cleanUp n => (s.setTomb (d, n) none).setCall i .idle

def deleteFail : DeletePhase → State ι δ
  | .commit (some n) => s.setCall i (.delete d (.undo n))
  | _ => s.setCall i .idle

def callStep : Result → State ι δ
  | .ok time =>
    match s.call i with
    | .store d phase => storeStep s i d phase
    | .delete d phase => deleteStep s i d time phase
    | .idle => s
  | .fail =>
    match s.call i with
    | .store d phase => storeFail s i d phase
    | .delete d phase => deleteFail s i d phase
    | .idle => s
  | .erode left =>
    match s.call i with
    | .store d .rollback => s.setDir d (some left)
    | .delete d (.cleanUp n) => s.setTomb (d, n) (some left)
    | _ => s

def canErode (left : Package) : Prop :=
  match s.call i with
  | .store d .rollback => ∃ p ∈ s.dir d, left.Within p
  | .delete d (.cleanUp n) => ∃ p ∈ s.tomb (d, n), left.Within p
  | _ => False

def recoverStep (result : Result) : State ι δ :=
  match s.life with
  | .recovering removing entries =>
    match entries, removing, result with
    | [], _, .ok _ => { s with life := .up }
    | (d, n) :: rest, false, .ok _ =>
      if s.row d && (s.dir d).isNone then
        { (s.setDir d (s.tomb (d, n))).setTomb (d, n) none with life := .recovering false rest }
      else { s with life := .recovering true ((d, n) :: rest) }
    | (d, n) :: rest, true, .ok _ => { s.setTomb (d, n) none with life := .recovering false rest }
    | (d, n) :: _, true, .erode left => s.setTomb (d, n) (some left)
    | _, _, .fail => { s with life := .down }
    | _, _, _ => s
  | _ => s

def canRecover : Result → Prop
  | .erode left =>
    match s.life with
    | .recovering true (x :: _) => ∃ p ∈ s.tomb x, left.Within p
    | _ => False
  | _ =>
    match s.life with
    | .recovering _ _ => True
    | _ => False

def system : System (State ι δ) (Event ι δ) where
  init s := s.life = .up ∧ (∀ i, s.call i = .idle) ∧ ∀ d, s.row d = true → s.dir d = some .complete
  enabled s
    | .store i _ => s.life = .up ∧ s.call i = .idle
    | .delete i _ => s.life = .up ∧ s.call i = .idle
    | .step i (.erode left) => s.life = .up ∧ canErode s i left
    | .step i _ => s.life = .up ∧ s.call i ≠ .idle
    | .crash => s.life ≠ .down
    | .restart entries => s.life = .down ∧ entries.Nodup ∧ ∀ x, x ∈ entries ↔ s.tomb x ≠ none
    | .recover result => canRecover s result
  next s
    | .store i d => s.setCall i (.store d .stat)
    | .delete i d => s.setCall i (.delete d .lookUp)
    | .step i result => callStep s i result
    | .crash => { s with call := fun _ => .idle, life := .down }
    | .restart entries => { s with life := .recovering false entries }
    | .recover result => recoverStep s result

def State.Quiet : Prop := s.life = .up ∧ ∀ i, s.call i = .idle

end Steps

end LocalModelWorks.Recipe.Packages
