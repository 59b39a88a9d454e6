import LocalModelWorks.Transition
import LocalModelWorks.Runs.State

/-!
# Exclusive resource leases

The leases table, the conflict relation that `AcquireLeases` scans, and the insertions under
the partial unique index on active resources.
-/

namespace LocalModelWorks.Runs.Lease

open Transition List

abbrev Text := List Char

def cutBefore (t : Text) : Text := t.takeWhile (· != ':')

def cutAfter (t : Text) : Text := (t.dropWhile (· != ':')).drop 1

inductive OwnerKind
  | deployment
  | run
  deriving DecidableEq

structure Owner where
  kind : OwnerKind
  id : String
  deriving DecidableEq

structure Row where
  resource : Text
  owner : Owner
  active : Bool
  deriving DecidableEq

abbrev Table := List Row

def upstreamNodeConflict (upstream resource : Text) : Bool :=
  match upstream.dropPrefix? "upstream-node:".toList with
  | none => false
  | some node =>
    if node = [] then false
    else if ':' ∉ resource then false
    else if cutBefore resource = "node".toList ∨ cutBefore resource = "upstream-node".toList then
      cutAfter resource == node
    else if cutBefore resource = "gpu".toList ∨ cutBefore resource = "port".toList then
      cutBefore (cutAfter resource) == node
    else false

variable (left right : Text)

def resourcesConflict : Bool :=
  left == right || (upstreamNodeConflict left right || upstreamNodeConflict right left)

theorem resourcesConflict_comm : resourcesConflict left right = resourcesConflict right left := by
  have hEq : (left == right) = (right == left) := by
    rw [Bool.eq_iff_iff, beq_iff_eq, beq_iff_eq]
    exact eq_comm
  rw [resourcesConflict, resourcesConflict, hEq, Bool.or_comm (upstreamNodeConflict left right)]

def firstConflict (t : Table) (owner : Owner) : List Text → Option (Text × Row)
  | [] => none
  | requested :: rest =>
    match t.find? (fun held => held.active && held.owner != owner &&
      resourcesConflict requested held.resource) with
    | some held => some (requested, held)
    | none => firstConflict t owner rest

def insertLeases (owner : Owner) : List Text → Table → Except String Table
  | [], t => .ok t
  | r :: rest, t =>
    if t.any (fun held => held.active && held.resource == r) then
      let name := String.ofList r
      .error s!"lease {name}: UNIQUE constraint failed: leases.resource"
    else insertLeases owner rest (⟨r, owner, true⟩ :: t)

variable (t : Table) (owner : Owner)

def acquireLeases (resources : List Text) : Except String Table :=
  match firstConflict t owner resources with
  | some (requested, held) =>
    let left := String.ofList requested
    let right := String.ofList held.resource
    let holder := held.owner.id
    .error s!"lease {left} conflicts with {right} held by {holder}"
  | none => insertLeases owner resources t

def releaseLeases : Table :=
  t.map fun row => if row.owner = owner ∧ row.active then { row with active := false } else row

def holds : Prop := ∃ row ∈ t, row.active = true ∧ row.owner = owner

inductive Call
  | acquire (owner : Owner) (resources : List Text)
  | release (owner : Owner)

def apply : Call → Table
  | .acquire owner resources => match acquireLeases t owner resources with
    | .ok t' => t'
    | .error _ => t
  | .release owner => releaseLeases t owner

def system : System Table Call where
  init t := t = []
  enabled _ _ := True
  next := apply

variable {t t' : Table} {owner : Owner} {resources : List Text}

theorem firstConflict_eq_none (h : firstConflict t owner resources = none) {requested : Text}
    (hRequested : requested ∈ resources) {held : Row} (hHeld : held ∈ t) (hActive : held.active = true)
    (hOther : held.owner ≠ owner) :
    resourcesConflict requested held.resource = false := by
  induction resources with
  | nil => cases hRequested
  | cons r rest ih =>
    unfold firstConflict at h
    split at h
    · cases h
    rename_i hFind
    rcases mem_cons.mp hRequested with rfl | hRest
    · have hNone := find?_eq_none.mp hFind held hHeld
      simpa [hActive, hOther] using hNone
    · exact ih h hRest

theorem mem_of_insertLeases (h : insertLeases owner resources t = .ok t') {row : Row} (hRow : row ∈ t') :
    row ∈ t ∨ (row.owner = owner ∧ row.active = true ∧ row.resource ∈ resources) := by
  induction resources generalizing t with
  | nil =>
    cases h
    exact .inl hRow
  | cons r rest ih =>
    unfold insertLeases at h
    split at h
    · cases h
    rcases ih h with hOld | ⟨hOwner, hActive, hMem⟩
    · rcases mem_cons.mp hOld with rfl | hOld
      · exact .inr ⟨rfl, rfl, mem_cons_self⟩
      · exact .inl hOld
    · exact .inr ⟨hOwner, hActive, mem_cons_of_mem _ hMem⟩

theorem acquireLeases_ok (h : acquireLeases t owner resources = .ok t') :
    (∀ row ∈ t', row ∈ t ∨ (row.owner = owner ∧ row.active = true ∧ row.resource ∈ resources)) ∧
    (∀ requested ∈ resources, ∀ held ∈ t, held.active = true → held.owner ≠ owner →
      resourcesConflict requested held.resource = false) := by
  unfold acquireLeases at h
  split at h
  · cases h
  next hNone =>
    exact ⟨fun row hRow => mem_of_insertLeases h hRow,
      fun r hr held hHeld hActive hOther => firstConflict_eq_none hNone hr hHeld hActive hOther⟩

theorem mem_releaseLeases {row : Row} (hRow : row ∈ releaseLeases t owner) (hActive : row.active = true) :
    row ∈ t ∧ row.owner ≠ owner := by
  obtain ⟨old, hOld, hEq⟩ := mem_map.mp hRow
  split at hEq
  · subst hEq
    cases hActive
  next hKeep =>
    subst hEq
    exact ⟨hOld, fun hOwner => hKeep ⟨hOwner, hActive⟩⟩

def Exclusive (t : Table) : Prop :=
  ∀ l ∈ t, ∀ r ∈ t, l.active = true → r.active = true → l.owner ≠ r.owner →
    resourcesConflict l.resource r.resource = false

theorem Exclusive.acquire (hExcl : Exclusive t) (h : acquireLeases t owner resources = .ok t') : Exclusive t' := by
  obtain ⟨hRows, hClear⟩ := acquireLeases_ok h
  intro l hl r hr hlActive hrActive hOwners
  rcases hRows l hl with hlOld | ⟨hlOwner, _, hlMem⟩ <;> rcases hRows r hr with hrOld | ⟨hrOwner, _, hrMem⟩
  · exact hExcl l hlOld r hrOld hlActive hrActive hOwners
  · rw [resourcesConflict_comm]
    exact hClear r.resource hrMem l hlOld hlActive (hrOwner ▸ hOwners)
  · exact hClear l.resource hlMem r hrOld hrActive (fun hEq => hOwners (hlOwner.trans hEq.symm))
  · exact absurd (hlOwner.trans hrOwner.symm) hOwners

theorem Exclusive.release (hExcl : Exclusive t) (owner : Owner) : Exclusive (releaseLeases t owner) := by
  intro l hl r hr hlActive hrActive hOwners
  exact hExcl l (mem_releaseLeases hl hlActive).1 r (mem_releaseLeases hr hrActive).1
    hlActive hrActive hOwners

theorem exclusive_of_reachable (hReach : system.Reachable (fun _ _ => True) t) : Exclusive t := by
  apply hReach.invariant
  · rintro t rfl l hl
    cases hl
  intro t call hExcl _ _
  cases call with
  | acquire owner resources =>
    change Exclusive (match acquireLeases t owner resources with | .ok t' => t' | .error _ => t)
    cases hAcquire : acquireLeases t owner resources with
    | ok t' => exact hExcl.acquire hAcquire
    | error _ => exact hExcl
  | release owner => exact hExcl.release owner

/-- An enrolled node's identifier is a UUID: not empty, and free of the separator. -/
structure NodeID where
  text : Text
  nonempty : text ≠ []
  noColon : ':' ∉ text

variable (n : NodeID)

def upstreamNodeResource : Text := "upstream-node:".toList ++ n.text

def nodeResource : Text := "node:".toList ++ n.text

def gpuResource (uuid : Text) : Text := "gpu:".toList ++ n.text ++ ':' :: uuid

def portResource (port : Nat) : Text := "port:".toList ++ n.text ++ ':' :: (toString port).toList

/-- The resources of one node that an upstream lifecycle must not share. -/
inductive OnNode (n : NodeID) : Text → Prop
  | node : OnNode n (nodeResource n)
  | upstream : OnNode n (upstreamNodeResource n)
  | gpu (uuid : Text) : OnNode n (gpuResource n uuid)
  | port (port : Nat) : OnNode n (portResource n port)

variable {head rest : Text}

theorem cutBefore_append (hHead : ':' ∉ head) : cutBefore (head ++ ':' :: rest) = head := by
  unfold cutBefore
  rw [takeWhile_append_of_pos]
  · simp
  · intro c hc
    simpa using fun hEq : c = ':' => hHead (hEq ▸ hc)

theorem cutAfter_append (hHead : ':' ∉ head) : cutAfter (head ++ ':' :: rest) = rest := by
  unfold cutAfter
  rw [dropWhile_append_of_pos]
  · simp
  · intro c hc
    simpa using fun hEq : c = ':' => hHead (hEq ▸ hc)

theorem upstreamNodeConflict_eq (kind rest : Text) (hKind : ':' ∉ kind) :
    upstreamNodeConflict (upstreamNodeResource n) (kind ++ ':' :: rest) =
      if kind = "node".toList ∨ kind = "upstream-node".toList then rest == n.text
      else if kind = "gpu".toList ∨ kind = "port".toList then cutBefore rest == n.text
      else false := by
  have hDrop : (upstreamNodeResource n).dropPrefix? "upstream-node:".toList = some n.text :=
    dropPrefix?_eq_some_iff.mpr ⟨_, rfl, by simp⟩
  have hColon : ':' ∈ kind ++ ':' :: rest := mem_append_right _ mem_cons_self
  rw [upstreamNodeConflict, hDrop, cutBefore_append hKind, cutAfter_append hKind]
  change (if n.text = [] then false else if ':' ∉ kind ++ ':' :: rest then false else _) = _
  rw [if_neg n.nonempty, if_neg (not_not.mpr hColon)]

theorem OnNode.conflict {n : NodeID} {resource : Text} (h : OnNode n resource) :
    upstreamNodeConflict (upstreamNodeResource n) resource = true := by
  cases h with
  | node =>
    refine (upstreamNodeConflict_eq n "node".toList n.text (by decide)).trans ?_
    rw [if_pos (.inl rfl), beq_self_eq_true]
  | upstream =>
    refine (upstreamNodeConflict_eq n "upstream-node".toList n.text (by decide)).trans ?_
    rw [if_pos (.inr rfl), beq_self_eq_true]
  | gpu uuid =>
    refine (upstreamNodeConflict_eq n "gpu".toList (n.text ++ ':' :: uuid) (by decide)).trans ?_
    rw [if_neg (by decide), if_pos (.inl rfl), cutBefore_append n.noColon, beq_self_eq_true]
  | port port =>
    refine (upstreamNodeConflict_eq n "port".toList (n.text ++ ':' :: (toString port).toList) (by decide)).trans ?_
    rw [if_neg (by decide), if_pos (.inr rfl), cutBefore_append n.noColon, beq_self_eq_true]

/-- The table stays exclusive over every sequence of calls; in particular a whole-node lease
keeps every other owner's node, gpu and port leases off that node. -/
theorem leases_mutually_exclusive {t : Table} (hReach : system.Reachable (fun _ _ => True) t) :
    (∀ l ∈ t, ∀ r ∈ t, l.active = true → r.active = true → l.owner ≠ r.owner →
      resourcesConflict l.resource r.resource = false) ∧
    (∀ n : NodeID, ∀ l ∈ t, ∀ r ∈ t, l.active = true → r.active = true → l.owner ≠ r.owner →
      l.resource = upstreamNodeResource n → ¬ OnNode n r.resource) := by
  have hExcl := exclusive_of_reachable hReach
  refine ⟨hExcl, ?_⟩
  intro n l hl r hr hlActive hrActive hOwners hResource hOn
  have hFree := hExcl l hl r hr hlActive hrActive hOwners
  rw [hResource, resourcesConflict, hOn.conflict] at hFree
  simp at hFree

def twoOwners : List Call :=
  [.acquire ⟨.deployment, "d"⟩ ["upstream-node:a".toList], .acquire ⟨.run, "r"⟩ ["gpu:a:0".toList, "gpu:b:0".toList],
    .acquire ⟨.run, "r"⟩ ["gpu:b:0".toList]]

theorem leases_mutually_exclusive_two_owners : (system.exec [] twoOwners).length = 2 ∧
    ∀ l ∈ system.exec [] twoOwners, ∀ r ∈ system.exec [] twoOwners, l.active = true → r.active = true →
      l.owner ≠ r.owner → resourcesConflict l.resource r.resource = false := by
  have hMay : system.Allowed (fun _ _ => True) [] twoOwners :=
    ⟨⟨trivial, trivial⟩, ⟨trivial, trivial⟩, ⟨trivial, trivial⟩, trivial⟩
  exact ⟨by decide, (leases_mutually_exclusive (.of_allowed rfl hMay)).1⟩

end LocalModelWorks.Runs.Lease
