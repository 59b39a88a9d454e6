import Mathlib.Data.List.Sort
import LocalModelWorks.Transition
import LocalModelWorks.Shell

/-!
# The event bus (`bus.go`)

`Publish` appends an event to the table, which gives it its id, and then, under the lock,
offers it to every registered channel.
-/

namespace LocalModelWorks.Events

open List
open Shell (Text)
open Transition

structure Event where
  id : Nat
  type : Text
  nodeID : Text
  payload : Text
  deriving DecidableEq

inductive Stage
  | registered
  | replaying (rest : List Event)
  | returned
  | cancelled
  deriving DecidableEq

structure Subscriber where
  after : Int
  stage : Stage
  channel : List Event
  received : List Event
  rows : List Event
  live : List Event
  queried : Option Nat
  deriving DecidableEq

structure Bus where
  events : List Event
  lastID : Nat
  pending : List Event
  subs : List Subscriber
  deriving DecidableEq

def channelSize : Nat := 1024

def replayLimit : Nat := 500

def Subscriber.new (after : Int) : Subscriber := ⟨after, .registered, [], [], [], [], none⟩

section

variable (s : Subscriber)

def Subscriber.since : Int := max s.after 0

def Subscriber.offer (e : Event) : Subscriber :=
  if s.channel.length < channelSize then { s with channel := s.channel ++ [e] } else s

def Subscriber.fan (e : Event) : Subscriber :=
  if s.stage = .cancelled then s else { s.offer e with live := s.live ++ [e] }

variable (events : List Event)

def listEventsSince (after : Int) (limit : Nat) : List Event :=
  (events.filter fun e => after < e.id).take limit

def Subscriber.query (ok : Bool) : Subscriber :=
  if ok then
    let rows := listEventsSince events s.since replayLimit
    { s with stage := .replaying rows, rows := rows, queried := some events.length }
  else { s with stage := .replaying [] }

def Subscriber.replay : Subscriber :=
  match s.stage with
  | .replaying (e :: rest) => { s.offer e with stage := .replaying rest }
  | .replaying [] => { s with stage := .returned }
  | .registered | .returned | .cancelled => s

def Subscriber.receive : Subscriber :=
  match s.channel with
  | [] => s
  | e :: rest => { s with channel := rest, received := s.received ++ [e] }

def Subscriber.cancel : Subscriber := { s with stage := .cancelled }

end

inductive Step
  | append (type nodeID payload : Text)
  | fanOut (e : Event)
  | register (after : Int)
  | query (i : Nat) (ok : Bool)
  | replay (i : Nat)
  | receive (i : Nat)
  | cancel (i : Nat)
  deriving DecidableEq

def Bus.next (b : Bus) : Step → Bus
  | .append type nodeID payload =>
    let e : Event := ⟨b.lastID + 1, type, nodeID, payload⟩
    { b with events := b.events ++ [e], lastID := b.lastID + 1, pending := b.pending ++ [e] }
  | .fanOut e => { b with pending := b.pending.erase e, subs := b.subs.map (·.fan e) }
  | .register after => { b with subs := b.subs ++ [Subscriber.new after] }
  | .query i ok => { b with subs := b.subs.modify i (·.query b.events ok) }
  | .replay i => { b with subs := b.subs.modify i Subscriber.replay }
  | .receive i => { b with subs := b.subs.modify i Subscriber.receive }
  | .cancel i => { b with subs := b.subs.modify i Subscriber.cancel }

def Stage.isReplaying : Stage → Bool
  | .replaying _ => true
  | .registered | .returned | .cancelled => false

def Stage.open : Stage → Bool
  | .returned | .cancelled => true
  | .registered | .replaying _ => false

def Bus.enabled (b : Bus) : Step → Bool
  | .append _ _ _ | .register _ => true
  | .fanOut e => e ∈ b.pending
  | .query i _ => (b.subs[i]?).any fun s => s.stage = .registered
  | .replay i => (b.subs[i]?).any fun s => s.stage.isReplaying
  | .receive i => (b.subs[i]?).any fun s => s.stage.open && s.channel ≠ []
  | .cancel i => (b.subs[i]?).any fun s => s.stage = .returned

structure Bus.Started (b : Bus) : Prop where
  ordered : b.events.Pairwise fun d e => d.id < e.id
  positive : ∀ e ∈ b.events, 0 < e.id
  last : ∀ e ∈ b.events, e.id ≤ b.lastID
  pending : b.pending = []
  subs : b.subs = []

def system : System Bus Step where
  init := Bus.Started
  enabled b e := b.enabled e = true
  next := Bus.next

structure Tabled (b : Bus) : Prop where
  ordered : b.events.Pairwise fun d e => d.id < e.id
  positive : ∀ e ∈ b.events, 0 < e.id
  last : ∀ e ∈ b.events, e.id ≤ b.lastID
  stored : b.pending ⊆ b.events

variable {b : Bus} {s s' : Subscriber} {i : Nat} {e : Event}

theorem Tabled.append (h : Tabled b) (hID : e.id = b.lastID + 1) :
    Tabled { b with events := b.events ++ [e], lastID := b.lastID + 1, pending := b.pending ++ [e] } where
  ordered := by
    refine pairwise_append.mpr ⟨h.ordered, pairwise_singleton _ _, ?_⟩
    intro d hd e' he'
    rw [mem_singleton.mp he', hID]
    exact Nat.lt_succ_of_le (h.last d hd)
  positive := by
    simp only [mem_append, mem_singleton]
    rintro d (hd | rfl)
    · exact h.positive d hd
    · omega
  last := by
    simp only [mem_append, mem_singleton]
    rintro d (hd | rfl)
    · exact Nat.le_succ_of_le (h.last d hd)
    · exact Nat.le_of_eq hID
  stored := append_subset.mpr ⟨fun d hd => mem_append_left _ (h.stored hd), subset_append_right _ _⟩

theorem Tabled.next (h : Tabled b) (st : Step) : Tabled (b.next st) := by
  cases st with
  | append type nodeID payload => exact h.append rfl
  | fanOut e => exact { h with stored := fun d hd => h.stored (mem_of_mem_erase hd) }
  | register | query | replay | receive | cancel => exact { h with }

theorem Bus.Started.tabled (h : b.Started) : Tabled b :=
  { h with stored := by simp [h.pending] }

def Bus.act (b : Bus) (i : Nat) (s : Subscriber) : Step → Subscriber
  | .append _ _ _ | .register _ => s
  | .fanOut e => s.fan e
  | .query j ok => if j = i then s.query b.events ok else s
  | .replay j => if j = i then s.replay else s
  | .receive j => if j = i then s.receive else s
  | .cancel j => if j = i then s.cancel else s

theorem getElem?_modify_some {f : Subscriber → Subscriber} {j : Nat} {subs : List Subscriber}
    (h : (subs.modify j f)[i]? = some s') : ∃ s, subs[i]? = some s ∧ s' = if j = i then f s else s := by
  rw [getElem?_modify] at h
  obtain ⟨s, hs, rfl⟩ := Option.map_eq_some_iff.mp h
  refine ⟨s, hs, ?_⟩
  split <;> rfl

theorem sub_next {st : Step} (h : (b.next st).subs[i]? = some s') : (∃ s, b.subs[i]? = some s ∧ s' = b.act i s st) ∨
      ∃ after, st = .register after ∧ b.subs.length = i ∧ s' = Subscriber.new after := by
  cases st with
  | append type nodeID payload => exact .inl ⟨s', h, rfl⟩
  | fanOut e =>
    change (b.subs.map (·.fan e))[i]? = some s' at h
    rw [getElem?_map] at h
    obtain ⟨s, hs, rfl⟩ := Option.map_eq_some_iff.mp h
    exact .inl ⟨s, hs, rfl⟩
  | register after =>
    change (b.subs ++ [Subscriber.new after])[i]? = some s' at h
    rcases Nat.lt_trichotomy i b.subs.length with hLt | rfl | hGt
    · rw [getElem?_append_left hLt] at h
      exact .inl ⟨s', h, rfl⟩
    · rw [getElem?_concat_length] at h
      exact .inr ⟨after, rfl, rfl, (Option.some.inj h).symm⟩
    · rw [getElem?_eq_none (by simpa using Nat.succ_le_of_lt hGt)] at h
      cases h
  | query | replay | receive | cancel => exact .inl (getElem?_modify_some h)

structure Preserved (guard : Bus → Step → Prop) (i : Nat) (Holds : List Event → List Event → Subscriber → Prop) : Prop where
  new : ∀ {b after}, Tabled b → guard b (.register after) → b.subs.length = i →
    Holds b.events b.pending (Subscriber.new after)
  append : ∀ {b s} {e : Event}, Tabled b → guard b (.append e.type e.nodeID e.payload) → b.subs[i]? = some s →
    e.id = b.lastID + 1 → Holds b.events b.pending s → Holds (b.events ++ [e]) (b.pending ++ [e]) s
  fan : ∀ {b s e}, Tabled b → guard b (.fanOut e) → b.subs[i]? = some s → e ∈ b.pending →
    Holds b.events b.pending s → Holds b.events (b.pending.erase e) (s.fan e)
  query : ∀ {b s ok}, Tabled b → guard b (.query i ok) → b.subs[i]? = some s → s.stage = .registered →
    Holds b.events b.pending s → Holds b.events b.pending (s.query b.events ok)
  replay : ∀ {b s rest}, Tabled b → guard b (.replay i) → b.subs[i]? = some s → s.stage = .replaying rest →
    Holds b.events b.pending s → Holds b.events b.pending s.replay
  receive : ∀ {b s}, Tabled b → b.subs[i]? = some s → s.stage.open = true →
    Holds b.events b.pending s → Holds b.events b.pending s.receive
  cancel : ∀ {b s}, Tabled b → b.subs[i]? = some s → s.stage = .returned →
    Holds b.events b.pending s → Holds b.events b.pending s.cancel

variable {Holds : List Event → List Event → Subscriber → Prop} {guard : Bus → Step → Prop}

theorem Preserved.act
    (h : Preserved guard i Holds) {st : Step} (hTable : Tabled b) (hOn : b.enabled st = true) (hGuard : guard b st)
    (hSub : b.subs[i]? = some s) (hs : Holds b.events b.pending s) :
    Holds (b.next st).events (b.next st).pending (b.act i s st) := by
  cases st with
  | append type nodeID payload =>
    exact h.append hTable hGuard hSub rfl hs
  | fanOut e => exact h.fan hTable hGuard hSub (by simpa [Bus.enabled] using hOn) hs
  | register after => exact hs
  | query j ok =>
    change Holds b.events b.pending (if j = i then s.query b.events ok else s)
    split
    · next hj =>
      subst hj
      exact h.query hTable hGuard hSub (by simpa [Bus.enabled, hSub] using hOn) hs
    · exact hs
  | replay j =>
    change Holds b.events b.pending (if j = i then s.replay else s)
    split
    · next hj =>
      subst hj
      have hReplaying : s.stage.isReplaying = true := by simpa [Bus.enabled, hSub] using hOn
      cases hStage : s.stage with
      | replaying rest => exact h.replay hTable hGuard hSub hStage hs
      | _ => rw [hStage] at hReplaying; cases hReplaying
    · exact hs
  | receive j =>
    change Holds b.events b.pending (if j = i then s.receive else s)
    split
    · next hj =>
      subst hj
      have hOpen : s.stage.open = true ∧ s.channel ≠ [] := by simpa [Bus.enabled, hSub] using hOn
      exact h.receive hTable hSub hOpen.1 hs
    · exact hs
  | cancel j =>
    change Holds b.events b.pending (if j = i then s.cancel else s)
    split
    · next hj =>
      subst hj
      exact h.cancel hTable hSub (by simpa [Bus.enabled, hSub] using hOn) hs
    · exact hs

theorem Preserved.holds (h : Preserved guard i Holds) (hReach : system.Reachable guard b) :
    Tabled b ∧ ∀ s, b.subs[i]? = some s → Holds b.events b.pending s := by
  refine hReach.invariant (I := fun b => Tabled b ∧ ∀ s, b.subs[i]? = some s → Holds b.events b.pending s) ?_ ?_
  · intro b hStarted
    refine ⟨hStarted.tabled, fun s hs => ?_⟩
    rw [hStarted.subs] at hs
    cases hs
  rintro b st ⟨hTable, hHolds⟩ hOn hGuard
  refine ⟨hTable.next st, fun s' hs' => ?_⟩
  rcases sub_next hs' with ⟨s, hs, rfl⟩ | ⟨after, rfl, hLen, rfl⟩
  · exact h.act hTable hOn hGuard hs (hHolds s hs)
  · change Holds b.events b.pending (Subscriber.new after)
    exact h.new hTable hGuard hLen

end LocalModelWorks.Events
