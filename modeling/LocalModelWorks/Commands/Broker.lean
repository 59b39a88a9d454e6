import LocalModelWorks.Transition
import Mathlib.Data.List.Nodup
import Mathlib.Data.Nat.Basic

/-!
# The broker of command results

A result goes to the waiters of its command and stays in a window of the last deliveries for the
waiters that come late. The window forgets an id with the oldest slot that names it.
-/

namespace LocalModelWorks.Commands

open List Transition
open Function (update)

@[irreducible] def replaySize : Nat := 1024

/-- A waiter is registered while its channel stands in the list of its command. The channel has room for one result;
`sent` and `released` record the calls. -/
structure Waiter (κ ρ : Type) where
  commandID : κ
  registered : Bool
  buffer : Option ρ
  sent : List (κ × ρ)
  released : Bool

/-- The waiters stand in the order of their calls. `delivered` is not part of the broker: the last delivery is first. -/
structure Broker (κ ρ : Type) where
  waiters : List (Waiter κ ρ)
  replay : κ → Option ρ
  order : List κ
  delivered : List (κ × ρ)

variable {κ ρ : Type} [DecidableEq κ]

def evict : List κ → (κ → Option ρ) → List κ × (κ → Option ρ)
  | [], replay => ([], replay)
  | oldest :: order, replay =>
    if replaySize < (oldest :: order).length then evict order (update replay oldest none) else (oldest :: order, replay)

def Waiter.deliver (id : κ) (cr : ρ) (w : Waiter κ ρ) : Waiter κ ρ :=
  if w.registered ∧ w.commandID = id then { w with registered := false, buffer := some cr, sent := (id, cr) :: w.sent }
  else w

namespace Broker

variable (b : Broker κ ρ)

def wait (id : κ) : Broker κ ρ :=
  { b with waiters := b.waiters ++ [match b.replay id with
    | some cr => ⟨id, false, some cr, [(id, cr)], false⟩
    | none => ⟨id, true, none, [], false⟩] }

def removeWaiter (i : Nat) : Broker κ ρ :=
  { b with waiters := b.waiters.modify i fun w => { w with registered := false, released := true } }

def receive (i : Nat) : Broker κ ρ := { b with waiters := b.waiters.modify i fun w => { w with buffer := none } }

/-- The call blocks on a registered channel that is full. -/
def deliver (id : κ) (cr : ρ) : Option (Broker κ ρ) :=
  let (order, replay) := evict (b.order ++ [id]) (update b.replay id (some cr))
  if ∃ w ∈ b.waiters, (w.registered ∧ w.commandID = id) ∧ w.buffer.isSome then none
  else some ⟨b.waiters.map (Waiter.deliver id cr), replay, order, (id, cr) :: b.delivered⟩

end Broker

inductive Event (κ ρ : Type)
  | deliver (id : κ) (cr : ρ)
  | wait (id : κ)
  | release (i : Nat)
  | receive (i : Nat)

def broker : System (Broker κ ρ) (Event κ ρ) where
  init b := b = ⟨[], fun _ => none, [], []⟩
  enabled _ _ := True
  next b
    | .deliver id cr => (b.deliver id cr).getD b
    | .wait id => b.wait id
    | .release i => b.removeWaiter i
    | .receive i => b.receive i

/-- No slot that a delivery evicts has the id of a slot that stays. -/
def EvictsLast (b : Broker κ ρ) : Event κ ρ → Prop
  | .deliver id _ =>
    let excess := (b.order ++ [id]).length - replaySize
    Disjoint ((b.order ++ [id]).take excess) ((b.order ++ [id]).drop excess)
  | _ => True

/-- A waiter gets one result at most, and only of its own command. -/
structure Waiter.Ok (w : Waiter κ ρ) : Prop where
  registered : w.registered = true → w.buffer = none ∧ w.sent = [] ∧ w.released = false
  once : w.sent.length ≤ 1
  own : ∀ p ∈ w.sent, p.1 = w.commandID

structure Routed (b : Broker κ ρ) : Prop where
  waiters : ∀ w ∈ b.waiters, w.Ok
  released : ∀ (i : Nat) w, b.waiters[i]? = some w → w.released = true →
    ∀ e, (broker.next b e).waiters[i]?.map Waiter.sent = some w.sent
  free : ∀ id cr, (b.deliver id cr).isSome

def Late (b : Broker κ ρ) : Prop :=
  ∀ id p, (b.delivered.take replaySize).find? (·.1 = id) = some p →
    (b.wait id).waiters.getLast?.bind Waiter.buffer = some p.2

theorem exists_replaySize : ∃ n, replaySize = n + 1 := ⟨1023, by unfold replaySize; rfl⟩

theorem evict_eq (order : List κ) (replay : κ → Option ρ) :
    evict order replay = (order.drop (order.length - replaySize),
      fun id => if id ∈ order.take (order.length - replaySize) then none else replay id) := by
  induction order generalizing replay with
  | nil => simp [evict]
  | cons oldest order ih =>
    unfold evict
    split
    next hLong =>
      have hOver : (oldest :: order).length - replaySize = (order.length - replaySize) + 1 := by
        rw [length_cons] at hLong ⊢
        omega
      rw [ih, hOver, drop_succ_cons, take_succ_cons]
      congr
      funext id
      by_cases hEq : id = oldest
      · subst hEq
        simp
      · simp [hEq]
    next hShort =>
      rw [Nat.sub_eq_zero_of_le (Nat.not_lt.mp hShort)]
      simp

structure Orderly (b : Broker κ ρ) : Prop where
  waiters : ∀ w ∈ b.waiters, w.Ok
  order : b.order = ((b.delivered.take replaySize).map Prod.fst).reverse

variable {b : Broker κ ρ} {id : κ} {cr : ρ} {guard : Broker κ ρ → Event κ ρ → Prop}

theorem Orderly.deliver_eq (h : Orderly b) (id : κ) (cr : ρ) : b.deliver id cr = some ⟨b.waiters.map (Waiter.deliver id cr),
    fun other => if other ∈ (b.order ++ [id]).take ((b.order ++ [id]).length - replaySize) then none
      else update b.replay id (some cr) other,
    (b.order ++ [id]).drop ((b.order ++ [id]).length - replaySize), (id, cr) :: b.delivered⟩ := by
  unfold Broker.deliver
  rw [evict_eq]
  refine if_neg ?_
  rintro ⟨w, hw, hRegistered, hFull⟩
  rw [((h.waiters w hw).registered hRegistered.1).1] at hFull
  cases hFull

theorem Orderly.next (h : Orderly b) (e : Event κ ρ) : Orderly (broker.next b e) := by
  have hModify : ∀ {f : Waiter κ ρ → Waiter κ ρ} i, (∀ w : Waiter κ ρ, w.Ok → (f w).Ok) →
      ∀ w ∈ b.waiters.modify i f, w.Ok := by
    intro f i hf w hw
    obtain ⟨j, hj⟩ := mem_iff_getElem?.mp hw
    rw [getElem?_modify] at hj
    obtain ⟨v, hv, rfl⟩ := Option.map_eq_some_iff.mp hj
    split
    · exact hf v (h.waiters v (mem_of_getElem? hv))
    · exact h.waiters v (mem_of_getElem? hv)
  cases e with
  | deliver id cr =>
    dsimp only [broker]
    rw [h.deliver_eq, Option.getD_some]
    refine ⟨forall_mem_map.mpr fun w hw => ?_, ?_⟩
    · unfold Waiter.deliver
      split
      next hRegistered =>
        obtain ⟨-, hSent, -⟩ := (h.waiters w hw).registered hRegistered.1
        exact ⟨nofun, by simp [hSent], by simp [hSent, hRegistered.2]⟩
      next => exact h.waiters w hw
    have hPushed : b.order ++ [id] = (((id, cr) :: b.delivered.take replaySize).map Prod.fst).reverse := by
      simp [h.order]
    have hTake : ((id, cr) :: b.delivered).take replaySize =
        ((id, cr) :: b.delivered.take replaySize).take replaySize := by
      obtain ⟨n, hn⟩ := exists_replaySize
      simp [hn, take_take]
    rw [hPushed, drop_reverse, hTake, map_take, length_reverse]
    exact congrArg reverse (take_eq_take_iff.mpr (by omega))
  | wait id =>
    refine ⟨forall_mem_append.mpr ⟨h.waiters, ?_⟩, h.order⟩
    rw [forall_mem_singleton]
    split
    · exact ⟨nofun, Nat.le_refl 1, by simp⟩
    · exact ⟨fun _ => ⟨rfl, rfl, rfl⟩, Nat.zero_le 1, nofun⟩
  | release i => exact ⟨hModify i fun w hw => ⟨nofun, hw.once, hw.own⟩, h.order⟩
  | receive i =>
    exact ⟨hModify i fun w hw => ⟨fun hRegistered => ⟨rfl, (hw.registered hRegistered).2⟩, hw.once, hw.own⟩, h.order⟩

theorem Orderly.routed (h : Orderly b) : Routed b where
  waiters := h.waiters
  free id cr := by
    rw [h.deliver_eq]
    rfl
  released i w hw hReleased e := by
    have hNot : w.registered ≠ true := by
      intro hRegistered
      rw [((h.waiters w (mem_of_getElem? hw)).registered hRegistered).2.2] at hReleased
      cases hReleased
    cases e with
    | deliver id cr =>
      dsimp only [broker]
      rw [h.deliver_eq, Option.getD_some]
      simp [Waiter.deliver, hw, hNot]
    | wait id =>
      have hAt := (List.getElem?_eq_some_iff.mp hw).1
      simp [broker, Broker.wait, getElem?_append_left hAt, hw]
    | release j | receive j =>
      simp [broker, Broker.removeWaiter, Broker.receive, getElem?_modify, hw]
      split <;> rfl

/-- What the window replays, as long as no eviction took a result that a later slot names. -/
structure Window (b : Broker κ ρ) : Prop extends Orderly b where
  replay : ∀ id ∈ b.order, b.replay id = (b.delivered.find? (·.1 = id)).map Prod.snd

theorem Window.next (h : Window b) {e : Event κ ρ} (hLast : EvictsLast b e) : Window (broker.next b e) := by
  cases e with
  | wait | release | receive => exact ⟨h.toOrderly.next _, h.replay⟩
  | deliver id cr =>
    refine ⟨h.toOrderly.next _, ?_⟩
    dsimp only [broker]
    rw [h.deliver_eq, Option.getD_some]
    intro other hOther
    refine (if_neg fun hGone => hLast hGone hOther).trans ?_
    by_cases hEq : other = id
    · simp [hEq]
    · have hOld : other ∈ b.order := by simpa [hEq] using mem_of_mem_drop hOther
      simp [hEq, Ne.symm hEq, h.replay other hOld]

theorem Window.late (h : Window b) : Late b := by
  intro id p hFound
  have hOrder : id ∈ b.order := by
    rw [h.order, mem_reverse]
    exact mem_map.mpr ⟨p, mem_of_find?_eq_some hFound, by simpa using find?_some hFound⟩
  have hReplay := h.replay id hOrder
  rw [← take_append_drop replaySize b.delivered, find?_append, hFound] at hReplay
  simp [Broker.wait, hReplay]

/-- A waiter gets at most one result, of its own command, and none once it is released, and no delivery blocks. A
waiter that comes late gets the last result at once, if no delivery evicted an id that the window named again. -/
theorem results_reach_waiters (hReach : broker.Reachable guard b) :
    Routed b ∧ ((∀ c e, guard c e → EvictsLast c e) → Late b) := by
  have hInit : Window (⟨[], fun _ => none, [], []⟩ : Broker κ ρ) := ⟨⟨nofun, by simp⟩, nofun⟩
  constructor
  · refine (hReach.invariant (I := Orderly) ?_ fun c e h _ _ => h.next e).routed
    rintro _ rfl
    exact hInit.toOrderly
  intro hGuard
  refine (hReach.invariant (I := Window) ?_ fun c e h _ hPasses => h.next (hGuard c e hPasses)).late
  rintro _ rfl
  exact hInit

/-- A waiter gets the first result, and the command is answered again before the next one comes. -/
def answeredTwice : List (Event String Nat) := [.wait "a", .deliver "a" 6, .release 0, .deliver "a" 7]

theorem results_reach_late : let b := broker.exec ⟨[], fun _ => none, [], []⟩ answeredTwice
    Routed b ∧ b.waiters.map Waiter.sent = [[("a", 6)]] ∧ (b.wait "a").waiters.getLast?.bind Waiter.buffer = some 7 := by
  have hRun : broker.Allowed EvictsLast ⟨[], fun _ => none, [], []⟩ answeredTwice := by
    simp [answeredTwice, System.Allowed, broker, EvictsLast, Broker.wait, Broker.removeWaiter, Broker.deliver, evict,
      replaySize]
  obtain ⟨hRouted, hLate⟩ := results_reach_waiters (.of_allowed rfl hRun)
  refine ⟨hRouted, ?_, hLate (fun _ _ h => h) "a" ("a", 7) ?_⟩
  all_goals
    simp [answeredTwice, System.exec, broker, Broker.wait, Broker.removeWaiter, Broker.deliver, Waiter.deliver, evict,
      replaySize]

/-- The delivery of one command 1025 times forgets the result that it has just stored. -/
theorem late_waiter_misses : ∃ b : Broker String Nat, broker.Reachable (fun _ _ => True) b ∧ ¬ Late b := by
  have hReach : ∀ n, ∃ b : Broker String Nat, broker.Reachable (fun _ _ => True) b ∧ Orderly b ∧
      b.delivered = replicate n ("a", 0) := by
    intro n
    induction n with
    | zero => exact ⟨_, ⟨_, rfl, .refl⟩, ⟨nofun, by simp⟩, rfl⟩
    | succ n ih =>
      obtain ⟨b, ⟨start, hInit, hRun⟩, hOrderly, hDelivered⟩ := ih
      refine ⟨_, ⟨start, hInit, hRun.step (.deliver "a" 0) trivial trivial⟩, hOrderly.next _, ?_⟩
      dsimp only [broker]
      rw [hOrderly.deliver_eq, Option.getD_some, hDelivered]
      rfl
  obtain ⟨b, ⟨start, hInit, hRun⟩, hOrderly, hDelivered⟩ := hReach replaySize
  refine ⟨_, ⟨start, hInit, hRun.step (.deliver "a" 1) trivial trivial⟩, fun hLate => ?_⟩
  have hOrder : b.order ++ ["a"] = replicate (replaySize + 1) "a" := by
    rw [hOrderly.order, hDelivered]
    simp [← replicate_succ']
  obtain ⟨n, hn⟩ := exists_replaySize
  have hMiss := hLate "a" ("a", 1)
  dsimp only [broker] at hMiss
  rw [hOrderly.deliver_eq, Option.getD_some, hOrder] at hMiss
  simp [Broker.wait, hn, replicate_succ] at hMiss

end LocalModelWorks.Commands
