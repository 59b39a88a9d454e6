import Mathlib.Logic.Function.Basic

/-!
# Guarded runs of an event-driven system

A system is a set of initial states, the events that the environment can deliver in a
state, and the state each event leads to. `Reachable guard` collects the states met by the
runs whose events all pass the guard, so a result about guarded runs says what the system
does as long as the guarded branch is not taken.
-/

namespace LocalModelWorks.Transition

universe u v w

structure System (σ : Type u) (ε : Type v) where
  init : σ → Prop
  enabled : σ → ε → Prop
  next : σ → ε → σ

namespace System

variable {σ : Type u} {ε : Type v} (S : System σ ε)

inductive Runs (guard : σ → ε → Prop) (s : σ) : σ → Prop
  | refl : Runs guard s s
  | step {t : σ} (e : ε) (run : Runs guard s t) (hEnabled : S.enabled t e) (hGuard : guard t e) :
      Runs guard s (S.next t e)

def Reachable (guard : σ → ε → Prop) (s : σ) : Prop := ∃ s₀, S.init s₀ ∧ S.Runs guard s₀ s

variable {S} {guard : σ → ε → Prop}

theorem Runs.trans {s t r : σ} (hFirst : S.Runs guard s t) (hSecond : S.Runs guard t r) : S.Runs guard s r := by
  induction hSecond with
  | refl => exact hFirst
  | step e _ hEnabled hGuard ih => exact .step e ih hEnabled hGuard

theorem Runs.preserves {I : σ → Prop} (hStep : ∀ s e, I s → S.enabled s e → guard s e → I (S.next s e))
    {s t : σ} (hRun : S.Runs guard s t) (hStart : I s) : I t := by
  induction hRun with
  | refl => exact hStart
  | step e _ hEnabled hGuard ih => exact hStep _ e ih hEnabled hGuard

theorem Reachable.invariant {I : σ → Prop} (hInit : ∀ s, S.init s → I s)
    (hStep : ∀ s e, I s → S.enabled s e → guard s e → I (S.next s e))
    {s : σ} (hReach : S.Reachable guard s) : I s := by
  obtain ⟨s₀, h₀, hRun⟩ := hReach
  exact hRun.preserves hStep (hInit s₀ h₀)

variable (S) in
/-- The state after a list of events, delivered in order. -/
def exec (s : σ) : List ε → σ
  | [] => s
  | e :: es => exec (S.next s e) es

variable (S guard) in
def Allowed (s : σ) : List ε → Prop
  | [] => True
  | e :: es => (S.enabled s e ∧ guard s e) ∧ Allowed (S.next s e) es

instance instDecidableAllowed (S : System σ ε) (guard : σ → ε → Prop) [∀ s e, Decidable (S.enabled s e)] [∀ s e, Decidable (guard s e)] :
    ∀ (s : σ) (es : List ε), Decidable (S.Allowed guard s es)
  | _, [] => inferInstanceAs (Decidable True)
  | s, e :: es =>
    have := instDecidableAllowed S guard (S.next s e) es
    inferInstanceAs (Decidable ((S.enabled s e ∧ guard s e) ∧ S.Allowed guard (S.next s e) es))

theorem Runs.of_allowed {s : σ} {es : List ε} (hMay : S.Allowed guard s es) : S.Runs guard s (S.exec s es) := by
  induction es generalizing s with
  | nil => exact .refl
  | cons e es ih =>
    obtain ⟨⟨hEnabled, hGuard⟩, hRest⟩ := hMay
    exact Runs.trans (.step e .refl hEnabled hGuard) (ih hRest)

theorem Reachable.of_allowed {s : σ} {es : List ε} (hInit : S.init s)
    (hMay : S.Allowed guard s es) : S.Reachable guard (S.exec s es) :=
  ⟨s, hInit, Runs.of_allowed hMay⟩

/-- One component moves alone, or a broadcast moves every component that it addresses. -/
inductive FamilyEvent (ι : Type w) (ε : Type v)
  | one (i : ι) (e : ε)
  | all (event : ι → Option ε)

variable (S) in
def family (ι : Type w) [DecidableEq ι] : System (ι → σ) (FamilyEvent ι ε) where
  init f := ∀ i, S.init (f i)
  enabled f
    | .one i e => S.enabled (f i) e
    | .all event => ∀ i e, event i = some e → S.enabled (f i) e
  next f
    | .one i e => Function.update f i (S.next (f i) e)
    | .all event => fun i => match event i with
      | none => f i
      | some e => S.next (f i) e

variable (guard) in
/-- A family event passes the guard when each component that moves passes its own. -/
def familyGuard {ι : Type w} (f : ι → σ) : FamilyEvent ι ε → Prop
  | .one i e => guard (f i) e
  | .all event => ∀ i e, event i = some e → guard (f i) e

theorem Runs.component {ι : Type w} [DecidableEq ι] {f g : ι → σ}
    (hRun : (S.family ι).Runs (familyGuard guard) f g) (i : ι) : S.Runs guard (f i) (g i) := by
  induction hRun with
  | refl => exact .refl
  | @step mid e _ hEnabled hGuard ih =>
    cases e with
    | one j e =>
      change S.Runs guard (f i) (Function.update mid j (S.next (mid j) e) i)
      by_cases hij : i = j
      · subst hij
        rw [Function.update_self]
        exact .step e ih hEnabled hGuard
      · rw [Function.update_of_ne hij]
        exact ih
    | all event =>
      change S.Runs guard (f i) (match event i with | none => mid i | some e => S.next (mid i) e)
      cases hEvent : event i with
      | none => exact ih
      | some e => exact .step e ih (hEnabled i e hEvent) (hGuard i e hEvent)

theorem Reachable.component {ι : Type w} [DecidableEq ι] {f : ι → σ}
    (hReach : (S.family ι).Reachable (familyGuard guard) f) (i : ι) : S.Reachable guard (f i) := by
  obtain ⟨f₀, hInit, hRun⟩ := hReach
  exact ⟨f₀ i, hInit i, hRun.component i⟩

theorem Runs.lift {ι : Type w} [DecidableEq ι] {s t : σ} (hRun : S.Runs guard s t) {f : ι → σ} {i : ι}
    (hAt : f i = s) : (S.family ι).Runs (familyGuard guard) f (Function.update f i t) := by
  induction hRun with
  | refl =>
    rw [← hAt, Function.update_eq_self]
    exact .refl
  | @step mid e _ hEnabled hGuard ih =>
    have hMoved := Runs.step (FamilyEvent.one i e) ih (by simpa [family] using hEnabled)
      (by simpa [familyGuard] using hGuard)
    simpa [family] using hMoved

theorem Reachable.lift {ι : Type w} [DecidableEq ι] {s : σ} {es : List ε} (hInit : S.init s)
    (hMay : S.Allowed guard s es) (i : ι) :
    (S.family ι).Reachable (familyGuard guard) (Function.update (fun _ => s) i (S.exec s es)) :=
  ⟨fun _ => s, fun _ => hInit, (Runs.of_allowed hMay).lift rfl⟩

end System

end LocalModelWorks.Transition
