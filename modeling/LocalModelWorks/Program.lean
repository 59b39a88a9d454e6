import Mathlib.Data.List.Basic

/-!
# Programs with an environment, failures and crashes

A program reads and writes a state, puts questions to an environment, and ends with a
value, with an error or by a crash. The environment sees how many questions came before,
so it can answer the same question differently each time: a statement about every
environment covers everything the outside can do.

`Triple P x Q E` is partial correctness: from a state in `P` the program `x` returns values
and states in `Q`, and where it fails or crashes it leaves a state in `E`.
-/

namespace LocalModelWorks

inductive Exit (ε α : Type)
  | value (a : α)
  | failed (e : ε)
  | crashed
  deriving DecidableEq

structure Outcome (ε σ α : Type) where
  exit : Exit ε α
  asked : Nat
  state : σ

def Outcome.andThen {ε σ α β : Type} (rest : α → Nat → σ → Outcome ε σ β) : Outcome ε σ α → Outcome ε σ β
  | ⟨.value a, n, s⟩ => rest a n s
  | ⟨.failed e, n, s⟩ => ⟨.failed e, n, s⟩
  | ⟨.crashed, n, s⟩ => ⟨.crashed, n, s⟩

def Program (ρ ε σ α : Type) : Type := ρ → Nat → σ → Outcome ε σ α

namespace Program

variable {ρ ε σ α β : Type}

instance : Monad (Program ρ ε σ) where
  pure a := fun _ n s => ⟨.value a, n, s⟩
  bind x f := fun env n s => (x env n s).andThen fun a => f a env

def ask (question : ρ → Nat → α) : Program ρ ε σ α := fun env n s => ⟨.value (question env n), n + 1, s⟩

def state : Program ρ ε σ σ := fun _ n s => ⟨.value s, n, s⟩

def modify (f : σ → σ) : Program ρ ε σ Unit := fun _ n s => ⟨.value (), n, f s⟩

def fail (e : ε) : Program ρ ε σ α := fun _ n s => ⟨.failed e, n, s⟩

def crash : Program ρ ε σ α := fun _ n s => ⟨.crashed, n, s⟩

def attempt {δ : Type} (x : Program ρ ε σ α) : Program ρ δ σ (Except ε α) := fun env n s =>
  match x env n s with
  | ⟨.value a, m, t⟩ => ⟨.value (.ok a), m, t⟩
  | ⟨.failed e, m, t⟩ => ⟨.value (.error e), m, t⟩
  | ⟨.crashed, m, t⟩ => ⟨.crashed, m, t⟩

def fold (step : β → α → Program ρ ε σ β) : List α → β → Program ρ ε σ β
  | [], b => pure b
  | a :: as, b => step b a >>= fold step as

theorem bind_eq_value {x : Program ρ ε σ α} {f : α → Program ρ ε σ β} {env : ρ} {n m : Nat} {s t : σ} {b : β}
    (h : (x >>= f) env n s = ⟨.value b, m, t⟩) :
    ∃ a k r, x env n s = ⟨.value a, k, r⟩ ∧ f a env k r = ⟨.value b, m, t⟩ := by
  change (x env n s).andThen (fun a => f a env) = _ at h
  cases hx : x env n s with
  | mk exit k r =>
    rw [hx] at h
    cases exit with
    | value a => exact ⟨a, k, r, rfl, h⟩
    | failed | crashed => cases h

theorem bind_assoc {γ : Type} (x : Program ρ ε σ α) (f : α → Program ρ ε σ β) (g : β → Program ρ ε σ γ) :
    x >>= f >>= g = x >>= fun a => f a >>= g := by
  funext env n s
  change ((x env n s).andThen _).andThen _ = (x env n s).andThen _
  rcases x env n s with ⟨_ | _ | _, _, _⟩ <;> rfl

end Program

def Outcome.Satisfies {ε σ α : Type} (Q : α → σ → Prop) (E : σ → Prop) : Outcome ε σ α → Prop
  | ⟨.value a, _, s⟩ => Q a s
  | ⟨.failed _, _, s⟩ => E s
  | ⟨.crashed, _, s⟩ => E s

theorem Outcome.Satisfies.weaken {ε σ α : Type} {Q Q' : α → σ → Prop} {E E' : σ → Prop} {o : Outcome ε σ α}
    (h : o.Satisfies Q E) (hPost : ∀ a s, Q a s → Q' a s) (hStop : ∀ s, E s → E' s) : o.Satisfies Q' E' := by
  rcases o with ⟨exit, n, s⟩
  cases exit with
  | value a => exact hPost a s h
  | failed | crashed => exact hStop s h

theorem Outcome.Satisfies.andThen {ε σ α β : Type} {Q : α → σ → Prop} {R : β → σ → Prop} {E : σ → Prop}
    {o : Outcome ε σ α} {rest : α → Nat → σ → Outcome ε σ β} (h : o.Satisfies Q E)
    (hRest : ∀ a n s, Q a s → (rest a n s).Satisfies R E) : (o.andThen rest).Satisfies R E := by
  rcases o with ⟨exit, n, s⟩
  cases exit with
  | value a => exact hRest a n s h
  | failed | crashed => exact h

namespace Program

def Triple (P : σ → Prop) (x : Program ρ ε σ α) (Q : α → σ → Prop) (E : σ → Prop) : Prop :=
  ∀ env n s, P s → (x env n s).Satisfies Q E

def ReadOnly (x : Program ρ ε σ α) : Prop := ∀ s, Triple (· = s) x (fun _ t => t = s) (· = s)

variable {P P' : σ → Prop} {Q Q' : α → σ → Prop} {R : β → σ → Prop} {E E' : σ → Prop} {x : Program ρ ε σ α}

theorem Triple.weaken (h : Triple P' x Q' E') (hPre : ∀ s, P s → P' s) (hPost : ∀ a s, Q' a s → Q a s)
    (hStop : ∀ s, E' s → E s) : Triple P x Q E :=
  fun env n s hs => (h env n s (hPre s hs)).weaken hPost hStop

theorem Triple.pre {R : σ → Prop} (h : Triple R x Q E) (hPre : ∀ s, P s → R s) : Triple P x Q E :=
  h.weaken hPre (fun _ _ => id) fun _ => id

theorem Triple.post {R : α → σ → Prop} (h : Triple P x R E) (hPost : ∀ a s, R a s → Q a s) : Triple P x Q E :=
  h.weaken (fun _ => id) hPost fun _ => id

variable {a : α} {f : α → Program ρ ε σ β} {c : Prop} {y : Program ρ ε σ α} {step : β → α → Program ρ ε σ β}

theorem triple_of_fact {p : Prop} (h : p → Triple P x Q E) : Triple (fun s => p ∧ P s) x Q E :=
  fun env n s hs => h hs.1 env n s hs.2

theorem triple_pure (h : ∀ s, P s → Q a s) : Triple P (pure a : Program ρ ε σ α) Q E := fun _ _ s hs => h s hs

theorem triple_bind (hx : Triple P x Q E) (hf : ∀ a, Triple (Q a) (f a) R E) : Triple P (x >>= f) R E :=
  fun env n s hs => (hx env n s hs).andThen fun a => hf a env

variable {question : ρ → Nat → α}

theorem triple_ask (h : ∀ env n s, P s → Q (question env n) s) : Triple P (ask question : Program ρ ε σ α) Q E :=
  h

theorem triple_state {Q : σ → σ → Prop} (h : ∀ s, P s → Q s s) : Triple P (state : Program ρ ε σ σ) Q E :=
  fun _ _ s hs => h s hs

theorem triple_modify {f : σ → σ} {Q : Unit → σ → Prop} (h : ∀ s, P s → Q () (f s)) :
    Triple P (modify f : Program ρ ε σ Unit) Q E :=
  fun _ _ s hs => h s hs

theorem triple_fail {e : ε} (h : ∀ s, P s → E s) : Triple P (fail e : Program ρ ε σ α) Q E := fun _ _ s hs => h s hs

theorem triple_crash (h : ∀ s, P s → E s) : Triple P (crash : Program ρ ε σ α) Q E := fun _ _ s hs => h s hs

theorem triple_ite [Decidable c] (hThen : c → Triple P x Q E) (hElse : ¬c → Triple P y Q E) :
    Triple P (if c then x else y) Q E := by
  split
  · exact hThen ‹_›
  · exact hElse ‹_›

theorem triple_branch [Decidable c] (hx : Triple P x Q E) (hy : Triple P y Q E) : Triple P (if c then x else y) Q E :=
  triple_ite (fun _ => hx) fun _ => hy

theorem triple_fold {I : List α → β → σ → Prop} (hStep : ∀ b a as, Triple (I (a :: as) b) (step b a) (I as) E) :
    ∀ (as : List α) (b : β), Triple (I as b) (fold step as b) (I []) E
  | [], _ => triple_pure fun _ => id
  | a :: as, b => triple_bind (hStep b a as) fun b' => triple_fold hStep as b'

theorem ReadOnly.triple (h : ReadOnly x) (hStop : ∀ s, P s → E s) : Triple P x (fun _ => P) E := by
  intro env n s hs
  refine (h s env n s rfl).weaken ?_ ?_
  · rintro _ _ rfl
    exact hs
  · rintro _ rfl
    exact hStop _ hs

theorem ReadOnly.then (h : ReadOnly x) (hStop : ∀ s, P s → E s) (hf : ∀ a, Triple P (f a) R E) : Triple P (x >>= f) R E :=
  triple_bind (h.triple hStop) hf

theorem readOnly_pure (a : α) : ReadOnly (pure a : Program ρ ε σ α) := fun _ => triple_pure fun _ => id

theorem readOnly_fail (e : ε) : ReadOnly (fail e : Program ρ ε σ α) := fun _ => triple_fail fun _ => id

theorem readOnly_ask (question : ρ → Nat → α) : ReadOnly (ask question : Program ρ ε σ α) :=
  fun _ => triple_ask fun _ _ _ => id

theorem readOnly_state : ReadOnly (state : Program ρ ε σ σ) := fun _ => triple_state fun _ => id

theorem ReadOnly.bind (hx : ReadOnly x) (hf : ∀ a, ReadOnly (f a)) : ReadOnly (x >>= f) :=
  fun s => triple_bind (hx s) fun a => hf a s

theorem readOnly_ite [Decidable c] (hx : ReadOnly x) (hy : ReadOnly y) : ReadOnly (if c then x else y) :=
  fun s => triple_branch (hx s) (hy s)

theorem readOnly_fold (hStep : ∀ b a, ReadOnly (step b a)) : ∀ (as : List α) (b : β), ReadOnly (fold step as b)
  | [], b => readOnly_pure b
  | a :: as, b => (hStep b a).bind fun b' => readOnly_fold hStep as b'

end Program

def Outcome.Meets {ε σ α : Type} (Q : α → σ → Prop) (F : ε → σ → Prop) (E : σ → Prop) : Outcome ε σ α → Prop
  | ⟨.value a, _, s⟩ => Q a s
  | ⟨.failed e, _, s⟩ => F e s
  | ⟨.crashed, _, s⟩ => E s

namespace Program

/-- Partial correctness in the environments that `A` admits: values in `Q`, errors in `F`, crashes in `E`. -/
def Spec (A : ρ → Prop) (P : σ → Prop) (x : Program ρ ε σ α) (Q : α → σ → Prop) (F : ε → σ → Prop) (E : σ → Prop) :
    Prop :=
  ∀ env, A env → ∀ n s, P s → (x env n s).Meets Q F E

section Spec

variable {A : ρ → Prop} {P P' : σ → Prop} {Q Q' : α → σ → Prop} {R : β → σ → Prop} {F F' : ε → σ → Prop}
  {E E' : σ → Prop} {x : Program ρ ε σ α}

theorem Spec.weaken (h : Spec A P' x Q' F' E') (hPre : ∀ s, P s → P' s) (hPost : ∀ a s, Q' a s → Q a s)
    (hFail : ∀ e s, F' e s → F e s) (hStop : ∀ s, E' s → E s) : Spec A P x Q F E := by
  intro env hA n s hs
  have hMeets := h env hA n s (hPre s hs)
  revert hMeets
  rcases x env n s with ⟨exit, m, t⟩
  intro hMeets
  cases exit with
  | value a => exact hPost a t hMeets
  | failed e => exact hFail e t hMeets
  | crashed => exact hStop t hMeets

theorem Spec.pre (h : Spec A P' x Q F E) (hPre : ∀ s, P s → P' s) : Spec A P x Q F E :=
  h.weaken hPre (fun _ _ => id) (fun _ _ => id) fun _ => id

theorem Spec.post (h : Spec A P x Q' F E) (hPost : ∀ a s, Q' a s → Q a s) : Spec A P x Q F E :=
  h.weaken (fun _ => id) hPost (fun _ _ => id) fun _ => id

theorem spec_of_state (h : ∀ s₀, P s₀ → Spec A (· = s₀) x Q F E) : Spec A P x Q F E :=
  fun env hA n s hs => h s hs env hA n s rfl

theorem spec_of_fact {p : Prop} (h : p → Spec A P x Q F E) : Spec A (fun s => p ∧ P s) x Q F E :=
  fun env hA n s hs => h hs.1 env hA n s hs.2

theorem spec_pure {a : α} (h : ∀ s, P s → Q a s) : Spec A P (pure a : Program ρ ε σ α) Q F E :=
  fun _ _ _ s hs => h s hs

theorem spec_bind {f : α → Program ρ ε σ β} (hx : Spec A P x Q F E) (hf : ∀ a, Spec A (Q a) (f a) R F E) :
    Spec A P (x >>= f) R F E := by
  intro env hA n s hs
  have hMeets := hx env hA n s hs
  change ((x env n s).andThen fun a => f a env).Meets R F E
  revert hMeets
  rcases x env n s with ⟨exit, m, t⟩
  intro hMeets
  cases exit with
  | value a => exact hf a env hA m t hMeets
  | failed | crashed => exact hMeets

theorem spec_ask {question : ρ → Nat → α} (h : ∀ env n s, A env → P s → Q (question env n) s) :
    Spec A P (ask question : Program ρ ε σ α) Q F E :=
  fun env hA n s hs => h env n s hA hs

theorem spec_state {Q : σ → σ → Prop} (h : ∀ s, P s → Q s s) : Spec A P (state : Program ρ ε σ σ) Q F E :=
  fun _ _ _ s hs => h s hs

theorem spec_modify {f : σ → σ} {Q : Unit → σ → Prop} (h : ∀ s, P s → Q () (f s)) :
    Spec A P (modify f : Program ρ ε σ Unit) Q F E :=
  fun _ _ _ s hs => h s hs

theorem spec_fail {e : ε} (h : ∀ s, P s → F e s) : Spec A P (fail e : Program ρ ε σ α) Q F E :=
  fun _ _ _ s hs => h s hs

theorem spec_crash (h : ∀ s, P s → E s) : Spec A P (crash : Program ρ ε σ α) Q F E := fun _ _ _ s hs => h s hs

theorem spec_ite {c : Prop} [Decidable c] {y : Program ρ ε σ α} (hThen : c → Spec A P x Q F E)
    (hElse : ¬c → Spec A P y Q F E) : Spec A P (if c then x else y) Q F E := by
  split
  · exact hThen ‹_›
  · exact hElse ‹_›

theorem spec_attempt {δ : Type} {G : δ → σ → Prop} (h : Spec A P x Q F E) :
    Spec A P (attempt x : Program ρ δ σ (Except ε α))
      (fun r s => match r with | .ok a => Q a s | .error e => F e s) G E := by
  intro env hA n s hs
  have hMeets := h env hA n s hs
  unfold attempt
  revert hMeets
  rcases x env n s with ⟨exit, m, t⟩
  intro hMeets
  cases exit with
  | value | failed | crashed => exact hMeets

end Spec

end Program

end LocalModelWorks
