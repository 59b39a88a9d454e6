import Mathlib.Data.List.Basic

/-!
# Decoders that keep positions

A decoder reads a text from left to right with one element of lookahead. It writes or drops
an element, with or without the next one, and notes where each element it writes began.
-/

namespace LocalModelWorks.MappedDecoder

open List

variable {σ β : Type}

structure Read (σ β : Type) where
  out : Option β
  both : Bool
  state : σ

variable (step : σ → β → Option β → Read σ β)

def decode (skip : Bool) (s : σ) : List β → List β
  | [] => []
  | b :: rest =>
    if skip then decode false s rest
    else
      let read := step s b rest.head?
      read.out.toList ++ decode read.both read.state rest

/-- The positions of the decoded elements, and of the end of the source. -/
def positions (skip : Bool) (s : σ) (pos : Nat) : List β → List Nat
  | [] => [pos]
  | b :: rest =>
    if skip then positions false s (pos + 1) rest
    else
      let read := step s b rest.head?
      (read.out.map fun _ => pos).toList ++ positions read.both read.state (pos + 1) rest

/-- Plain elements are written as they are: a text of them can be put anywhere if it starts well. -/
structure Passes (inside : σ) (plain first : β → Prop) : Prop where
  enter : ∀ {s b next}, plain b → first b → step s b next = ⟨some b, false, inside⟩
  stay : ∀ {b next}, plain b → step inside b next = ⟨some b, false, inside⟩
  peek : ∀ {s b next c}, plain c → (step s b next).both = false → step s b (some c) = step s b next
  last : ∀ {s b}, (step s b none).both = false
  resume : ∀ {s b next}, (step s b next).out ≠ none → step inside b next = step s b next

variable {step} {inside s : σ} {plain first : β → Prop} {skip : Bool} {x content before after : List β} {a : β}

theorem positions_increasing (content : List β) (skip : Bool) (s : σ) (pos : Nat) :
    (positions step skip s pos content).Pairwise (· < ·) ∧ ∀ p ∈ positions step skip s pos content, pos ≤ p := by
  induction content generalizing skip s pos with
  | nil => simp [positions]
  | cons b rest ih =>
    have hWeak skip s := (ih skip s (pos + 1)).imp_right fun h p hp => Nat.le_of_succ_le (h p hp)
    rw [positions]
    split
    · exact hWeak _ _
    dsimp only
    cases (step s b rest.head?).out with
    | none => exact hWeak _ _
    | some c =>
      refine ⟨pairwise_cons.mpr ⟨(ih _ _ _).2, (hWeak _ _).1⟩, ?_⟩
      exact forall_mem_cons.mpr ⟨Nat.le_refl pos, (hWeak _ _).2⟩

section

variable (h : Passes step inside plain first)
include h

theorem decode_pass (hx : ∀ b ∈ x, plain b) :
    decode step false inside (x ++ content) = x ++ decode step false inside content := by
  induction x with
  | nil => rfl
  | cons b x ih =>
    obtain ⟨hb, hx⟩ := forall_mem_cons.mp hx
    rw [cons_append, decode, h.stay hb]
    exact congrArg (b :: ·) (ih hx)

theorem decode_enter (hx : ∀ b ∈ a :: x, plain b) (hFirst : first a) :
    decode step false s (a :: (x ++ content)) = a :: (x ++ decode step false inside content) := by
  obtain ⟨ha, hx⟩ := forall_mem_cons.mp hx
  rw [decode, h.enter ha hFirst]
  exact congrArg (a :: ·) (decode_pass h hx)

/-- Every boundary of the decoded text has a place in the source where a plain text can be put. -/
theorem exists_place (pos : Nat) (hSkip : skip = true → content ≠ [])
    (hSplit : decode step skip s content = before ++ after) :
    ∃ front back, content = front ++ back ∧ (skip = true → front ≠ []) ∧
      (positions step skip s pos content)[before.length]? = some (pos + front.length) ∧
      ∀ a x, (∀ b ∈ a :: x, plain b) → first a →
        decode step skip s (front ++ a :: (x ++ back)) = before ++ a :: (x ++ after) := by
  induction content generalizing skip s pos before with
  | nil =>
    obtain ⟨rfl, rfl⟩ := append_eq_nil_iff.mp hSplit.symm
    obtain rfl : skip = false := Bool.eq_false_iff.mpr fun hTrue => hSkip hTrue rfl
    exact ⟨[], [], rfl, by simp, rfl, fun a x hx hFirst => decode_enter h hx hFirst⟩
  | cons b rest ih =>
    have hNext (front : List β) : pos + (b :: front).length = pos + 1 + front.length := by simp; omega
    cases skip with
    | true =>
      obtain ⟨front, back, rfl, -, hAt, hPut⟩ := @ih s false before (pos + 1) (by simp) hSplit
      exact ⟨b :: front, back, rfl, fun _ => cons_ne_nil _ _, hNext front ▸ hAt, hPut⟩
    | false =>
      by_cases hHere : before = [] ∧ (step s b rest.head?).out ≠ none
      · obtain ⟨rfl, hOut⟩ := hHere
        refine ⟨[], b :: rest, rfl, by simp, ?_, fun a x hx hFirst => ?_⟩
        · obtain ⟨c, hc⟩ := Option.ne_none_iff_exists'.mp hOut
          simp [positions, hc]
        · rw [nil_append, decode_enter h hx hFirst, decode, h.resume hOut]
          exact congrArg (fun t => a :: (x ++ t)) hSplit
      obtain ⟨later, rfl, hLater⟩ : ∃ later, before = (step s b rest.head?).out.toList ++ later ∧
          decode step (step s b rest.head?).both (step s b rest.head?).state rest = later ++ after := by
        change (step s b rest.head?).out.toList ++ _ = _ at hSplit
        cases hOut : (step s b rest.head?).out with
        | none => exact ⟨before, rfl, by rwa [hOut] at hSplit⟩
        | some c =>
          cases before with
          | nil => exact absurd ⟨rfl, by simp [hOut]⟩ hHere
          | cons d later =>
            rw [hOut] at hSplit
            obtain ⟨rfl, hLater⟩ := List.cons.inj hSplit
            exact ⟨later, rfl, hLater⟩
      obtain ⟨front, back, rfl, hFront, hAt, hPut⟩ :=
        @ih _ _ later (pos + 1) (fun hTrue hNil => by simp [hNil, h.last] at hTrue) hLater
      refine ⟨b :: front, back, rfl, by simp, ?_, fun a x hx hFirst => ?_⟩
      · rw [hNext, ← hAt]
        change (((step s b (front ++ back).head?).out.map _).toList ++ _)[_]? = _
        cases (step s b (front ++ back).head?).out with
        | none | some => rfl
      · have hRead : step s b (front ++ a :: (x ++ back)).head? = step s b (front ++ back).head? := by
          cases front with
          | nil => exact h.peek (hx a mem_cons_self) (Bool.eq_false_iff.mpr fun hTrue => hFront hTrue rfl)
          | cons c front => rfl
        rw [cons_append, decode, hRead, append_assoc, ← hPut a x hx hFirst]
        rfl

end

end LocalModelWorks.MappedDecoder
