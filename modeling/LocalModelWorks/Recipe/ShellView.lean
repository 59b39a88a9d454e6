import LocalModelWorks.MappedDecoder
import Mathlib.Data.List.DropRight

/-!
# Decoded shell texts (`repositorycompiler`)

Here-documents and folded compose commands are decoded before they are parsed, and what is
found in the decoded text is edited at its position in the pinned source.
-/

namespace LocalModelWorks.Recipe.ShellView

open List MappedDecoder

abbrev Bytes := List UInt8

def space : UInt8 := ' '.toUInt8

def newline : UInt8 := '\n'.toUInt8

def dollar : UInt8 := '$'.toUInt8

def backslash : UInt8 := '\\'.toUInt8

def backquote : UInt8 := '`'.toUInt8

variable (content : Bytes) (base : Nat) (quoted : Bool)

def heredocStep (_ : Unit) (value : UInt8) (next : Option UInt8) : Read Unit UInt8 :=
  if quoted || value ≠ backslash then ⟨some value, false, ()⟩
  else if next = some newline then ⟨none, true, ()⟩
  else if next = some backslash ∨ next = some dollar ∨ next = some backquote then ⟨next, true, ()⟩
  else ⟨some value, false, ()⟩

def heredocShell : Bytes × List Nat :=
  (decode (heredocStep quoted) false () content, positions (heredocStep quoted) false () base content)

def composeStep (lineStart : Bool) (value : UInt8) (next : Option UInt8) : Read Bool UInt8 :=
  if lineStart && value = space then ⟨none, false, true⟩
  else if value = newline then ⟨some space, false, true⟩
  else ⟨some value, value = dollar && next = some dollar, false⟩

def composeShell : Bytes × List Nat :=
  ((decode composeStep false true content).rdropWhile (· = space), positions composeStep false true base content)

def mappedPosition (positions : Option (List Nat)) (offset : Nat) : Option Nat :=
  match positions with
  | none => some offset
  | some positions => positions[offset]?

def Plain (b : UInt8) : Prop := b ≠ backslash ∧ b ≠ dollar ∧ b ≠ backquote ∧ b ≠ newline

structure Insertable (text : Bytes) : Prop where
  nonempty : text ≠ []
  plain : ∀ b ∈ text, Plain b
  first : text.head? ≠ some space
  last : text.getLast? ≠ some space

/-- The positions rise, and each boundary of the decoded text, its end included, has one where an insertion into the
source is an insertion into the decoded text. -/
structure Faithful (view : Bytes → Bytes × List Nat) (content : Bytes) (base : Nat) : Prop where
  increasing : (view content).2.Pairwise (· < ·)
  boundary : ∀ before after, (view content).1 = before ++ after → ∃ front back, content = front ++ back ∧
    mappedPosition (some (view content).2) before.length = some (base + front.length) ∧
    ∀ text, Insertable text → (view (front ++ (text ++ back))).1 = before ++ (text ++ after)

theorem passes_heredoc : Passes (heredocStep quoted) () Plain (· ≠ space) where
  enter hPlain _ := by simp [heredocStep, hPlain.1]
  stay hPlain := by simp [heredocStep, hPlain.1]
  peek := by
    intro s b next c hPlain hOne
    simp only [heredocStep] at hOne ⊢
    grind [Plain]
  last := by
    intro s b
    simp [heredocStep]
  resume _ := rfl

theorem passes_compose : Passes composeStep false Plain (· ≠ space) where
  enter hPlain hFirst := by simp [composeStep, hFirst, hPlain.2.1, hPlain.2.2.2]
  stay hPlain := by simp [composeStep, hPlain.2.1, hPlain.2.2.2]
  peek := by
    intro s b next c hPlain hOne
    unfold composeStep at hOne ⊢
    split_ifs at hOne ⊢ with hStart hLine
    · rfl
    · rfl
    · simp_all [hPlain.2.1]
  last := by
    intro s b
    simp only [composeStep]
    split
    · rfl
    · split <;> simp
  resume := by
    intro s b next hOut
    simp only [composeStep] at hOut ⊢
    grind

theorem trim_eq_self_iff {text : Bytes} : text.rdropWhile (· = space) = text ↔ text.getLast? ≠ some space := by
  rw [rdropWhile_eq_self_iff]
  cases text using List.reverseRecOn <;> simp

theorem trim_append {text spaces : Bytes} (hSpaces : ∀ b ∈ spaces, b = space) (hLast : text.getLast? ≠ some space) :
    (text ++ spaces).rdropWhile (· = space) = text := by
  rw [rdropWhile, reverse_append, dropWhile_append_of_pos (by simpa using hSpaces)]
  exact trim_eq_self_iff.mpr hLast

theorem Insertable.last_append {text before after : Bytes} (h : Insertable text) (hLast : (before ++ after).getLast? ≠ some space) :
    (before ++ (text ++ after)).getLast? ≠ some space := by
  rw [getLast?_append, getLast?_append]
  rw [getLast?_append] at hLast
  cases hAfter : after.getLast? with
  | none =>
    rw [Option.none_or, Option.or_of_isSome (by simpa using h.nonempty)]
    exact h.last
  | some b => simpa [hAfter] using hLast

/-- Both views are faithful on every source text. -/
theorem shell_views_faithful :
    (∀ quoted, Faithful (heredocShell · base quoted) content base) ∧ Faithful (composeShell · base) content base := by
  refine ⟨fun quoted => ⟨(positions_increasing ..).1, fun before after hSplit => ?_⟩,
    (positions_increasing ..).1, fun before after hSplit => ?_⟩
  · obtain ⟨front, back, rfl, -, hAt, hPut⟩ := exists_place (passes_heredoc quoted) base (by simp) hSplit
    refine ⟨front, back, rfl, hAt, fun text hText => ?_⟩
    obtain ⟨a, x, rfl⟩ := exists_cons_of_ne_nil hText.nonempty
    exact hPut a x hText.plain (by simpa using hText.first)
  · have hFull : _ ++ rtakeWhile (· = space) _ = decode composeStep false true content := rdropWhile_append_rtakeWhile
    have hLast := trim_eq_self_iff.mp (rdropWhile_idempotent (· = space) (decode composeStep false true content))
    rw [show rdropWhile _ _ = before ++ after from hSplit] at hFull hLast
    rw [append_assoc] at hFull
    obtain ⟨front, back, rfl, -, hAt, hPut⟩ := exists_place passes_compose base (by simp) hFull.symm
    refine ⟨front, back, rfl, hAt, fun text hText => ?_⟩
    obtain ⟨a, x, rfl⟩ := exists_cons_of_ne_nil hText.nonempty
    change rdropWhile _ (decode composeStep false true (front ++ a :: (x ++ back))) = _
    rw [hPut a x hText.plain (by simpa using hText.first)]
    simpa using trim_append (fun b hb => by simpa using mem_rtakeWhile_imp hb) (hText.last_append hLast)

end LocalModelWorks.Recipe.ShellView
