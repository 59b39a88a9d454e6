import Mathlib.Algebra.Group.Nat.Defs
import Mathlib.Data.List.Lex

/-!
# Time-ordered identifiers

`id.New` and the server's `uuidV7` fill sixteen random bytes and overwrite six of them. The
time is shifted as if it had 36 bits, and the version and the variant stand two bytes early.
-/

namespace LocalModelWorks.Identifier

abbrev Bytes := Fin 16 → UInt8

/-- The bytes of `id.New`, from the random bytes and the time in milliseconds. -/
def new (random : Bytes) (now : Nat) : Bytes := fun i =>
  match i with
  | 0 => (now >>> 28).toUInt8
  | 1 => (now >>> 20).toUInt8
  | 2 => (now >>> 12).toUInt8
  | 3 => (now >>> 4).toUInt8
  | 4 => (now <<< 4).toUInt8 &&& 0x0F ||| 0x70
  | 6 => random 6 &&& 0x3F ||| 0x80
  | i => random i

def uuidV7 : Bytes → Nat → Bytes := new

def hexByte (b : UInt8) : List Char := [Nat.digitChar (b.toNat / 16), Nat.digitChar (b.toNat % 16)]

/-- The groups of bytes as `%x-%x-%x-%x-%x`. -/
def text (b : Bytes) : List Char :=
  hexByte (b 0) ++ (hexByte (b 1) ++ (hexByte (b 2) ++ (hexByte (b 3) ++ '-' :: (hexByte (b 4) ++ (hexByte (b 5) ++
    '-' :: (hexByte (b 6) ++ (hexByte (b 7) ++ '-' :: (hexByte (b 8) ++ (hexByte (b 9) ++ '-' :: (hexByte (b 10) ++
      (hexByte (b 11) ++ (hexByte (b 12) ++ (hexByte (b 13) ++ (hexByte (b 14) ++ hexByte (b 15)))))))))))))))

/-- Version 7: 48 bits of time, the version in the first half of byte 6, the variant on top of byte 8. -/
structure Version7 (b : Bytes) (now : Nat) : Prop where
  time : (b 0).toNat * 2 ^ 40 + (b 1).toNat * 2 ^ 32 + (b 2).toNat * 2 ^ 24 + (b 3).toNat * 2 ^ 16 +
    (b 4).toNat * 2 ^ 8 + (b 5).toNat = now
  version : (b 6).toNat / 16 = 7
  variant : (b 8).toNat / 64 = 2

/-- What an identifier keeps of the time. -/
def kept (now : Nat) : Nat := now / 16 % 2 ^ 32

variable {t₁ t₂ : Nat} (random : Bytes)

theorem not_version7 (now : Nat) : ¬Version7 (new random now) now := by
  have hVariant : ∀ b : Fin 256, (b.val &&& 63 ||| 128) / 16 ≠ 7 := by decide +kernel
  intro h
  have hVer := h.version
  exact hVariant ⟨(random 6).toNat, (random 6).toNat_lt⟩ hVer

theorem digitChar_lt : ∀ i < 16, ∀ j < 16, i < j → Nat.digitChar i < Nat.digitChar j := by decide

theorem hexByte_append_lt {a b : UInt8} {u v : List Char} (hLe : a.toNat ≤ b.toNat)
    (hRest : a.toNat = b.toNat → u < v) : hexByte a ++ u < hexByte b ++ v := by
  have hb := b.toNat_lt
  unfold hexByte
  by_cases hHigh : a.toNat / 16 = b.toNat / 16
  · by_cases hLow : a.toNat % 16 = b.toNat % 16
    · rw [hHigh, hLow]
      exact .cons (.cons (hRest (by omega)))
    · rw [hHigh]
      exact .cons (.rel (digitChar_lt _ (by omega) _ (by omega) (by omega)))
  · exact .rel (digitChar_lt _ (by omega) _ (by omega) (by omega))

theorem toNat_shiftRight (t k : Nat) : (t >>> k).toUInt8.toNat = t / 2 ^ k % 256 := by
  rw [← Nat.shiftRight_eq_div_pow]
  exact UInt8.toNat_ofNat

theorem time_bytes (t : Nat) : (new random t 0).toNat = kept t / 2 ^ 24 ∧
    (new random t 1).toNat = kept t / 2 ^ 16 % 256 ∧ (new random t 2).toNat = kept t / 2 ^ 8 % 256 ∧
    (new random t 3).toNat = kept t % 256 := by
  unfold kept
  exact ⟨(toNat_shiftRight t 28).trans (by omega), (toNat_shiftRight t 20).trans (by omega),
    (toNat_shiftRight t 12).trans (by omega), (toNat_shiftRight t 4).trans (by omega)⟩

/-- The shift leaves nothing of the time in the half byte that is kept for it. -/
theorem version_byte (t : Nat) : new random t 4 = 0x70 := by
  have hZero : (t <<< 4).toUInt8 &&& 0x0F = 0 := by
    refine UInt8.toNat_inj.mp ?_
    have hByte : (t <<< 4).toUInt8.toNat = t * 16 % 256 := by
      rw [← Nat.shiftLeft_eq t 4]
      exact UInt8.toNat_ofNat
    rw [UInt8.toNat_and, hByte]
    have hMask := Nat.and_two_pow_sub_one_eq_mod (t * 16 % 256) 4
    change t * 16 % 256 &&& 15 = 0
    rw [hMask]
    omega
  change (t <<< 4).toUInt8 &&& 0x0F ||| 0x70 = 0x70
  rw [hZero]
  rfl

/-- The four bytes of the time decide before anything else is compared. -/
theorem text_lt (random random' : Bytes) (h : kept t₁ < kept t₂) : text (new random t₁) < text (new random' t₂) := by
  obtain ⟨h0, h1, h2, h3⟩ := time_bytes random t₁
  obtain ⟨h0', h1', h2', h3'⟩ := time_bytes random' t₂
  refine hexByte_append_lt (by omega) fun hFirst => hexByte_append_lt (by omega) fun hSecond => ?_
  refine hexByte_append_lt (by omega) fun hThird => hexByte_append_lt (by omega) fun hFourth => ?_
  omega

theorem text_eq_of_kept (h : kept t₁ = kept t₂) : text (new random t₁) = text (new random t₂) := by
  obtain ⟨h0, h1, h2, h3⟩ := time_bytes random t₁
  obtain ⟨h0', h1', h2', h3'⟩ := time_bytes random t₂
  rw [← h] at h0' h1' h2' h3'
  have hFirst := UInt8.toNat_inj.mp (h0.trans h0'.symm)
  have hSecond := UInt8.toNat_inj.mp (h1.trans h1'.symm)
  have hThird := UInt8.toNat_inj.mp (h2.trans h2'.symm)
  have hFourth := UInt8.toNat_inj.mp (h3.trans h3'.symm)
  rw [text, text, hFirst, hSecond, hThird, hFourth, version_byte, version_byte]
  rfl

/-- The identifiers follow the time exactly where the kept part does, and none has the layout of version 7. -/
theorem identifiers_ordered_iff (t₁ t₂ : Nat) : ((∀ random random', text (new random t₁) < text (new random' t₂) ∧
        text (uuidV7 random t₁) < text (uuidV7 random' t₂)) ↔ kept t₁ < kept t₂) ∧
      ∀ random now, ¬Version7 (new random now) now ∧ ¬Version7 (uuidV7 random now) now := by
  refine ⟨⟨fun h => ?_, fun h random random' => ⟨text_lt random random' h, text_lt random random' h⟩⟩,
    fun random now => ⟨not_version7 random now, not_version7 random now⟩⟩
  have hPre := (h (fun _ => 0) fun _ => 0).1
  rcases Nat.lt_trichotomy (kept t₁) (kept t₂) with hLt | hEq | hGt
  · exact hLt
  · rw [text_eq_of_kept _ hEq] at hPre
    exact absurd hPre (List.lt_irrefl _)
  · exact absurd hPre (List.lt_asymm (text_lt _ _ hGt))

/-- A turn of the kept part: later, yet smaller. -/
theorem identifiers_out_of_order : (2 ^ 36 - 1 : Nat) < 2 ^ 36 ∧ 2 ^ 36 < (2 ^ 48 : Nat) ∧
    text (new (fun _ => 0) (2 ^ 36)) < text (new (fun _ => 0) (2 ^ 36 - 1)) ∧
    ¬Version7 (new (fun _ => 0) (2 ^ 36)) (2 ^ 36) := by
  refine ⟨by decide, by decide, by decide +kernel, fun h => ?_⟩
  exact absurd h.version (by decide)

end LocalModelWorks.Identifier
