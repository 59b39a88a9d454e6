import Mathlib.Data.List.Basic

/-!
# Unpadded base64 for URLs

Bytes are written in groups of six bits. The reader skips line breaks, as the decoder of
Go's `RawURLEncoding` does, and ignores the spare bits of the last digit.
-/

namespace LocalModelWorks.Base64

open List

abbrev Text := List Char

def alphabet : Text := "ABCDEFGHIJKLMNOPQRSTUVWXYZabcdefghijklmnopqrstuvwxyz0123456789-_".toList

def digit (n : Nat) : Char := alphabet.getD n 'A'

def digits : List UInt8 → List Nat
  | a :: b :: c :: rest =>
    a.toNat / 4 :: (a.toNat % 4 * 16 + b.toNat / 16) :: (b.toNat % 16 * 4 + c.toNat / 64) :: c.toNat % 64 :: digits rest
  | [a, b] => [a.toNat / 4, a.toNat % 4 * 16 + b.toNat / 16, b.toNat % 16 * 4]
  | [a] => [a.toNat / 4, a.toNat % 4 * 16]
  | [] => []

def bytes : List Nat → Option (List UInt8)
  | p :: q :: r :: s :: rest =>
    (bytes rest).map (.ofNat (p * 4 + q / 16) :: .ofNat (q % 16 * 16 + r / 4) :: .ofNat (r % 4 * 64 + s) :: ·)
  | [p, q, r] => some [.ofNat (p * 4 + q / 16), .ofNat (q % 16 * 16 + r / 4)]
  | [p, q] => some [.ofNat (p * 4 + q / 16)]
  | [_] => none
  | [] => some []

def encode (bytes : List UInt8) : Text := (digits bytes).map digit

def isBreak (c : Char) : Bool := c = '\r' || c = '\n'

def decode (text : Text) : Option (List UInt8) := ((text.filter (!isBreak ·)).mapM (alphabet.idxOf? ·)).bind bytes

variable (xs : List UInt8)

theorem digits_lt : ∀ d ∈ digits xs, d < 64 := by
  fun_induction digits xs with
  | case1 a b c rest ih =>
    simp only [forall_mem_cons]
    have := a.toNat_lt
    have := b.toNat_lt
    have := c.toNat_lt
    exact ⟨by omega, by omega, by omega, by omega, ih⟩
  | case2 a b =>
    have := a.toNat_lt
    have := b.toNat_lt
    simp
    omega
  | case3 a =>
    have := a.toNat_lt
    simp
    omega
  | case4 => simp

theorem bytes_digits : bytes (digits xs) = some xs := by
  have hByte n a (h : n = a.toNat) : UInt8.ofNat n = a := by simp [h]
  fun_induction digits xs with
  | case1 a b c rest ih =>
    have := b.toNat_lt
    have := c.toNat_lt
    rw [bytes, ih, hByte _ a (by omega), hByte _ b (by omega), hByte _ c (by omega)]
    rfl
  | case2 a b =>
    have := b.toNat_lt
    rw [bytes, hByte _ a (by omega), hByte _ b (by omega)]
  | case3 a => rw [bytes, hByte _ a (by omega)]
  | case4 => rfl

theorem digit_read : ∀ d < 64, isBreak (digit d) = false ∧ alphabet.idxOf? (digit d) = some d := by decide +kernel

theorem decode_encode : decode (encode xs) = some xs := by
  have hRead (ds : List Nat) (hLt : ∀ d ∈ ds, d < 64) :
      ((ds.map digit).filter (!isBreak ·)).mapM (alphabet.idxOf? ·) = some ds := by
    induction ds with
    | nil => rfl
    | cons d ds ih =>
      obtain ⟨hBreak, hIdx⟩ := digit_read d (hLt d mem_cons_self)
      rw [map_cons, filter_cons_of_pos (by rw [hBreak]; rfl), mapM_cons, hIdx,
        ih fun e he => hLt e (mem_cons_of_mem _ he)]
      rfl
  rw [decode, encode, hRead _ (digits_lt xs)]
  exact bytes_digits xs

end LocalModelWorks.Base64
