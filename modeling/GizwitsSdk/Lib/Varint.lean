import Mathlib.Tactic.Common

/-!
# Base-128 numbers

A number is written low digits first, seven bits a byte, the top bit set on
every byte but the last.
-/

namespace Lib

def varint (n : Nat) : List UInt8 :=
  if n < 128 then [.ofNat n] else .ofNat (n % 128 + 128) :: varint (n / 128)

theorem varint_one {n : Nat} (h : n < 128) : varint n = [.ofNat n] := by
  rw [varint, if_pos h]

theorem varint_two {n : Nat} (h : 128 ≤ n) (h' : n < 16384) :
    varint n = [.ofNat (n % 128 + 128), .ofNat (n / 128)] := by
  rw [varint, if_neg (by omega), varint_one (by omega)]

theorem varint_length {n : Nat} (h : n < 16384) : (varint n).length = if n ≤ 127 then 1 else 2 := by
  by_cases h1 : n ≤ 127
  · rw [if_pos h1, varint_one (by omega)]; rfl
  · rw [if_neg h1, varint_two (by omega) h]; rfl

theorem varint_length_le {n : Nat} (h : n < 16384) : (varint n).length ≤ 2 := by
  rw [varint_length h]
  split
  · exact Nat.le_succ 1
  · exact Nat.le_refl 2

theorem low7_toNat (b : UInt8) : (b &&& 127).toNat = b.toNat % 128 := by
  rw [UInt8.toNat_and]
  exact Nat.and_two_pow_sub_one_eq_mod b.toNat 7

theorem and_128 : ∀ n < 256, n &&& 128 = 128 * (n / 128) := by decide +kernel

theorem top_bit_toNat (b : UInt8) : (b &&& 128).toNat = 128 * (b.toNat / 128) := by
  rw [UInt8.toNat_and]
  exact and_128 b.toNat b.toNat_lt

theorem top_bit_ne (b : UInt8) : b &&& 128 ≠ 0 ↔ 128 ≤ b.toNat := by
  have h := top_bit_toNat b
  rw [Ne, ← UInt8.toNat_inj, h]
  show ¬ _ = 0 ↔ _
  omega

theorem top_bit_eq (b : UInt8) : b &&& 128 = 128 ↔ 128 ≤ b.toNat := by
  have h := top_bit_toNat b
  have hb := b.toNat_lt
  rw [← UInt8.toNat_inj, h]
  show _ = 128 ↔ _
  omega

theorem ofNat_toNat_of_lt {n : Nat} (h : n < 256) : (UInt8.ofNat n).toNat = n := by
  rw [UInt8.toNat_ofNat']; omega

def readVarint : List UInt8 → Option (Nat × List UInt8)
  | [] => none
  | b :: rest =>
    if b.toNat < 128 then some (b.toNat, rest)
    else (readVarint rest).map fun r => (b.toNat - 128 + 128 * r.1, r.2)

theorem readVarint_varint (n : Nat) (rest : List UInt8) : readVarint (varint n ++ rest) = some (n, rest) := by
  induction n using Nat.strongRecOn with
  | ind n ih =>
    by_cases h : n < 128
    · rw [varint_one h, List.singleton_append, readVarint, ofNat_toNat_of_lt (by omega), if_pos h]
    · have hb := ofNat_toNat_of_lt (n := n % 128 + 128) (by omega)
      rw [varint, if_neg h, List.cons_append, readVarint, hb, if_neg (by omega), ih (n / 128) (by omega),
        Option.map_some]
      congr 2
      omega

theorem or_80 (b : UInt8) (h : b.toNat < 128) : b ||| 0x80 = .ofNat (b.toNat + 128) := by
  have key : ∀ k < 128, k ||| 128 = k + 128 := by decide
  rw [← UInt8.toNat_inj, UInt8.toNat_or, ofNat_toNat_of_lt (by omega)]
  exact key _ h

end Lib
