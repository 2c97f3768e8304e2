import Mathlib.Algebra.Group.Nat.Defs
import Mathlib.Order.Bounds.Basic
import Mathlib.Tactic.Common

/-!
# Clocks of a fixed width

A clock counts modulo a power of two. A product of its value is cut to the
same width, so a later division gives the value back only while the product
fits. The distance between two readings is exact modulo the width.
-/

namespace Lib

/-- A product cut to a width gives its factor back exactly when it was not cut. -/
theorem mul_mod_div_iff {a k m : Nat} (hk : 0 < k) (hm : 0 < m) : a * k % m / k = a ↔ a * k < m := by
  constructor
  · intro h
    have hle : a * k ≤ a * k % m := by
      have hd := Nat.div_mul_le_self (a * k % m) k
      rwa [h] at hd
    exact Nat.lt_of_le_of_lt hle (Nat.mod_lt _ hm)
  · intro h
    rw [Nat.mod_eq_of_lt h, Nat.mul_div_cancel a hk]

/-- The way round a circle from `k` to `r`. -/
theorem gap_eq {m k r : Nat} (hk : k < m) (hr : r < m) :
    (m + r - k) % m = if k ≤ r then r - k else m + r - k := by
  split
  · rw [show m + r - k = (r - k) + m by omega, Nat.add_mod_right, Nat.mod_eq_of_lt (by omega)]
  · rw [Nat.mod_eq_of_lt (by omega)]

/-- The first number from `n` on that is `r` modulo `m`. -/
theorem next_residue (n : Nat) {m r : Nat} (hr : r < m) :
    IsLeast {u | n ≤ u ∧ u % m = r} (n + (m + r - n % m) % m) := by
  have hlt : n % m < m := Nat.mod_lt n (by omega)
  have hn := Nat.div_add_mod n m
  rw [gap_eq hlt hr]
  constructor
  · refine ⟨Nat.le_add_right _ _, ?_⟩
    split
    · rw [show n + (r - n % m) = r + m * (n / m) by omega, Nat.add_mul_mod_self_left, Nat.mod_eq_of_lt hr]
    · rw [show n + (m + r - n % m) = r + m * (n / m + 1) by rw [Nat.mul_add]; omega,
        Nat.add_mul_mod_self_left, Nat.mod_eq_of_lt hr]
  · rintro u ⟨hu, hur⟩
    have hu' := Nat.div_add_mod u m
    have hq : n / m ≤ u / m := Nat.div_le_div_right hu
    have hmul : m * (n / m) ≤ m * (u / m) := Nat.mul_le_mul_left m hq
    split
    · omega
    · -- the quotient of `u` is larger, as its rest is smaller
      have hne : n / m ≠ u / m := by
        intro he
        rw [← he] at hu'
        omega
      have hmul' : m * (n / m + 1) ≤ m * (u / m) := Nat.mul_le_mul_left m (by omega)
      rw [Nat.mul_add] at hmul'
      omega

/-! ## Counting down

A counter of 32 bits starts at `p`, counts down and starts again when it comes
to 0; a `p` of `2 ^ 32` is stored as 0. -/

theorem succ_mod_eq {p : Nat} (hp : 0 < p) (n : Nat) : (n + 1) % p = if n % p + 1 = p then 0 else n % p + 1 := by
  have hlt := Nat.mod_lt n hp
  rw [← Nat.mod_add_mod]
  split
  · next h => rw [h, Nat.mod_self]
  · exact Nat.mod_eq_of_lt (by omega)

theorem int32_ofNat_pred {k : Nat} (hk : 0 < k) : Int32.ofNat k - 1 = Int32.ofNat (k - 1) := by
  obtain ⟨j, rfl⟩ := Nat.exists_eq_add_of_lt hk
  rw [show 0 + j + 1 = j + 1 by omega, Int32.ofNat_add]
  simp

theorem int32_ofNat_eq_zero {k : Nat} (hk : k < 2 ^ 32) : Int32.ofNat k = 0 ↔ k = 0 := by
  constructor
  · intro h
    have h' : (UInt32.ofNat k).toNat = 0 := congrArg (·.toUInt32.toNat) h
    rwa [UInt32.toNat_ofNat', Nat.mod_eq_of_lt hk] at h'
  · rintro rfl
    rfl

theorem countdown_ends {p : Nat} (hp : 0 < p) (hm : p ≤ 2 ^ 32) (n : Nat) :
    Int32.ofNat (p - n % p) - 1 = 0 ↔ (n + 1) % p = 0 := by
  have hlt := Nat.mod_lt n hp
  rw [int32_ofNat_pred (by omega), int32_ofNat_eq_zero (by omega), succ_mod_eq hp]
  split <;> omega

theorem countdown_next {p : Nat} (hp : 0 < p) {n : Nat} (h : (n + 1) % p ≠ 0) :
    Int32.ofNat (p - n % p) - 1 = Int32.ofNat (p - (n + 1) % p) := by
  have hlt := Nat.mod_lt n hp
  rw [succ_mod_eq hp] at h ⊢
  rw [int32_ofNat_pred (by omega)]
  split at h
  · exact absurd rfl h
  · rw [if_neg (by assumption), Nat.sub_sub]

/-! ## Readings -/

/-- A difference from the largest reading counts one less than the clock. -/
theorem elapsed_from_max (s e : UInt32) : 0xffffffff - s + e = e - s - 1 := by
  grind

end Lib
