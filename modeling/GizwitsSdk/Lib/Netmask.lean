import Mathlib.Data.Nat.Bitwise
import Mathlib.Tactic.Common

/-!
# Contiguous masks

A mask of ones followed by `k` zeros cuts a word into a network and a host
part. Bitwise, the two parts never meet; as a number, the host part is the
remainder by `2 ^ k`.
-/

namespace GizwitsSdk

/-- The low `k` bits of `m` are zero and the others one. -/
def Contiguous (m : UInt32) (k : Nat) : Prop := k ≤ 32 ∧ m.toNat = 2 ^ 32 - 2 ^ k

theorem u32_ext {x y : UInt32}
    (h : ∀ i, i < 32 → x.toBitVec.getLsbD i = y.toBitVec.getLsbD i) : x = y :=
  UInt32.toBitVec_inj.mp (BitVec.eq_of_getLsbD_eq h)

section
variable {m : UInt32} {k : Nat} (h : Contiguous m k) (n x y : UInt32)
include h

theorem contiguous_pow : 2 ^ k ≤ 2 ^ 32 := Nat.pow_le_pow_right (by decide) h.1

theorem not_mask_toNat : (~~~m).toNat = 2 ^ k - 1 := by
  have hk := contiguous_pow h
  have hsize : UInt32.size = 2 ^ 32 := rfl
  rw [UInt32.toNat_not, h.2, hsize]
  have := Nat.two_pow_pos k
  omega

theorem host_toNat : (x &&& ~~~m).toNat = x.toNat % 2 ^ k := by
  rw [UInt32.toNat_and, not_mask_toNat h, Nat.and_two_pow_sub_one_eq_mod]

theorem host_self (hx : x.toNat < 2 ^ k) : x &&& ~~~m = x := by
  apply UInt32.toNat_inj.mp
  rw [host_toNat h, Nat.mod_eq_of_lt hx]

theorem network_zero (hx : x.toNat < 2 ^ k) : x &&& m = 0 := by
  rw [← host_self h x hx]
  apply u32_ext
  intro i hi
  simp

theorem join_network (hx : x.toNat < 2 ^ k) : ((n &&& m) ||| x) &&& m = n &&& m := by
  have hz := network_zero h x hx
  have : ((n &&& m) ||| x) &&& m = (n &&& m) ||| (x &&& m) := by
    apply u32_ext
    intro i hi
    simp only [UInt32.toBitVec_and, UInt32.toBitVec_or, BitVec.getLsbD_and, BitVec.getLsbD_or]
    cases n.toBitVec.getLsbD i <;> cases m.toBitVec.getLsbD i <;> simp
  rw [this, hz, UInt32.or_zero]

theorem join_host (hx : x.toNat < 2 ^ k) : ((n &&& m) ||| x) &&& ~~~m = x := by
  have hz := host_self h x hx
  have : ((n &&& m) ||| x) &&& ~~~m = x &&& ~~~m := by
    apply u32_ext
    intro i hi
    simp only [UInt32.toBitVec_and, UInt32.toBitVec_or, UInt32.toBitVec_not, BitVec.getLsbD_and,
      BitVec.getLsbD_or, BitVec.getLsbD_not, hi, decide_true, Bool.true_and]
    cases n.toBitVec.getLsbD i <;> cases m.toBitVec.getLsbD i <;> simp
  rw [this, hz]

theorem join_inj (hx : x.toNat < 2 ^ k) (hy : y.toNat < 2 ^ k) :
    (n &&& m) ||| x = (n &&& m) ||| y ↔ x = y := by
  refine ⟨fun he => ?_, fun he => by rw [he]⟩
  rw [← join_host h n x hx, he, join_host h n y hy]

end

theorem join_self (m n : UInt32) : (n &&& m) ||| (n &&& ~~~m) = n := by
  apply u32_ext
  intro i hi
  simp only [UInt32.toBitVec_and, UInt32.toBitVec_or, UInt32.toBitVec_not, BitVec.getLsbD_and,
    BitVec.getLsbD_or, BitVec.getLsbD_not, hi, decide_true, Bool.true_and]
  cases n.toBitVec.getLsbD i <;> cases m.toBitVec.getLsbD i <;> rfl

theorem join_broadcast (m n : UInt32) : (n &&& m) ||| ~~~m = n ||| ~~~m := by
  apply u32_ext
  intro i hi
  simp only [UInt32.toBitVec_and, UInt32.toBitVec_or, UInt32.toBitVec_not, BitVec.getLsbD_and,
    BitVec.getLsbD_or, BitVec.getLsbD_not, hi, decide_true, Bool.true_and]
  cases n.toBitVec.getLsbD i <;> cases m.toBitVec.getLsbD i <;> rfl

end GizwitsSdk
