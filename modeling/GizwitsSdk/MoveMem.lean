import GizwitsSdk.Lib.Memory

/-!
# The move for ranges that overlap

A move to a higher address starts from the last byte, every other one from the
first, so that a source byte is read before the move reaches it.
-/

namespace GizwitsSdk

open Lib

/-- `*pDstStart-- = *pSrcStart--; Size--;` -/
def moveDown (pDstStart pSrcStart : UInt32) : Nat → Mem → Mem
  | 0, m => m
  | size + 1, m =>
    moveDown (pDstStart - 1) (pSrcStart - 1) size (store8 m pDstStart.toNat (m pSrcStart.toNat))

/-- `*pDst++ = *pSrc++; Size--;` -/
def moveUp (pDst pSrc : UInt32) : Nat → Mem → Mem
  | 0, m => m
  | size + 1, m => moveUp (pDst + 1) (pSrc + 1) size (store8 m pDst.toNat (m pSrc.toNat))

def nstMoveMemOvlap (pDst pSrc : UInt32) (size : UInt16) (m : Mem) : Mem :=
  if pDst > pSrc then
    moveDown (pDst + size.toUInt32 - 1) (pSrc + size.toUInt32 - 1) size.toNat m
  else
    moveUp pDst pSrc size.toNat m

/-! ## Pointer steps -/

theorem toNat_next {p : UInt32} (h : p.toNat + 1 < 4294967296) : (p + 1).toNat = p.toNat + 1 := by
  rw [UInt32.toNat_add]
  exact Nat.mod_eq_of_lt h

theorem toNat_back {p : UInt32} (h : 0 < p.toNat) : (p - 1).toNat = p.toNat - 1 := by
  have hle : (1 : UInt32) ≤ p := UInt32.le_iff_toNat_le.mpr h
  rw [UInt32.toNat_sub_of_le _ _ hle]
  rfl

/-- The pointer to the last byte of a range; the end of the range may be the end of the memory. -/
theorem toNat_last {p : UInt32} {size : UInt16} (hs : 0 < size.toNat) (h : p.toNat + size.toNat ≤ 4294967296) :
    (p + size.toUInt32 - 1).toNat = p.toNat + (size.toNat - 1) := by
  have hz : (1 : UInt32).toNat = 1 := rfl
  have hp := p.toNat_lt
  have hn := size.toNat_lt
  rw [UInt32.toNat_sub, UInt32.toNat_add, UInt16.toNat_toUInt32, hz]
  omega

/-! ## The two loops -/

theorem moveUp_eq {m : Mem} {pDst pSrc : UInt32} {n : Nat} (h : pDst.toNat ≤ pSrc.toNat)
    (hs : pSrc.toNat + n ≤ 4294967296) : moveUp pDst pSrc n m = moved m pDst.toNat pSrc.toNat n := by
  induction n generalizing m pDst pSrc with
  | zero => exact (moved_zero m _ _).symm
  | succ n ih =>
    rw [moveUp, ← moved_first h]
    cases n with
    | zero => rw [moveUp, moved_zero]
    | succ n =>
      have hd' := toNat_next (p := pDst) (by omega)
      have hs' := toNat_next (p := pSrc) (by omega)
      rw [ih (by omega) (by omega), hd', hs']

/-- What is left is the range below the pointers. -/
theorem moveDown_eq {m : Mem} {pDst pSrc : UInt32} {dst src n : Nat} (h : src ≤ dst)
    (hd : 0 < n → pDst.toNat = dst + (n - 1)) (hs : 0 < n → pSrc.toNat = src + (n - 1)) :
    moveDown pDst pSrc n m = moved m dst src n := by
  induction n generalizing m pDst pSrc with
  | zero => exact (moved_zero m _ _).symm
  | succ n ih =>
    have hd := hd (Nat.succ_pos n)
    have hs := hs (Nat.succ_pos n)
    rw [Nat.add_sub_cancel] at hd hs
    rw [moveDown, hd, hs, ← moved_last h]
    refine ih (fun hn => ?_) (fun hn => ?_)
    · rw [toNat_back (by omega)]
      omega
    · rw [toNat_back (by omega)]
      omega

theorem nstMoveMemOvlap_eq {m : Mem} {pDst pSrc : UInt32} {size : UInt16}
    (hs : pSrc.toNat + size.toNat ≤ 4294967296) (hd : pDst.toNat + size.toNat ≤ 4294967296) :
    nstMoveMemOvlap pDst pSrc size m = moved m pDst.toNat pSrc.toNat size.toNat := by
  unfold nstMoveMemOvlap
  by_cases h : pDst > pSrc
  · rw [if_pos h]
    have h' := UInt32.lt_iff_toNat_lt.mp h
    exact moveDown_eq (by omega) (fun hn => toNat_last hn hd) (fun hn => toNat_last hn hs)
  · rw [if_neg h]
    exact moveUp_eq (UInt32.le_iff_toNat_le.mp (UInt32.not_lt.mp h)) hs

/-- The destination holds what the source held, and nothing else changes. -/
theorem nstMoveMemOvlap_moves (m : Mem) (pDst pSrc : UInt32) (size : UInt16)
    (hs : pSrc.toNat + size.toNat ≤ 4294967296) (hd : pDst.toNat + size.toNat ≤ 4294967296) :
    (∀ k < size.toNat, nstMoveMemOvlap pDst pSrc size m (pDst.toNat + k) = m (pSrc.toNat + k)) ∧
      ∀ x, x < pDst.toNat ∨ pDst.toNat + size.toNat ≤ x → nstMoveMemOvlap pDst pSrc size m x = m x := by
  rw [nstMoveMemOvlap_eq hs hd]
  exact ⟨fun k hk => moved_at hk, fun x hx => moved_other hx⟩

/-- Three bytes moved up by one, over two of themselves. -/
theorem nstMoveMemOvlap_moves_overlap :
    (∀ k < 3, nstMoveMemOvlap 11 10 3 (fun x => .ofNat x) (11 + k) = .ofNat (10 + k)) ∧
      ∀ x, x < 11 ∨ 11 + 3 ≤ x → nstMoveMemOvlap 11 10 3 (fun x => .ofNat x) x = .ofNat x :=
  nstMoveMemOvlap_moves (fun x => .ofNat x) 11 10 3 (by decide) (by decide)

end GizwitsSdk
