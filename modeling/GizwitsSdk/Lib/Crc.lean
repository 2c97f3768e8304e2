import Mathlib.Tactic.Common

/-!
# Reflected CRCs and linearity

A map of words that keeps exclusive or is known from the words with one bit. The
division steps of a reflected CRC keep it, and so does the checksum of a string.
-/

namespace Lib

section
variable {m n k : Nat}

/-! ## Maps that keep exclusive or -/

def XorLinear (f : BitVec m → BitVec n) : Prop := ∀ a b, f (a ^^^ b) = f a ^^^ f b

def XorLinear₂ (f : BitVec m → BitVec k → BitVec n) : Prop :=
  ∀ a a' b b', f (a ^^^ a') (b ^^^ b') = f a b ^^^ f a' b'

theorem XorLinear.zero {f : BitVec m → BitVec n} (hf : XorLinear f) : f 0#m = 0#n := by
  have h := hf 0#m 0#m
  rwa [BitVec.xor_self, BitVec.xor_self] at h

theorem XorLinear.iterate {f : BitVec m → BitVec m} (hf : XorLinear f) (i : Nat) : XorLinear (Nat.repeat f i) := by
  induction i with
  | zero => exact fun _ _ => rfl
  | succ i ih =>
    intro a b
    rw [Nat.repeat, ih a b, hf]
    rfl

/-- Without its bit at `i` a word has bits below `i` only, if it had none above. -/
theorem clear_bit {v : BitVec m} {i : Nat} (hi : i < m) (hb : v.getLsbD i = true)
    (hv : ∀ j, i + 1 ≤ j → v.getLsbD j = false) :
    ∀ j, i ≤ j → (v ^^^ BitVec.twoPow m i).getLsbD j = false := by
  intro j hj
  rw [BitVec.getLsbD_xor, BitVec.getLsbD_twoPow]
  rcases Nat.eq_or_lt_of_le hj with rfl | hlt
  · simp [hb, hi]
  · simp [hv j hlt, Nat.ne_of_lt hlt]

theorem XorLinear.ext {f g : BitVec m → BitVec n} (hf : XorLinear f) (hg : XorLinear g)
    (h : ∀ i < m, f (BitVec.twoPow m i) = g (BitVec.twoPow m i)) (v : BitVec m) : f v = g v := by
  suffices hlow : ∀ i ≤ m, ∀ v : BitVec m, (∀ j, i ≤ j → v.getLsbD j = false) → f v = g v from
    hlow m (Nat.le_refl m) v fun j hj => BitVec.getLsbD_of_ge v j hj
  intro i
  induction i with
  | zero =>
    intro _ v hv
    have hz : v = 0#m := BitVec.eq_of_getLsbD_eq fun j _ => by simp [hv j (Nat.zero_le j)]
    rw [hz, hf.zero, hg.zero]
  | succ i ih =>
    intro hi v hv
    by_cases hb : v.getLsbD i = true
    · have hsplit : v = (v ^^^ BitVec.twoPow m i) ^^^ BitVec.twoPow m i := by
        rw [BitVec.xor_assoc, BitVec.xor_self, BitVec.xor_zero]
      rw [hsplit, hf, hg, h i hi, ih (Nat.le_of_succ_le hi) _ (clear_bit hi hb hv)]
    · refine ih (Nat.le_of_succ_le hi) v fun j hj => ?_
      rcases Nat.eq_or_lt_of_le hj with rfl | hlt
      · exact Bool.eq_false_iff.mpr hb
      · exact hv j hlt

/-- The two arguments are apart. -/
theorem XorLinear₂.split {f : BitVec m → BitVec k → BitVec n} (hf : XorLinear₂ f) (a : BitVec m) (b : BitVec k) :
    f a b = f a 0#k ^^^ f 0#m b := by
  have h := hf a 0#m 0#k b
  rwa [BitVec.xor_zero, BitVec.zero_xor] at h

theorem XorLinear₂.left {f : BitVec m → BitVec k → BitVec n} (hf : XorLinear₂ f) : XorLinear fun a => f a 0#k := by
  intro a a'
  have h := hf a a' 0#k 0#k
  rwa [BitVec.xor_zero] at h

theorem XorLinear₂.right {f : BitVec m → BitVec k → BitVec n} (hf : XorLinear₂ f) : XorLinear (f 0#m) := by
  intro b b'
  have h := hf 0#m 0#m b b'
  rwa [BitVec.xor_zero] at h

theorem XorLinear₂.ext {f g : BitVec m → BitVec k → BitVec n} (hf : XorLinear₂ f) (hg : XorLinear₂ g)
    (hl : ∀ i < m, f (BitVec.twoPow m i) 0#k = g (BitVec.twoPow m i) 0#k)
    (hr : ∀ i < k, f 0#m (BitVec.twoPow k i) = g 0#m (BitVec.twoPow k i)) (a : BitVec m) (b : BitVec k) :
    f a b = g a b := by
  rw [hf.split, hg.split, hf.left.ext hg.left hl a, hf.right.ext hg.right hr b]

end

/-! ## The division -/

section
variable {w : Nat} (poly : BitVec w)

/-- One step: the lowest bit goes out, and takes the polynomial with it. -/
def crcStep (c : BitVec w) : BitVec w := if c.getLsbD 0 then c >>> 1 ^^^ poly else c >>> 1

def crcByte (c : BitVec w) (d : BitVec 8) : BitVec w := Nat.repeat (crcStep poly) 8 (c ^^^ d.setWidth w)

/-- The remainder behind a string. -/
def crcRun (c : BitVec w) (bs : List UInt8) : BitVec w := bs.foldl (fun c d => crcByte poly c d.toBitVec) c

theorem crcStep_xor : XorLinear (crcStep poly) := by
  intro a b
  simp only [crcStep, BitVec.getLsbD_xor, BitVec.ushiftRight_xor_distrib]
  cases a.getLsbD 0 <;> cases b.getLsbD 0
  · rfl
  · exact BitVec.xor_assoc _ _ _
  · simp only [Bool.xor_false, if_true, Bool.false_eq_true, if_false]
    ac_rfl
  · simp only [Bool.xor_self, if_true, Bool.false_eq_true, if_false]
    have hp : a >>> 1 ^^^ poly ^^^ (b >>> 1 ^^^ poly) = a >>> 1 ^^^ b >>> 1 ^^^ (poly ^^^ poly) := by ac_rfl
    rw [hp, BitVec.xor_self, BitVec.xor_zero]

theorem crcByte_xor : XorLinear₂ (crcByte poly) := by
  intro a a' b b'
  have hsplit : a ^^^ a' ^^^ (b ^^^ b').setWidth w = a ^^^ b.setWidth w ^^^ (a' ^^^ b'.setWidth w) := by
    rw [BitVec.setWidth_xor]
    ac_rfl
  rw [crcByte, hsplit, (crcStep_xor poly).iterate 8]
  rfl

theorem crcRun_xor (c c' : BitVec w) {as bs : List UInt8} (h : as.length = bs.length) :
    crcRun poly (c ^^^ c') (List.zipWith (· ^^^ ·) as bs) = crcRun poly c as ^^^ crcRun poly c' bs := by
  induction as generalizing bs c c' with
  | nil =>
    obtain rfl := List.length_eq_zero_iff.mp h.symm
    rfl
  | cons a as ih =>
    cases bs with
    | nil => cases h
    | cons b bs =>
      have hbyte := crcByte_xor poly c c' a.toBitVec b.toBitVec
      rw [← UInt8.toBitVec_xor] at hbyte
      simp only [List.zipWith_cons_cons, crcRun, List.foldl_cons, hbyte]
      exact ih _ _ (Nat.succ.inj h)

end

end Lib
