import Mathlib.Algebra.Ring.Nat
import Mathlib.Tactic.Common

/-!
# Sums of words with the carries added back

A sum of 16-bit words that adds every carry in again at the low end is the sum
modulo `2 ^ 16 - 1`, with `0` for nothing but zeros. A word with its bytes
swapped is 256 times the word, and 256 twice is 1, so a sum over bytes may start
anywhere and be taken in either byte order.
-/

namespace Lib

/-- Two totals that come to the same sum. -/
def SameOnes (n m : Nat) : Prop := n % 0xffff = m % 0xffff ∧ (n = 0 ↔ m = 0)

/-- `x` is the total `n` with all carries out of 16 bits added back. -/
structure OnesSum (n x : Nat) : Prop where
  le : x ≤ 0xffff
  same : SameOnes n x

/-- The sum of two words, the carry added back. -/
def onesAdd (x y : Nat) : Nat := if x + y ≤ 0xffff then x + y else x + y - 0xffff

def swapWord (x : Nat) : Nat := x % 256 * 256 + x / 256

/-- The high half added to the low half. -/
def foldWord (n : Nat) : Nat := n / 0x10000 + n % 0x10000

section
variable {n n' m m' x y : Nat}

theorem SameOnes.refl (n : Nat) : SameOnes n n := ⟨rfl, Iff.rfl⟩

theorem SameOnes.symm (h : SameOnes n m) : SameOnes m n := ⟨h.1.symm, h.2.symm⟩

theorem SameOnes.trans (h : SameOnes n m) (h' : SameOnes m n') : SameOnes n n' := ⟨h.1.trans h'.1, h.2.trans h'.2⟩

theorem SameOnes.add (h : SameOnes n m) (h' : SameOnes n' m') : SameOnes (n + n') (m + m') := by
  obtain ⟨h1, h2⟩ := h
  obtain ⟨h1', h2'⟩ := h'
  constructor <;> omega

theorem SameOnes.byte (h : SameOnes n m) : SameOnes (256 * n) (256 * m) := by
  obtain ⟨h1, h2⟩ := h
  constructor <;> omega

theorem sameOnes_word (n : Nat) : SameOnes (256 * (256 * n)) n := by
  constructor <;> omega

theorem OnesSum.congr (h : OnesSum n x) (hs : SameOnes n m) : OnesSum m x :=
  ⟨h.le, hs.symm.trans h.same⟩

theorem onesSum_self (h : x ≤ 0xffff) : OnesSum x x := ⟨h, SameOnes.refl x⟩

/-- A total has one sum. -/
theorem OnesSum.unique (hx : OnesSum n x) (hy : OnesSum n y) : x = y := by
  obtain ⟨hlx, hmx, hzx⟩ := hx
  obtain ⟨hly, hmy, hzy⟩ := hy
  omega

theorem OnesSum.add (hx : OnesSum n x) (hy : OnesSum m y) : OnesSum (n + m) (onesAdd x y) := by
  obtain ⟨hlx, hmx, hzx⟩ := hx
  obtain ⟨hly, hmy, hzy⟩ := hy
  unfold onesAdd
  split <;> refine ⟨?_, ?_, ?_⟩ <;> omega

theorem OnesSum.swap (h : OnesSum n x) : OnesSum (256 * n) (swapWord x) := by
  obtain ⟨hl, hm, hz⟩ := h
  unfold swapWord
  refine ⟨?_, ?_, ?_⟩ <;> omega

theorem sameOnes_fold (n : Nat) : SameOnes n (foldWord n) := by
  unfold foldWord
  constructor <;> omega

/-- One fold takes the carry of two words, -/
theorem OnesSum.fold (hx : OnesSum n x) (hy : OnesSum m y) : OnesSum (n + m) (foldWord (x + y)) := by
  refine OnesSum.congr ⟨?_, sameOnes_fold (x + y)⟩ (hx.same.add hy.same).symm
  have := hx.le
  have := hy.le
  unfold foldWord
  omega

/-- and two folds those of any 32 bits. -/
theorem onesSum_fold_fold (h : n < 2 ^ 32) : OnesSum n (foldWord (foldWord n)) := by
  refine OnesSum.congr ⟨?_, sameOnes_fold (foldWord n)⟩ (sameOnes_fold n).symm
  unfold foldWord
  omega

/-- Sums are zero when all bits of the sum are set. -/
theorem OnesSum.ones_iff (h : OnesSum n x) : x = 0xffff ↔ n % 0xffff = 0 ∧ n ≠ 0 := by
  obtain ⟨hl, hm, hz⟩ := h
  omega

end

/-! ## Bytes -/

/-- The words of data in network order; behind a last odd byte stands a zero. -/
def netWords : List UInt8 → List Nat
  | a :: b :: rest => (a.toNat * 256 + b.toNat) :: netWords rest
  | [a] => [a.toNat * 256]
  | [] => []

/-- The sum of the words of data, every carry added back. -/
def internetSum (data : List UInt8) : Nat := (netWords data).foldl onesAdd 0

/-- The number that data spells, low byte first. -/
def leNat : List UInt8 → Nat
  | [] => 0
  | b :: rest => b.toNat + 256 * leNat rest

section
variable {n x : Nat} {front : List UInt8}

theorem netWords_sum (data : List UInt8) (h : OnesSum n x) :
    OnesSum (n + 256 * leNat data) ((netWords data).foldl onesAdd x) := by
  fun_induction netWords data generalizing n x with
  | case1 a b rest ih =>
    have ha := a.toNat_lt
    have hb := b.toNat_lt
    have hw : OnesSum (a.toNat * 256 + b.toNat) (a.toNat * 256 + b.toNat) := onesSum_self (by omega)
    refine (ih (h.add hw)).congr ?_
    simp only [leNat]
    constructor <;> omega
  | case2 a =>
    have ha := a.toNat_lt
    have hw : OnesSum (a.toNat * 256) (a.toNat * 256) := onesSum_self (by omega)
    refine (h.add hw).congr ?_
    simp only [leNat]
    constructor <;> omega
  | case3 => exact h

theorem internetSum_spec (data : List UInt8) : OnesSum (256 * leNat data) (internetSum data) := by
  have h := netWords_sum data (onesSum_self (Nat.zero_le 0xffff))
  rwa [Nat.zero_add] at h

/-- Data goes on at a whole word, -/
theorem leNat_append_even (back : List UInt8) (h : front.length % 2 = 0) :
    SameOnes (leNat (front ++ back)) (leNat front + leNat back) := by
  fun_induction netWords front with
  | case1 a b rest ih =>
    obtain ⟨h1, h2⟩ := ih (by simp only [List.length_cons] at h; omega)
    simp only [List.cons_append, leNat]
    constructor <;> omega
  | case2 a => simp at h
  | case3 => rw [List.nil_append, leNat, Nat.zero_add]; exact SameOnes.refl _

/-- or in the middle of one. -/
theorem leNat_append_odd (back : List UInt8) (h : front.length % 2 = 1) :
    SameOnes (leNat (front ++ back)) (leNat front + 256 * leNat back) := by
  cases front with
  | nil => simp at h
  | cons a rest =>
    have he : rest.length % 2 = 0 := by simp only [List.length_cons] at h; omega
    obtain ⟨h1, h2⟩ := leNat_append_even back he
    simp only [List.cons_append, leNat]
    constructor <;> omega

end

end Lib
