import Mathlib.Data.Fintype.Card
import Mathlib.Logic.Function.Basic
import Mathlib.Tactic.Common

/-!
# Bit tables

Sixty-four flags are kept in eight rows of eight bits. A ninth byte marks the
rows that are not empty, so that two lookups of a lowest set bit find the least
flag that is up.
-/

namespace Lib

structure BitTable where
  grp : BitVec 8
  tbl : Fin 8 → BitVec 8

namespace BitTable

def bit (i : Fin 8) : BitVec 8 := BitVec.twoPow 8 i

def row (p : Fin 64) : Fin 8 := ⟨p / 8, by omega⟩

def col (p : Fin 64) : Fin 8 := ⟨p % 8, by omega⟩

def cell (y x : Fin 8) : Fin 64 := ⟨y * 8 + x, by omega⟩

instance : Membership (Fin 64) BitTable := ⟨fun t p => (t.tbl (row p)).getLsbD (col p) = true⟩

instance (p : Fin 64) (t : BitTable) : Decidable (p ∈ t) :=
  inferInstanceAs (Decidable ((t.tbl (row p)).getLsbD (col p) = true))

def empty : BitTable := ⟨0, fun _ => 0⟩

def insert (t : BitTable) (p : Fin 64) : BitTable :=
  { grp := t.grp ||| bit (row p)
    tbl := Function.update t.tbl (row p) (t.tbl (row p) ||| bit (col p)) }

/-- The mark of the row goes with its last flag. -/
def remove (t : BitTable) (p : Fin 64) : BitTable :=
  let r := t.tbl (row p) &&& ~~~bit (col p)
  { grp := if r = 0 then t.grp &&& ~~~bit (row p) else t.grp
    tbl := Function.update t.tbl (row p) r }

/-- The marks are those of the rows that are not empty. -/
def Wf (t : BitTable) : Prop := ∀ y : Fin 8, t.grp.getLsbD y = true ↔ t.tbl y ≠ 0

def highest (unmap : BitVec 8 → Fin 8) (t : BitTable) : Fin 64 :=
  cell (unmap t.grp) (unmap (t.tbl (unmap t.grp)))

/-! ## Places -/

variable {t : BitTable} {p q : Fin 64} {x y : Fin 8}

theorem row_cell : row (cell y x) = y := by
  apply Fin.ext
  simp only [row, cell]
  omega

theorem col_cell : col (cell y x) = x := by
  apply Fin.ext
  simp only [col, cell]
  omega

theorem eq_of_row_col (hr : row q = row p) (hc : col q = col p) : q = p := by
  simp only [row, col, Fin.mk.injEq] at hr hc
  omega

theorem mem_def : p ∈ t ↔ (t.tbl (row p)).getLsbD (col p) = true := Iff.rfl

theorem mem_cell : cell y x ∈ t ↔ (t.tbl y).getLsbD x = true := by rw [mem_def, row_cell, col_cell]

/-! ## Bytes -/

theorem getLsbD_bit (i j : Fin 8) : (bit i).getLsbD j = true ↔ j = i := by
  have hi := i.isLt
  simp only [bit, BitVec.getLsbD_twoPow, Bool.and_eq_true, decide_eq_true_eq, Fin.ext_iff]
  omega

theorem byte_ext {a b : BitVec 8} (h : ∀ i : Fin 8, a.getLsbD i = true ↔ b.getLsbD i = true) : a = b := by
  apply BitVec.eq_of_getLsbD_eq
  intro i hi
  exact Bool.eq_iff_iff.mpr (h ⟨i, hi⟩)

theorem byte_ne_zero {b : BitVec 8} : b ≠ 0 ↔ ∃ i : Fin 8, b.getLsbD i = true := by
  constructor
  · intro h
    by_contra hn
    push Not at hn
    exact h (byte_ext fun i => by simpa using hn i)
  · rintro ⟨i, hi⟩ rfl
    simp at hi

theorem getLsbD_set (b : BitVec 8) (i j : Fin 8) :
    (b ||| bit i).getLsbD j = true ↔ j = i ∨ b.getLsbD j = true := by
  rw [BitVec.getLsbD_or, Bool.or_eq_true, getLsbD_bit, or_comm]

theorem getLsbD_clear (b : BitVec 8) (i j : Fin 8) :
    (b &&& ~~~bit i).getLsbD j = true ↔ j ≠ i ∧ b.getLsbD j = true := by
  rw [BitVec.getLsbD_and, Bool.and_eq_true, BitVec.getLsbD_not, Bool.and_eq_true, Bool.not_eq_true', and_comm]
  have hj : decide ((j : Nat) < 8) = true := decide_eq_true j.isLt
  rw [hj, ← Bool.not_eq_true, getLsbD_bit]
  simp

/-! ## The flags after an operation -/

theorem not_mem_empty : p ∉ empty := by simp [mem_def, empty]

theorem tbl_insert : (t.insert p).tbl = Function.update t.tbl (row p) (t.tbl (row p) ||| bit (col p)) := rfl

theorem tbl_remove : (t.remove p).tbl = Function.update t.tbl (row p) (t.tbl (row p) &&& ~~~bit (col p)) := rfl

theorem mem_insert : q ∈ t.insert p ↔ q = p ∨ q ∈ t := by
  by_cases hr : row q = row p
  · rw [mem_def, tbl_insert, hr, Function.update_self, getLsbD_set, mem_def, hr]
    refine or_congr_left ⟨fun hc => eq_of_row_col hr hc, fun h => h ▸ rfl⟩
  · rw [mem_def, tbl_insert, Function.update_of_ne hr, mem_def]
    have hne : q ≠ p := fun h => hr (h ▸ rfl)
    simp [hne]

theorem mem_remove : q ∈ t.remove p ↔ q ≠ p ∧ q ∈ t := by
  by_cases hr : row q = row p
  · rw [mem_def, tbl_remove, hr, Function.update_self, getLsbD_clear, mem_def, hr]
    refine and_congr_left' (not_congr ⟨fun hc => eq_of_row_col hr hc, fun h => h ▸ rfl⟩)
  · rw [mem_def, tbl_remove, Function.update_of_ne hr, mem_def]
    have hne : q ≠ p := fun h => hr (h ▸ rfl)
    simp [hne]

theorem wf_empty : Wf empty := by
  intro y
  simp [empty]

theorem Wf.insert (h : Wf t) (p : Fin 64) : Wf (t.insert p) := by
  intro y
  have hg : (t.insert p).grp = t.grp ||| bit (row p) := rfl
  rw [hg, tbl_insert, getLsbD_set]
  by_cases hy : y = row p
  · subst hy
    have hb : (t.tbl (row p) ||| bit (col p)).getLsbD (col p) = true := (getLsbD_set _ _ _).mpr (Or.inl rfl)
    rw [Function.update_self]
    exact ⟨fun _ => byte_ne_zero.mpr ⟨col p, hb⟩, fun _ => Or.inl rfl⟩
  · rw [Function.update_of_ne hy, ← h y]
    simp [hy]

theorem Wf.remove (h : Wf t) (p : Fin 64) : Wf (t.remove p) := by
  intro y
  simp only [BitTable.remove]
  by_cases hy : y = row p
  · subst hy
    rw [Function.update_self]
    split
    · case isTrue hr =>
      rw [getLsbD_clear]
      simp [hr]
    · case isFalse hr =>
      refine ⟨fun _ => hr, fun _ => (h _).mpr ?_⟩
      intro h0
      exact hr (by simp [h0])
  · rw [Function.update_of_ne hy, ← h y]
    split
    · rw [getLsbD_clear]
      simp [hy]
    · exact Iff.rfl

/-! ## The flags as a list -/

/-- A list in order starts with its least element. -/
theorem eq_cons_filter {α : Type} [LinearOrder α] {l : List α} (hl : l.Pairwise (· < ·)) {m : α} (hm : m ∈ l)
    (hle : ∀ q ∈ l, m ≤ q) : l = m :: l.filter (· ≠ m) := by
  cases l with
  | nil => cases hm
  | cons a l =>
    obtain ⟨ha, -⟩ := List.pairwise_cons.mp hl
    obtain rfl : m = a := by
      rcases List.mem_cons.mp hm with h | h
      · exact h
      · exact absurd (ha m h) (not_lt.mpr (hle a List.mem_cons_self))
    have hne : ∀ q ∈ l, decide (q ≠ m) = true := fun q hq => decide_eq_true (ha q hq).ne'
    rw [List.filter_cons_of_neg (by simp), List.filter_eq_self.mpr hne]

def members (t : BitTable) : List (Fin 64) := (List.finRange 64).filter (· ∈ t)

theorem mem_members : p ∈ t.members ↔ p ∈ t := by simp [members]

theorem members_sorted (t : BitTable) : t.members.Pairwise (· < ·) :=
  (List.pairwise_lt_finRange 64).filter _

theorem members_length (t : BitTable) : t.members.length ≤ 64 := by
  have h := List.length_filter_le (fun p => decide (p ∈ t)) (List.finRange 64)
  rwa [List.length_finRange] at h

/-! ## The least flag -/

/-- `unmap` gives the lowest bit that is set. -/
structure IsLowest (unmap : BitVec 8 → Fin 8) : Prop where
  set : ∀ b : BitVec 8, b ≠ 0 → b.getLsbD (unmap b) = true
  least : ∀ (b : BitVec 8) (i : Fin 8), b.getLsbD i = true → unmap b ≤ i

theorem Wf.grp_ne_zero (h : Wf t) : t.grp ≠ 0 ↔ ∃ p, p ∈ t := by
  rw [byte_ne_zero]
  constructor
  · rintro ⟨y, hy⟩
    obtain ⟨x, hx⟩ := byte_ne_zero.mp ((h y).mp hy)
    exact ⟨cell y x, mem_cell.mpr hx⟩
  · rintro ⟨p, hp⟩
    exact ⟨row p, (h _).mpr (byte_ne_zero.mpr ⟨col p, hp⟩)⟩

theorem Wf.grp_eq_zero (h : Wf t) : t.grp = 0 ↔ ∀ p, p ∉ t := by
  rw [← not_iff_not, ← ne_eq, h.grp_ne_zero]
  push Not
  rfl

theorem Wf.members_eq_nil (h : Wf t) : t.members = [] ↔ t.grp = 0 := by
  rw [h.grp_eq_zero, List.eq_nil_iff_forall_not_mem]
  exact forall_congr' fun _ => not_congr mem_members

section
variable {unmap : BitVec 8 → Fin 8} (hu : IsLowest unmap)
include hu

theorem Wf.highest_mem (h : Wf t) (hp : p ∈ t) : t.highest unmap ∈ t := by
  have hg : t.grp ≠ 0 := h.grp_ne_zero.mpr ⟨p, hp⟩
  have hr : t.tbl (unmap t.grp) ≠ 0 := (h _).mp (hu.set _ hg)
  exact mem_cell.mpr (hu.set _ hr)

theorem Wf.highest_le (h : Wf t) (hp : p ∈ t) : t.highest unmap ≤ p := by
  have hrow : unmap t.grp ≤ row p := hu.least _ _ ((h _).mpr (byte_ne_zero.mpr ⟨col p, hp⟩))
  rcases hrow.lt_or_eq with hlt | heq
  · simp only [highest, cell, Fin.le_def, Fin.lt_def, row] at hlt ⊢
    omega
  · have hcol : unmap (t.tbl (unmap t.grp)) ≤ col p := by
      rw [heq]
      exact hu.least _ _ hp
    rw [heq] at hcol
    simp only [highest, cell, Fin.le_def, heq, row, col] at hcol ⊢
    omega

/-- Only the least flag is a flag that no flag is below. -/
theorem Wf.highest_eq (h : Wf t) (hp : p ∈ t) (hle : ∀ q ∈ t, p ≤ q) : t.highest unmap = p :=
  le_antisymm (h.highest_le hu hp) (hle _ (h.highest_mem hu hp))

theorem Wf.members_eq (h : Wf t) (hg : t.grp ≠ 0) :
    t.members = t.highest unmap :: (t.remove (t.highest unmap)).members := by
  obtain ⟨p, hp⟩ := h.grp_ne_zero.mp hg
  have hm := h.highest_mem hu hp
  have hcons := eq_cons_filter t.members_sorted (mem_members.mpr hm) fun q hq => h.highest_le hu (mem_members.mp hq)
  rw [hcons, members, members, List.filter_filter]
  congr 2
  funext q
  simp [mem_remove]

end

end BitTable

end Lib
