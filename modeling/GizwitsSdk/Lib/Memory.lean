import Mathlib.Tactic.Common

/-!
# Byte memory with little-endian words

A memory maps addresses to bytes. `load32` and `store32` access a 32-bit word
stored low byte first; an access sees exactly the last store to the same word
and is untouched by a store that does not overlap it. `moved` is a move of a
range as one assignment; a store of one byte takes off its first byte when the
range moves down and its last byte when it moves up.
-/

namespace Lib

abbrev Mem := Nat → UInt8

/-- The value a 32-bit unsigned expression takes. -/
def u32 (n : Nat) : Nat := n % 4294967296

def sub32 (a b : Nat) : Nat := u32 (a + (4294967296 - b))

theorem u32_of_lt {n : Nat} (h : n < 4294967296) : u32 n = n := Nat.mod_eq_of_lt h

theorem u32_lt (n : Nat) : u32 n < 4294967296 := Nat.mod_lt _ (by decide)

theorem sub32_of_le {a b : Nat} (hb : b ≤ a) (ha : a < 4294967296) : sub32 a b = a - b := by
  unfold sub32 u32; omega

def load32 (m : Mem) (a : Nat) : Nat :=
  (m a).toNat + 256 * (m (a + 1)).toNat + 65536 * (m (a + 2)).toNat + 16777216 * (m (a + 3)).toNat

def store8 (m : Mem) (a : Nat) (v : UInt8) : Mem := fun x => if x = a then v else m x

def store32 (m : Mem) (a v : Nat) : Mem := fun x =>
  if x = a then .ofNat v
  else if x = a + 1 then .ofNat (v / 256)
  else if x = a + 2 then .ofNat (v / 65536)
  else if x = a + 3 then .ofNat (v / 16777216)
  else m x

/-- `memcmp(p, q, n) == 0`. -/
def memcmp (p q : Mem) (n : Nat) : Bool := (List.range n).all fun k => p k == q k

theorem memcmp_iff {p q : Mem} {n : Nat} : memcmp p q n = true ↔ ∀ k < n, p k = q k := by
  simp only [memcmp, List.all_eq_true, List.mem_range, beq_iff_eq]

theorem load32_lt (m : Mem) (a : Nat) : load32 m a < 4294967296 := by
  have h0 := (m a).toNat_lt
  have h1 := (m (a + 1)).toNat_lt
  have h2 := (m (a + 2)).toNat_lt
  have h3 := (m (a + 3)).toNat_lt
  unfold load32; omega

theorem load32_congr {m m' : Mem} {a : Nat} (h : ∀ x, a ≤ x → x < a + 4 → m' x = m x) :
    load32 m' a = load32 m a := by
  unfold load32
  rw [h a (by omega) (by omega), h (a + 1) (by omega) (by omega), h (a + 2) (by omega) (by omega),
    h (a + 3) (by omega) (by omega)]

theorem store8_self (m : Mem) (a : Nat) (v : UInt8) : store8 m a v a = v := if_pos rfl

theorem store8_other {m : Mem} {a x : Nat} {v : UInt8} (h : x < a ∨ a < x) : store8 m a v x = m x :=
  if_neg (by omega)

theorem store32_other {m : Mem} {a x v : Nat} (h : x < a ∨ a + 4 ≤ x) : store32 m a v x = m x := by
  unfold store32
  rw [if_neg (by omega), if_neg (by omega), if_neg (by omega), if_neg (by omega)]

theorem load32_store32 (m : Mem) (a v : Nat) : load32 (store32 m a v) a = u32 v := by
  have e1 : a + 1 ≠ a := by omega
  have e2 : a + 2 ≠ a := by omega
  have e3 : a + 3 ≠ a := by omega
  simp only [load32, store32, if_true, e1, e2, e3, if_false, Nat.add_left_cancel_iff,
    Nat.reduceEqDiff, UInt8.toNat_ofNat', u32]
  omega

theorem load32_store32_other {m : Mem} {a b v : Nat} (h : b + 4 ≤ a ∨ a + 4 ≤ b) :
    load32 (store32 m a v) b = load32 m b :=
  load32_congr fun _ h1 h2 => store32_other (by omega)

theorem load32_store8_other {m : Mem} {a b : Nat} {v : UInt8} (h : b + 4 ≤ a ∨ a < b) :
    load32 (store8 m a v) b = load32 m b :=
  load32_congr fun _ h1 h2 => store8_other (by omega)

def blit (m : Mem) (p : Nat) (bs : List UInt8) : Mem := fun k =>
  if p ≤ k ∧ k < p + bs.length then bs.getD (k - p) 0 else m k

theorem blit_before {m : Mem} {p k : Nat} {bs : List UInt8} (h : k < p) : blit m p bs k = m k :=
  if_neg (by omega)

theorem blit_at {m : Mem} {p k : Nat} {bs : List UInt8} (h : p ≤ k) (h' : k < p + bs.length) :
    blit m p bs k = bs.getD (k - p) 0 := if_pos ⟨h, h'⟩

def moved (m : Mem) (dst src n : Nat) : Mem := fun x =>
  if dst ≤ x ∧ x < dst + n then m (src + (x - dst)) else m x

theorem moved_zero (m : Mem) (dst src : Nat) : moved m dst src 0 = m :=
  funext fun _ => if_neg (by omega)

theorem moved_at {m : Mem} {dst src n k : Nat} (h : k < n) : moved m dst src n (dst + k) = m (src + k) := by
  unfold moved
  rw [if_pos (by omega), Nat.add_sub_cancel_left]

theorem moved_other {m : Mem} {dst src n x : Nat} (h : x < dst ∨ dst + n ≤ x) : moved m dst src n x = m x :=
  if_neg (by omega)

/-- The bytes still to move are above the one that was stored. -/
theorem moved_first {m : Mem} {dst src n : Nat} (h : dst ≤ src) :
    moved (store8 m dst (m src)) (dst + 1) (src + 1) n = moved m dst src (n + 1) := by
  funext x
  rcases Nat.lt_trichotomy x dst with hx | rfl | hx
  · rw [moved_other (by omega), moved_other (by omega), store8_other (by omega)]
  · rw [moved_other (by omega), store8_self]
    exact (moved_at (Nat.succ_pos n)).symm
  · by_cases hn : x < dst + (n + 1)
    · obtain ⟨k, rfl⟩ : ∃ k, x = dst + 1 + k := ⟨x - (dst + 1), by omega⟩
      rw [moved_at (by omega), store8_other (by omega), Nat.add_assoc dst, moved_at (by omega), Nat.add_assoc]
    · rw [moved_other (by omega), moved_other (by omega), store8_other (by omega)]

/-- The bytes still to move are below the one that was stored. -/
theorem moved_last {m : Mem} {dst src n : Nat} (h : src ≤ dst) :
    moved (store8 m (dst + n) (m (src + n))) dst src n = moved m dst src (n + 1) := by
  funext x
  rcases Nat.lt_trichotomy x (dst + n) with hx | rfl | hx
  · by_cases hd : x < dst
    · rw [moved_other (by omega), moved_other (by omega), store8_other (by omega)]
    · obtain ⟨k, rfl⟩ : ∃ k, x = dst + k := ⟨x - dst, by omega⟩
      rw [moved_at (by omega), moved_at (by omega), store8_other (by omega)]
  · rw [moved_other (by omega), store8_self, moved_at (Nat.lt_succ_self n)]
  · rw [moved_other (by omega), moved_other (by omega), store8_other (by omega)]

end Lib
