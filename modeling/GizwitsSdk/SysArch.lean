import GizwitsSdk.Lib.Wrap

/-!
# Waits of the operating system: `sys_arch.c`

lwIP gives a timeout in milliseconds, the kernel takes a count of ticks in 16
bits, and the time waited goes back in milliseconds. A mailbox and a semaphore
do the same conversions, each with comparisons of its own.
-/

namespace GizwitsSdk

open Lib

/-- How the kernel ends a wait: `ucErr`, the message, the tick. -/
structure Pend (P : Type) where
  timedOut : Bool
  temp : Option P
  finish : UInt32

structure Waited (P : Type) where
  /-- The tick count that the kernel was called with. -/
  count : UInt16
  msg : Option P := none
  timeout : UInt32

/-- Milliseconds to ticks. From `limit` on, the count is the largest there is. -/
def ucosTimeout (limit timeout : UInt32) : UInt32 :=
  if timeout ≠ 0 then
    let ticks := timeout * 100 / 1000
    if ticks < 1 then 1 else if limit < ticks then 65535 else ticks
  else 0

def ticksToMs (ticks : UInt32) : UInt32 := ticks * 1000 / 100 + 1

/-- A message that is `pvNullPointer` stands for a null pointer. -/
def sysArchMboxFetch {P : Type} [DecidableEq P] (pvNullPointer : P) (timeout start : UInt32) (pend : UInt16 → Pend P) : Waited P :=
  let count := (ucosTimeout 65535 timeout).toUInt16
  let p := pend count
  { count
    msg := if p.temp = some pvNullPointer then none else p.temp
    timeout :=
      if p.timedOut then 0xffffffff
      else ticksToMs (if start < p.finish then p.finish - start else 0xffffffff - start + p.finish) }

def sysArchSemWait {P : Type} (timeout start : UInt32) (pend : UInt16 → Pend P) : Waited P :=
  let count := (ucosTimeout 65536 timeout).toUInt16
  let p := pend count
  { count
    timeout :=
      if p.timedOut then 0xffffffff
      else ticksToMs (if start ≤ p.finish then p.finish - start else 0xffffffff - start + p.finish) }

/-! ## The contract -/

def fullCount (timeout : UInt32) : Nat :=
  if timeout = 0 then 0 else min 65535 (max 1 (timeout.toNat / 10))

/-- What lwIP relies on in a wait that was satisfied at the tick `finish`. -/
structure KeepsContract {P : Type} (timeout start finish : UInt32) (w : Waited P) : Prop where
  count : w.count.toNat = fullCount timeout
  timeout : (finish - start).toNat * 10 + 1 < 2 ^ 32 → w.timeout.toNat = (finish - start).toNat * 10 + 1

/-! ## Counts -/

/-- The ticks of a timeout, with the product cut to 32 bits. -/
def cutTicks (timeout : UInt32) : Nat := timeout.toNat * 100 % 2 ^ 32 / 1000

theorem ucosTimeout_zero (limit : UInt32) : ucosTimeout limit 0 = 0 := rfl

theorem ucosTimeout_toNat {limit timeout : UInt32} (hl : 0 < limit) (h : timeout ≠ 0) :
    (ucosTimeout limit timeout).toNat =
      if limit.toNat < cutTicks timeout then 65535 else max 1 (cutTicks timeout) := by
  have hticks : (timeout * 100 / 1000).toNat = cutTicks timeout := by
    simp only [UInt32.toNat_div, UInt32.toNat_mul, UInt32.reduceToNat, cutTicks]
  have hpos : 0 < limit.toNat := hl
  simp only [ucosTimeout, if_pos h, UInt32.lt_iff_toNat_lt, hticks, UInt32.reduceToNat]
  split
  · rw [if_neg (by omega)]
    show 1 = _
    omega
  · split
    · rfl
    · omega

theorem count_eq {limit timeout : UInt32} (hl : 0 < limit) (h : timeout ≠ 0) {n : Nat} (hn : limit.toNat = n) :
    (ucosTimeout limit timeout).toUInt16.toNat =
      if n < cutTicks timeout then 65535 else max 1 (cutTicks timeout) % 65536 := by
  rw [UInt32.toNat_toUInt16, ucosTimeout_toNat hl h, hn]
  split <;> rfl

theorem cutTicks_exact {timeout : UInt32} (h : timeout.toNat * 100 < 2 ^ 32) :
    cutTicks timeout = timeout.toNat / 10 := by
  rw [cutTicks, Nat.mod_eq_of_lt h]
  omega

theorem mbox_count_iff (timeout : UInt32) :
    (ucosTimeout 65535 timeout).toUInt16.toNat = fullCount timeout ↔
      timeout.toNat * 100 < 2 ^ 32 ∨ 65535 ≤ cutTicks timeout := by
  by_cases h : timeout = 0
  · subst h
    simp [ucosTimeout_zero, fullCount]
  · rw [fullCount, if_neg h, count_eq (n := 65535) (by decide) h rfl]
    by_cases hw : timeout.toNat * 100 < 2 ^ 32
    · rw [cutTicks_exact hw]
      split <;> omega
    · generalize cutTicks timeout = n
      split <;> omega

/-- The semaphore takes the count 65536 for one that fits. -/
theorem sem_count_iff (timeout : UInt32) :
    (ucosTimeout 65536 timeout).toUInt16.toNat = fullCount timeout ↔
      (timeout.toNat * 100 < 2 ^ 32 ∨ 65535 ≤ cutTicks timeout) ∧ cutTicks timeout ≠ 65536 := by
  by_cases h : timeout = 0
  · subst h
    simp [ucosTimeout_zero, fullCount, cutTicks]
  · rw [fullCount, if_neg h, count_eq (n := 65536) (by decide) h rfl]
    by_cases hw : timeout.toNat * 100 < 2 ^ 32
    · rw [cutTicks_exact hw]
      split <;> omega
    · generalize cutTicks timeout = n
      split <;> omega

/-! ## Times -/

theorem ticksToMs_toNat (d : UInt32) : (ticksToMs d).toNat = d.toNat * 1000 % 2 ^ 32 / 100 + 1 := by
  simp only [ticksToMs, UInt32.toNat_add, UInt32.toNat_div, UInt32.toNat_mul, UInt32.reduceToNat]
  omega

theorem ticksToMs_iff (d : UInt32) : (ticksToMs d).toNat = d.toNat * 10 + 1 ↔ d.toNat * 1000 < 2 ^ 32 := by
  have hs : d.toNat * 10 * 100 % 2 ^ 32 / 100 = d.toNat * 10 ↔ d.toNat * 10 * 100 < 2 ^ 32 :=
    mul_mod_div_iff (by decide) (by decide)
  rw [ticksToMs_toNat]
  omega

/-- Past the wrap of the clock, and in the same tick, the count from the largest
reading is never the time. -/
theorem ticksToMs_from_max (s e : UInt32) :
    (ticksToMs (0xffffffff - s + e)).toNat ≠ (e - s).toNat * 10 + 1 := by
  have hd : (e - s).toNat < 2 ^ 32 := (e - s).toNat_lt
  rw [ticksToMs_toNat, elapsed_from_max, UInt32.toNat_sub]
  simp only [UInt32.reduceToNat]
  omega

theorem mbox_ms_iff {P : Type} [DecidableEq P] (pvNullPointer : P) (timeout start finish : UInt32) (temp : Option P) :
    (sysArchMboxFetch pvNullPointer timeout start fun _ => ⟨false, temp, finish⟩).timeout.toNat =
        (finish - start).toNat * 10 + 1 ↔
      start < finish ∧ (finish - start).toNat * 1000 < 2 ^ 32 := by
  simp only [sysArchMboxFetch, Bool.false_eq_true, if_false]
  by_cases h : start < finish
  · rw [if_pos h, ticksToMs_iff, and_iff_right h]
  · rw [if_neg h]
    simp [h, ticksToMs_from_max]

theorem sem_ms_of_lt {P : Type} {timeout start finish : UInt32} {temp : Option P} (h : start < finish) :
    (sysArchSemWait timeout start fun _ => ⟨false, temp, finish⟩).timeout.toNat =
        (finish - start).toNat * 10 + 1 ↔
      (finish - start).toNat * 1000 < 2 ^ 32 := by
  simp only [sysArchSemWait, Bool.false_eq_true, if_false]
  rw [if_pos (UInt32.le_of_lt h), ticksToMs_iff]

/-- **The waits keep lwIP's contract** exactly when the product of the timeout
is not cut, or is still large, does not come to 65536 ticks, and the clock has
gone on, has not wrapped, and the product of the time is not cut. -/
theorem os_waits_iff {P : Type} [DecidableEq P] (pvNullPointer : P) (timeout start finish : UInt32) (temp : Option P) :
    (KeepsContract timeout start finish
        (sysArchMboxFetch pvNullPointer timeout start fun _ => ⟨false, temp, finish⟩) ∧
      KeepsContract timeout start finish (sysArchSemWait timeout start fun _ => ⟨false, temp, finish⟩)) ↔
    (timeout.toNat * 100 < 2 ^ 32 ∨ 65535 ≤ cutTicks timeout) ∧ cutTicks timeout ≠ 65536 ∧
      ((finish - start).toNat * 10 + 1 < 2 ^ 32 → start < finish ∧ (finish - start).toNat * 1000 < 2 ^ 32) := by
  constructor
  · intro h
    obtain ⟨hm, hs⟩ := h
    obtain ⟨hcut, hne⟩ := (sem_count_iff timeout).mp hs.count
    exact ⟨hcut, hne, fun hfit => (mbox_ms_iff pvNullPointer timeout start finish temp).mp (hm.timeout hfit)⟩
  · intro h
    obtain ⟨hcut, hne, htime⟩ := h
    refine ⟨⟨(mbox_count_iff timeout).mpr hcut, fun hfit => ?_⟩,
      ⟨(sem_count_iff timeout).mpr ⟨hcut, hne⟩, fun hfit => ?_⟩⟩
    · exact (mbox_ms_iff pvNullPointer timeout start finish temp).mpr (htime hfit)
    · obtain ⟨hlt, hms⟩ := htime hfit
      exact (sem_ms_of_lt hlt).mpr hms

theorem wait_in_one_tick : ¬ ∀ (timeout start finish : UInt32) (temp : Option Nat),
    KeepsContract timeout start finish
        (sysArchMboxFetch 0 timeout start fun _ => ⟨false, temp, finish⟩) ∧
      KeepsContract timeout start finish (sysArchSemWait timeout start fun _ => ⟨false, temp, finish⟩) := by
  intro hall
  have h := (hall 1000 5 5 (some 1)).1.timeout (by decide)
  exact absurd h (by decide)

end GizwitsSdk
