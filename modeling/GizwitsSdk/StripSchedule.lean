import GizwitsSdk.NtpClient
import GizwitsSdk.Strip

/-!
# The delay of a schedule: `timing_value`

A schedule names a minute of the day. The delay is to end with the first second
of that minute, today or tomorrow. The seconds of the minute that has begun
are taken off for a time later today only.
-/

namespace GizwitsSdk

open Lib

def minuteOfDay (sec : Nat) : Nat := sec / 60 % 1440

/-- The time `u` is the next start of the minute `m` of a day. -/
def NextStart (now m u : Nat) : Prop := IsLeast {u | now ≤ u ∧ u % 60 = 0 ∧ minuteOfDay u = m} u

theorem nextStart_iff {now m u : Nat} (hm : m < 1440) :
    NextStart now m u ↔ u = now + (86400 + m * 60 - now % 86400) % 86400 := by
  have hset : {u | now ≤ u ∧ u % 60 = 0 ∧ minuteOfDay u = m} = {u | now ≤ u ∧ u % 86400 = m * 60} := by
    ext v
    simp only [Set.mem_ofPred_eq, minuteOfDay]
    omega
  have hnext : IsLeast {u | now ≤ u ∧ u % 86400 = m * 60} _ := next_residue now (by omega)
  rw [NextStart, hset]
  exact ⟨fun h => h.unique hnext, fun h => h ▸ hnext⟩

theorem systemSec_toNat (ticks : UInt32) : (systemSec ticks).toNat = ticks.toNat / 100 + 1417334400 := by
  have hlt := ticks.toNat_lt
  simp only [systemSec, UInt32.toNat_add, UInt32.toNat_div, UInt32.reduceToNat]
  omega

/-- The strip reckons with the local time. -/
theorem systemSec_eq (ticks : UInt32) : systemSec ticks = (getLocalTime ticks).tvSec.toUInt32 := by
  rw [← UInt32.toNat_inj, systemSec_toNat, getLocalTime_sec]

theorem timingValue_toNat {ticks : UInt32} {m : UInt16} (hm : m.toNat < 1440) :
    (timingValue ticks m).toNat =
      let now := (systemSec ticks).toNat
      if minuteOfDay now = m.toNat then 10
      else if minuteOfDay now < m.toNat then (m.toNat - minuteOfDay now) * 60000 - now % 60 * 1000
      else (1440 - (minuteOfDay now - m.toNat)) * 60000 := by
  have hminute : (systemSec ticks / 60 % 60 + systemSec ticks / 60 / 60 % 24 * 60).toNat =
      minuteOfDay (systemSec ticks).toNat := by
    have hday := @Nat.mod_mul 60 24 ((systemSec ticks).toNat / 60)
    simp only [minuteOfDay, UInt32.toNat_add, UInt32.toNat_mul, UInt32.toNat_mod, UInt32.toNat_div,
      UInt32.reduceToNat]
    omega
  have hlt : minuteOfDay (systemSec ticks).toNat < 1440 := Nat.mod_lt _ (by decide)
  simp only [timingValue, ← UInt32.toNat_inj, UInt32.lt_iff_toNat_lt, hminute, UInt16.toNat_toUInt32]
  split
  · rfl
  · split
    · simp only [UInt32.toNat_sub, UInt32.toNat_mul, UInt32.toNat_mod, hminute, UInt16.toNat_toUInt32,
        UInt32.reduceToNat]
      omega
    · simp only [UInt32.toNat_sub, UInt32.toNat_mul, hminute, UInt16.toNat_toUInt32, UInt32.reduceToNat]
      omega

/-- **The delay of a schedule** ends with the next start of its minute exactly
when the minute is yet to come today, or when the current minute has just begun. -/
theorem schedule_delay_iff {ticks : UInt32} {m : UInt16} (hm : m.toNat < 1440)
    (hne : minuteOfDay (systemSec ticks).toNat ≠ m.toNat) :
    (∃ u, NextStart (systemSec ticks).toNat m.toNat u ∧
      (systemSec ticks).toNat * 1000 + (timingValue ticks m).toNat = u * 1000) ↔
    minuteOfDay (systemSec ticks).toNat < m.toNat ∨ (systemSec ticks).toNat % 60 = 0 := by
  have hday : (systemSec ticks).toNat % 86400 = _ := @Nat.mod_mul 60 1440 (systemSec ticks).toNat
  rw [← minuteOfDay] at hday
  have hlt : minuteOfDay (systemSec ticks).toNat < 1440 := Nat.mod_lt _ (by decide)
  simp only [nextStart_iff hm, exists_eq_left, timingValue_toNat hm, if_neg hne]
  rw [gap_eq (Nat.mod_lt _ (by decide)) (by omega), hday]
  generalize minuteOfDay (systemSec ticks).toNat = d at hne hlt
  by_cases h : d < m.toNat
  · rw [if_pos h, if_pos (by omega)]
    omega
  · rw [if_neg h, if_neg (by omega)]
    omega

/-- At eight in the morning, for a minute later. -/
theorem schedule_delay_soon :
    (∃ u, NextStart (systemSec 0).toNat (481 : UInt16).toNat u ∧
      (systemSec 0).toNat * 1000 + (timingValue 0 481).toNat = u * 1000) ↔
    minuteOfDay (systemSec 0).toNat < (481 : UInt16).toNat ∨ (systemSec 0).toNat % 60 = 0 :=
  schedule_delay_iff (by decide) (by decide)

/-- Half a minute past eight, for a minute before. -/
theorem schedule_late : ¬ ∀ (ticks : UInt32) (m : UInt16), m.toNat < 1440 →
    minuteOfDay (systemSec ticks).toNat ≠ m.toNat →
    ∃ u, NextStart (systemSec ticks).toNat m.toNat u ∧
      (systemSec ticks).toNat * 1000 + (timingValue ticks m).toNat = u * 1000 := by
  intro hall
  obtain ⟨u, hu, he⟩ := hall 3000 479 (by decide) (by decide)
  rw [(nextStart_iff (by decide)).mp hu] at he
  exact absurd he (by decide)

end GizwitsSdk
