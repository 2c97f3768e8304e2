import GizwitsSdk.Lib.Wrap

/-!
# The network time: `ntp_client.c`

The system clock counts hundredths of a second in 32 bits. It is set to the
seconds since a base date, so it holds 497 days from that date on.
-/

namespace GizwitsSdk

open Lib

structure NtpTime where
  coarse : UInt32
  fine : UInt32

/-- The fields are in network order. -/
structure NtpPacked where
  trantime : NtpTime

structure Timeval where
  tvSec : Int32
  tvUsec : Int32

def jan1970 : UInt32 := 0x83aa7e80

def usec (x : UInt32) : UInt32 :=
  (x >>> 12) - (759 : UInt32) * (((x >>> 10) + 32768) >>> (16 : UInt32))

def ntohl (n : UInt32) : UInt32 :=
  ((n &&& 0xff) <<< 24) ||| ((n &&& 0xff00) <<< 8) ||| ((n &&& 0xff0000) >>> 8) ||| ((n &&& 0xff000000) >>> 24)

def getSynTimeFromNtpPacked (p : NtpPacked) : Timeval :=
  { tvSec := (ntohl p.trantime.coarse - jan1970).toInt32
    tvUsec := (usec (ntohl p.trantime.fine)).toInt32 }

/-- The time at the tick `OSTimeGet` returns. -/
def getLocalTime (ticks : UInt32) : Timeval :=
  { tvSec := (ticks / 100).toInt32 + 1417305600 + 28800
    tvUsec := (ticks % 100 / 100 * 1000).toInt32 }

/-- The tick that `ModifyLocalTime` gives to `OSTimeSet`. -/
def localTick (tv : Timeval) : UInt32 := (tv.tvSec - 1417305600).toUInt32 * 100

/-! ## Setting and reading the clock -/

/-- The reply was transmitted at Unix time `t`, after the base date. -/
structure TransmittedAt (p : NtpPacked) (t : Nat) : Prop where
  coarse : (ntohl p.trantime.coarse).toNat = (t + 2208988800) % 2 ^ 32
  base : 1417305600 ≤ t
  limit : t < 2 ^ 32 - 28800

theorem getLocalTime_sec (ticks : UInt32) :
    (getLocalTime ticks).tvSec.toUInt32.toNat = ticks.toNat / 100 + 1417334400 := by
  have hlt := ticks.toNat_lt
  have hbase : (1417305600 : Int32).toUInt32 = 1417305600 := rfl
  have hzone : (28800 : Int32).toUInt32 = 28800 := rfl
  simp only [getLocalTime, Int32.toUInt32_add, UInt32.toUInt32_toInt32, hbase, hzone,
    UInt32.toNat_add, UInt32.toNat_div, UInt32.reduceToNat]
  omega

theorem localTick_toNat {p : NtpPacked} {t : Nat} (h : TransmittedAt p t) :
    (localTick (getSynTimeFromNtpPacked p)).toNat = (t - 1417305600) * 100 % 2 ^ 32 := by
  obtain ⟨hc, hb, hl⟩ := h
  have hsec : (ntohl p.trantime.coarse - jan1970 - 1417305600).toNat = t - 1417305600 := by
    simp only [UInt32.toNat_sub, hc, jan1970, UInt32.reduceToNat]
    omega
  have hbase : (1417305600 : Int32).toUInt32 = 1417305600 := rfl
  simp only [localTick, getSynTimeFromNtpPacked, Int32.toUInt32_sub, UInt32.toUInt32_toInt32,
    hbase, UInt32.toNat_mul, hsec, UInt32.reduceToNat]

/-- **The network time survives the clock** exactly up to the second in which
the tick count of the base date wraps. -/
theorem network_time_iff {p : NtpPacked} {t : Nat} (h : TransmittedAt p t) :
    (getLocalTime (localTick (getSynTimeFromNtpPacked p))).tvSec.toUInt32.toNat = t + 28800 ↔
      t < 1460255273 := by
  have hb := h.base
  rw [getLocalTime_sec, localTick_toNat h]
  have hs : (t - 1417305600) * 100 % 2 ^ 32 / 100 = t - 1417305600 ↔ (t - 1417305600) * 100 < 2 ^ 32 :=
    mul_mod_div_iff (by decide) (by decide)
  omega

def ntpReply (seconds : UInt32) : NtpPacked := { trantime := { coarse := ntohl seconds, fine := 0 } }

/-- Noon of the first day of 2015. -/
theorem network_time_in_2015 :
    (getLocalTime (localTick (getSynTimeFromNtpPacked (ntpReply 3629102400)))).tvSec.toUInt32.toNat =
      1420113600 + 28800 :=
  (network_time_iff ⟨by decide, by decide, by decide⟩).mpr (by decide)

/-- The second after the last one is the base date again. -/
theorem network_time_wraps : ¬ ∀ (p : NtpPacked) (t : Nat), TransmittedAt p t →
    (getLocalTime (localTick (getSynTimeFromNtpPacked p))).tvSec.toUInt32.toNat = t + 28800 := by
  intro hall
  have h := hall (ntpReply 3669244073) 1460255273 ⟨by decide, by decide, by decide⟩
  exact absurd h (by decide)

end GizwitsSdk
