import GizwitsSdk.Lib.Memory
import Mathlib.Data.List.TakeWhile

/-!
# Soft-AP onboarding

The UDP task takes the credentials, starts the join, waits for a count of
`pLinkUpSem` and then sets `sys_status.onboarding`. The system's event callback
looks at that flag before it posts the count. Each task goes from one control
point to the next in steps of its own. What is taken of a datagram is a parameter.
-/

namespace GizwitsSdk

open Lib

inductive SysStatus
  | wifiStop
  | wifiSoftAp
  | wifiDirectConfing
  | wifiStaConnected
  | wifiStaLogin
  deriving DecidableEq

/-- `wifi_ssid` and `wifi_key`, as C strings. -/
structure Credentials where
  ssid : List UInt8
  key : List UInt8
  deriving DecidableEq

inductive UdpPc
  | idle
  /-- at `OSSemPend(pLinkUpSem, 0, &err)` -/
  | pend
  /-- at `Socket_sendto` -/
  | reply
  /-- at the store to `sys_status.onboarding` -/
  | mark
  deriving DecidableEq

inductive EvtPc
  | idle
  | test
  | save
  | postSoftAp
  | postLinkUp
  deriving DecidableEq

structure OnbSt (C : Type) where
  udp : UdpPc
  evt : EvtPc
  pLinkUpSem : Nat
  status : SysStatus
  /-- `sys_status.onboarding` is `SUCCESS` -/
  onboarding : Bool
  /-- the credentials in `g_stGAgentConfigData` -/
  cfg : C
  cfgConnected : Bool
  wifiStaConnectApFlag : UInt8
  testDirectCfgFlag : UInt8
  /-- the credentials of the join that was started and has had no event yet -/
  join : Option C
  /-- those of the join that the callback is called for -/
  called : Option C
  /-- since the boot: configurations saved, posts of `pSoftApSem`, joins whose
  callback got past the test -/
  saved : List C
  softApPosts : Nat
  linked : List C

/-! ## The UDP task -/

/-- The C string at `p`, of `len` bytes at most. -/
def fieldAt (buf : Mem) (p len : Nat) : List UInt8 :=
  ((List.range len).map fun k => buf (p + k)).takeWhile (· ≠ 0)

/-- The credentials that an onboarding datagram announces. -/
def credentialsOf (buf : Mem) : Credentials :=
  let passwdlength := 10 + (buf 9).toNat + 1
  ⟨fieldAt buf 10 (buf 9).toNat, fieldAt buf (passwdlength + 1) (buf passwdlength).toNat⟩

section
variable {C : Type}

/-- `Udp_Onboarding` up to `InfWiFiStart`, with the credentials that it has taken. -/
def udpOnboarding (taken : C) (s : OnbSt C) : OnbSt C :=
  { s with
    cfg := taken
    cfgConnected := true
    join := some taken
    udp := .pend }

/-- `Socket_DispatchUDPRecvData` with an onboarding datagram. -/
def udpDatagram (taken : C) (s : OnbSt C) : OnbSt C :=
  if s.udp = .idle ∧ s.onboarding = false ∧ s.status = .wifiSoftAp then udpOnboarding taken s else s

/-- The next step of the UDP task; it stays where no count is left. -/
def udpNext (s : OnbSt C) : OnbSt C :=
  match s.udp with
  | .idle => s
  | .pend => if s.pLinkUpSem = 0 then s else { s with pLinkUpSem := s.pLinkUpSem - 1, udp := .reply }
  | .reply => { s with udp := .mark }
  | .mark => { s with onboarding := true, udp := .idle }

/-! ## The event callback -/

/-- The callback is called with `SYS_EVT_LINK_UP`, for the join if there is one. -/
def linkUp (s : OnbSt C) : OnbSt C :=
  if s.evt = .idle then { s with wifiStaConnectApFlag := 0, evt := .test, called := s.join, join := none } else s

/-- Past the saving, on to `OSSemPost(pLinkUpSem)`. -/
def pastSaving (s : OnbSt C) : OnbSt C :=
  { s with linked := s.called.toList ++ s.linked, called := none, evt := .postLinkUp }

def evtNext (s : OnbSt C) : OnbSt C :=
  match s.evt with
  | .idle => s
  | .test => if s.onboarding then { s with evt := .save } else pastSaving s
  | .save => { s with saved := s.cfg :: s.saved, evt := .postSoftAp }
  | .postSoftAp => pastSaving { s with softApPosts := s.softApPosts + 1 }
  | .postLinkUp => { s with pLinkUpSem := s.pLinkUpSem + 1, testDirectCfgFlag := 1, evt := .idle }

def onbStart (n : Nat) (status : SysStatus) (onboarding : Bool) (cfg : C) (cfgConnected : Bool) : OnbSt C where
  udp := .idle
  evt := .idle
  pLinkUpSem := n
  status := status
  onboarding := onboarding
  cfg := cfg
  cfgConnected := cfgConnected
  wifiStaConnectApFlag := 0
  testDirectCfgFlag := 0
  join := none
  called := none
  saved := []
  softApPosts := 0
  linked := []

/-- `SYS_EVT_JOIN_FAIL`; a soft AP resets the chip. -/
def joinFail (s : OnbSt C) : OnbSt C :=
  if s.evt = .idle then
    if s.status = .wifiSoftAp then onbStart 0 .wifiStop false s.cfg s.cfgConnected
    else
      { s with
        wifiStaConnectApFlag := 1
        testDirectCfgFlag := if s.status = .wifiDirectConfing then 2 else s.testDirectCfgFlag
        join := none
        pLinkUpSem := s.pLinkUpSem + 1 }
  else s

end

/-! ## Strings in memory -/

section
variable {m m' : Mem} {p p' n k : Nat}

theorem fieldAt_congr (h : ∀ k < n, m' (p' + k) = m (p + k)) : fieldAt m' p' n = fieldAt m p n := by
  unfold fieldAt
  congr 1
  exact List.map_congr_left fun k hk => h k (List.mem_range.mp hk)

theorem fieldAt_le (m : Mem) (p n : Nat) : (fieldAt m p n).length ≤ n := by
  unfold fieldAt
  exact (List.takeWhile_prefix _).length_le.trans (by rw [List.length_map, List.length_range])

/-- A string ends at its first NUL, however long the field is. -/
theorem fieldAt_nul (h0 : m (p + k) = 0) (hk : k < n) : fieldAt m p n = fieldAt m p k := by
  obtain ⟨d, rfl⟩ := Nat.exists_eq_add_of_lt hk
  have hz : ((List.range (d + 1)).map fun j => m (p + (k + j))).takeWhile (· ≠ 0) = [] := by
    rw [List.range_succ_eq_map, List.map_cons, Nat.add_zero, h0]
    rfl
  unfold fieldAt
  rw [Nat.add_assoc, List.range_add, List.map_append, List.map_map, List.takeWhile_append]
  split
  · rename_i hl
    rw [show ((fun j => m (p + j)) ∘ fun x => k + x) = fun j => m (p + (k + j)) from rfl, hz,
      List.append_nil]
    exact ((List.takeWhile_prefix _).eq_of_length hl).symm
  · rfl

/-- The string has the bytes up to a NUL or the end of the field. -/
theorem fieldAt_length (hk : k ≤ n) (hne : ∀ i < k, m (p + i) ≠ 0) (h0 : k < n → m (p + k) = 0) :
    (fieldAt m p n).length = k := by
  have hall : (fieldAt m p k).length = k := by
    unfold fieldAt
    rw [List.takeWhile_eq_self_iff.mpr, List.length_map, List.length_range]
    intro c hc
    obtain ⟨i, hi, rfl⟩ := List.mem_map.mp hc
    simpa using hne i (List.mem_range.mp hi)
  rcases Nat.lt_or_eq_of_le hk with hlt | rfl
  · rw [fieldAt_nul (h0 hlt) hlt, hall]
  · exact hall

end

end GizwitsSdk
