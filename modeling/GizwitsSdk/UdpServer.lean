import GizwitsSdk.LanResponses
import GizwitsSdk.Onboarding
import GizwitsSdk.Ota
import GizwitsSdk.P0Control

/-!
# The UDP server: `Socket.c`

`Socket_DoUDPServer` receives a datagram into a buffer that is not cleared, and
asks what kind it is by fields that a short datagram does not have. So what
another datagram has left there can decide for it. A list stands for the buffer
and the memory behind it.
-/

namespace GizwitsSdk

open Lib

structure SocketInfo where
  ip : UInt32
  port : UInt16

structure UdpSt where
  ota : OtaSt
  upgradeSocketInfo : SocketInfo
  tmr1Irq : Bool
  onb : OnbSt Credentials
  info : LanInfo
  /-- latest first -/
  sent : List (SocketInfo × List UInt8)

inductive UdpBranch
  | ota
  | onboarding
  | discovery
  | rejected
  deriving DecidableEq

structure UdpDone where
  branch : UdpBranch
  st : UdpSt

def socketRecbufferLen : Nat := 1024

def fwUpgradeCmd : UInt8 := 0x20

/-! ## One datagram -/

/-- `ntohs` of the two bytes at `i`. -/
def shortAt (buf : List UInt8) (i : Nat) : Nat := 256 * (buf.getD i 0).toNat + (buf.getD (i + 1) 0).toNat

def pktFileSize (buf : List UInt8) : Nat := 65536 * shortAt buf 6 + shortAt buf 8

/-- `GEN_ACK_PKT` -/
def upgradeResp : List UInt8 := [0, 6, 0x01, 0xa1, fwUpgradeCmd, 1, 0, 0]

/-- The case of `FW_UPGRADE_CMD`; `acked` when `DevSendCtrlMsg` returns 0. -/
def fwUpgradeProcess (acked : Bool) (addr : SocketInfo) (buf : List UInt8) (s : UdpSt) : UdpSt :=
  { s with
    tmr1Irq := false
    upgradeSocketInfo := addr
    ota := { s.ota with
      upgradeFlag := if acked then { s.ota.upgradeFlag with start := true } else {}
      fileSize := pktFileSize buf }
    sent := if acked then (addr, upgradeResp) :: s.sent else s.sent }

def udpDiscover (addr : SocketInfo) (s : UdpSt) : UdpSt :=
  { s with
    info := s.info.withVersion
    sent := (addr, (broadCastPacket false s.info (List.Vector.replicate 200 0)).getD []) :: s.sent }

def memOf (buf : List UInt8) : Mem := fun i => buf.getD i 0

def socketDispatchUDPRecvData (addr : SocketInfo) (pData : List UInt8) (s : UdpSt) : UdpDone :=
  if pData.getD 7 0 = 0x01 then ⟨.onboarding, { s with onb := udpDatagram (credentialsOf (memOf pData)) s.onb }⟩
  else if pData.getD 7 0 = 0x03 then ⟨.discovery, udpDiscover addr s⟩
  else ⟨.rejected, s⟩

/-- The length is that of a packet of the upload. -/
def otaFramed (buf : List UInt8) (readnum : Nat) : Prop := readnum = shortAt buf 0 + 2

instance (buf : List UInt8) (readnum : Nat) : Decidable (otaFramed buf readnum) := inferInstanceAs (Decidable (_ = _))

/-- What `Socket_DoUDPServer` does with a datagram of `readnum` bytes; no result
when the length field runs out of the memory. -/
def socketDoUDPServer (acked : Bool) (addr : SocketInfo) (readnum : Nat) (buf : List UInt8) (s : UdpSt) :
    Option UdpDone :=
  if otaFramed buf readnum then
    some ⟨.ota, if buf.getD 3 0 = fwUpgradeCmd then fwUpgradeProcess acked addr buf s else s⟩
  else
    (mqttParseRemLen (buf.drop 3)).map fun messagelen =>
      if messagelen.toNat + mqttNumRemLenBytes (buf.drop 4) + 4 ≠ readnum then ⟨.rejected, s⟩
      else if readnum < socketRecbufferLen then socketDispatchUDPRecvData addr buf s
      else ⟨.rejected, s⟩

/-! ## The datagram alone -/

structure UdpDatagram where
  bytes : List UInt8
  fits : bytes.length ≤ socketRecbufferLen

structure UdpRest (d : UdpDatagram) where
  residue : List UInt8
  fills : d.bytes.length + residue.length = socketRecbufferLen

def UdpDatagram.buf (d : UdpDatagram) (rest : UdpRest d) (after : List UInt8) : List UInt8 :=
  d.bytes ++ (rest.residue ++ after)

/-- Two runs on buffers that differ behind the datagram do the same. -/
def UdpDatagram.Own (d : UdpDatagram) (s : UdpSt) : Prop :=
  ∀ acked addr (rest₁ rest₂ : UdpRest d) after r₁ r₂,
    socketDoUDPServer acked addr d.bytes.length (d.buf rest₁ after) s = some r₁ →
      socketDoUDPServer acked addr d.bytes.length (d.buf rest₂ after) s = some r₂ → r₁ = r₂

def lengthRejected (buf : List UInt8) (readnum : Nat) : Prop :=
  ∀ messagelen, mqttParseRemLen (buf.drop 3) = some messagelen →
    messagelen.toNat + mqttNumRemLenBytes (buf.drop 4) + 4 ≠ readnum

def gateOpen (s : OnbSt Credentials) : Prop := s.udp = .idle ∧ s.onboarding = false ∧ s.status = .wifiSoftAp

/-- Both credentials are in the datagram, or the key has its NUL there. -/
def CredentialsInside (d : List UInt8) : Prop :=
  let passwdlength := 10 + (d.getD 9 0).toNat + 1
  passwdlength < d.length ∧
    (passwdlength + 1 + (d.getD passwdlength 0).toNat ≤ d.length ∨ 0 ∈ d.drop (passwdlength + 1))

/-- A packet of the upload has its command, and if that is to upgrade its size;
another datagram is rejected by its length whatever the buffer held, or it has
its command, and the credentials if these are taken. -/
def UdpDatagram.Clear (d : UdpDatagram) (s : UdpSt) : Prop :=
  if 2 ≤ d.bytes.length ∧ otaFramed d.bytes d.bytes.length then
    4 ≤ d.bytes.length ∧ (d.bytes.getD 3 0 = fwUpgradeCmd → 10 ≤ d.bytes.length)
  else
    (∀ (rest : UdpRest d) after, lengthRejected (d.buf rest after) d.bytes.length) ∨
      8 ≤ d.bytes.length ∧ (d.bytes.getD 7 0 = 0x01 → d.bytes.length < socketRecbufferLen → gateOpen s.onb →
        CredentialsInside d.bytes)

/-! ## Fields inside -/

section
variable {f : List UInt8} {s : UdpSt} {acked : Bool} {addr : SocketInfo}

theorem shortAt_front {i : Nat} (h : i + 1 < f.length) (rest : List UInt8) : shortAt (f ++ rest) i = shortAt f i := by
  unfold shortAt
  rw [getD_front (by omega), getD_front h]

theorem otaFramed_front (rest : List UInt8) :
    otaFramed (f ++ rest) f.length ↔ 2 ≤ f.length ∧ otaFramed f f.length := by
  unfold otaFramed
  rcases Nat.lt_or_ge f.length 2 with h | h
  · exact iff_of_false (by omega) (by omega)
  · rw [shortAt_front (by omega), and_iff_right h]

theorem fwUpgradeProcess_front (h : 10 ≤ f.length) (rest : List UInt8) :
    fwUpgradeProcess acked addr (f ++ rest) s = fwUpgradeProcess acked addr f s := by
  unfold fwUpgradeProcess pktFileSize
  rw [shortAt_front (by omega), shortAt_front (by omega)]

theorem credentials_front (h : CredentialsInside f) (rest : List UInt8) :
    credentialsOf (memOf (f ++ rest)) = credentialsOf (memOf f) := by
  obtain ⟨hlen, hkey⟩ := h
  have hat {i : Nat} (hi : i < f.length) : memOf (f ++ rest) i = memOf f i := getD_front hi rest
  have hnine : memOf (f ++ rest) 9 = memOf f 9 := hat (by omega)
  unfold credentialsOf
  dsimp only
  rw [hnine]
  change 10 + (memOf f 9).toNat + 1 < f.length at hlen
  change 10 + (memOf f 9).toNat + 1 + 1 + (memOf f (10 + (memOf f 9).toNat + 1)).toNat ≤ f.length ∨
    0 ∈ f.drop (10 + (memOf f 9).toNat + 1 + 1) at hkey
  rw [hat hlen]
  congr 1
  · exact fieldAt_congr fun k hk => hat (by omega)
  · rcases hkey with hle | h0
    · exact fieldAt_congr fun k hk => hat (by omega)
    · obtain ⟨k, hk, h0⟩ := List.getElem_of_mem h0
      rw [List.length_drop] at hk
      have hz : memOf f (10 + (memOf f 9).toNat + 1 + 1 + k) = 0 := by
        rw [← h0, List.getElem_drop]
        exact List.getD_eq_getElem _ _ _
      rcases Nat.lt_or_ge k (memOf f (10 + (memOf f 9).toNat + 1)).toNat with hlt | hge
      · rw [fieldAt_nul ((hat (by omega)).trans hz) hlt, fieldAt_nul hz hlt]
        exact fieldAt_congr fun j hj => hat (by omega)
      · exact fieldAt_congr fun j hj => hat (by omega)

theorem udpDatagram_open {s : OnbSt Credentials} (h : gateOpen s) (c : Credentials) :
    udpDatagram c s = udpOnboarding c s := if_pos h

theorem udpDatagram_closed {s : OnbSt Credentials} (h : ¬ gateOpen s) (c : Credentials) : udpDatagram c s = s :=
  if_neg h

theorem dispatch_front (h8 : 8 ≤ f.length) (hin : f.getD 7 0 = 0x01 → gateOpen s.onb → CredentialsInside f)
    (rest : List UInt8) : socketDispatchUDPRecvData addr (f ++ rest) s = socketDispatchUDPRecvData addr f s := by
  unfold socketDispatchUDPRecvData
  rw [getD_front (by omega)]
  split
  · rename_i h1
    by_cases hg : gateOpen s.onb
    · rw [udpDatagram_open hg, udpDatagram_open hg, credentials_front (hin h1 hg)]
    · rw [udpDatagram_closed hg, udpDatagram_closed hg]
  · rfl

theorem run_rejected {buf : List UInt8} {readnum : Nat} (hota : ¬ otaFramed buf readnum)
    (h : lengthRejected buf readnum)
    {r : UdpDone} (hr : socketDoUDPServer acked addr readnum buf s = some r) : r = ⟨.rejected, s⟩ := by
  unfold socketDoUDPServer at hr
  rw [if_neg hota] at hr
  obtain ⟨messagelen, hp, rfl⟩ := Option.map_eq_some_iff.mp hr
  rw [if_pos (h messagelen hp)]

end

/-- A datagram with all that counts inside is all that counts. -/
theorem own_of_clear {d : UdpDatagram} {s : UdpSt} (h : d.Clear s) : d.Own s := by
  intro acked addr rest₁ rest₂ after r₁ r₂ h₁ h₂
  unfold UdpDatagram.Clear at h
  by_cases hota : 2 ≤ d.bytes.length ∧ otaFramed d.bytes d.bytes.length
  · rw [if_pos hota] at h
    obtain ⟨h4, h10⟩ := h
    have hrun (rest : List UInt8) : socketDoUDPServer acked addr d.bytes.length (d.bytes ++ rest) s =
        some ⟨.ota, if d.bytes.getD 3 0 = fwUpgradeCmd then fwUpgradeProcess acked addr d.bytes s else s⟩ := by
      unfold socketDoUDPServer
      rw [if_pos ((otaFramed_front rest).mpr hota), getD_front (by omega)]
      split
      · rename_i hcmd
        rw [fwUpgradeProcess_front (h10 hcmd)]
      · rfl
    exact Option.some.inj (h₁.symm.trans ((hrun _).trans ((hrun _).symm.trans h₂)))
  · rw [if_neg hota] at h
    have hno (rest : List UInt8) : ¬ otaFramed (d.bytes ++ rest) d.bytes.length := mt (otaFramed_front rest).mp hota
    rcases h with hrej | ⟨h8, hin⟩
    · rw [run_rejected (hno _) (hrej rest₁ after) h₁, run_rejected (hno _) (hrej rest₂ after) h₂]
    · unfold socketDoUDPServer UdpDatagram.buf at h₁ h₂
      rw [if_neg (hno _)] at h₁ h₂
      obtain ⟨len₁, hp₁, rfl⟩ := Option.map_eq_some_iff.mp h₁
      obtain ⟨len₂, hp₂, rfl⟩ := Option.map_eq_some_iff.mp h₂
      have hat (rest : List UInt8) :
          mqttNumRemLenBytes ((d.bytes ++ rest).drop 4) = mqttNumRemLenBytes (d.bytes.drop 4) :=
        Nat.add_left_cancel (p0At_front h8 rest)
      rw [parseRemLen_same (by omega) hp₁ hp₂, hat, hat]
      split
      · rfl
      split
      · rename_i hlt
        rw [dispatch_front h8 fun h1 => hin h1 hlt, dispatch_front h8 fun h1 => hin h1 hlt]
      · rfl

/-! ## Fields outside -/

namespace UdpRest

variable {d : UdpDatagram}

def zero (d : UdpDatagram) : UdpRest d where
  residue := List.replicate (socketRecbufferLen - d.bytes.length) 0
  fills := by
    rw [List.length_replicate]
    exact Nat.add_sub_of_le d.fits

/-- Another byte at the place `p` of the buffer. -/
def put (rest : UdpRest d) (p : Nat) (x : UInt8) : UdpRest d where
  residue := rest.residue.set (p - d.bytes.length) x
  fills := by
    rw [List.length_set]
    exact rest.fills

theorem buf_put (rest : UdpRest d) (after : List UInt8) {p : Nat} (hp : d.bytes.length ≤ p)
    (h : p < socketRecbufferLen) (x : UInt8) : d.buf (rest.put p x) after = (d.buf rest after).set p x := by
  have hfills := rest.fills
  unfold UdpDatagram.buf put
  rw [List.set_append_right _ _ hp, List.set_append_left _ _ (by omega)]

theorem buf_length (rest : UdpRest d) (after : List UInt8) : socketRecbufferLen ≤ (d.buf rest after).length := by
  have hfills := rest.fills
  unfold UdpDatagram.buf
  rw [List.length_append, List.length_append]
  omega

theorem put_self (rest : UdpRest d) (after : List UInt8) {p : Nat} (hp : d.bytes.length ≤ p)
    (h : p < socketRecbufferLen) (x : UInt8) : (d.buf (rest.put p x) after).getD p 0 = x := by
  rw [rest.buf_put after hp h, getD_set_self (Nat.lt_of_lt_of_le h (rest.buf_length after))]

theorem put_ne (rest : UdpRest d) (after : List UInt8) {p q : Nat} (hp : d.bytes.length ≤ p)
    (h : p < socketRecbufferLen) (hne : p ≠ q) (x : UInt8) :
    (d.buf (rest.put p x) after).getD q 0 = (d.buf rest after).getD q 0 := by
  rw [rest.buf_put after hp h, getD_set_ne hne]

/-- Every byte can end a length field. -/
def Small (rest : UdpRest d) : Prop := ∀ c ∈ rest.residue, c &&& 128 = 0

theorem small_zero : (zero d).Small := by
  intro c hc
  rw [List.eq_of_mem_replicate hc]
  rfl

theorem Small.put {rest : UdpRest d} (h : rest.Small) (p : Nat) {x : UInt8} (hx : x &&& 128 = 0) :
    (rest.put p x).Small := by
  intro c hc
  rcases List.mem_or_eq_of_mem_set hc with hc | rfl
  · exact h c hc
  · exact hx

/-- A string of one letter behind its length, at `q`. -/
def oneLetter (d : UdpDatagram) (q : Nat) : UdpRest d := ((zero d).put q 1).put (q + 1) 0x61

theorem small_oneLetter (q : Nat) : (oneLetter d q).Small :=
  (small_zero.put q (by decide)).put (q + 1) (by decide)

theorem zero_getD {p : Nat} (hp : d.bytes.length ≤ p) : (d.buf (zero d) []).getD p 0 = 0 := by
  unfold UdpDatagram.buf
  rw [List.append_nil, List.getD_append_right _ _ _ _ hp]
  rcases Nat.lt_or_ge (p - d.bytes.length) (zero d).residue.length with h | h
  · rw [List.getD_eq_getElem _ _ h]
    exact List.getElem_replicate _
  · exact List.getD_eq_default _ _ h

end UdpRest

section
variable {d : UdpDatagram} {s : UdpSt}

theorem run_ota (hota : 2 ≤ d.bytes.length ∧ otaFramed d.bytes d.bytes.length) (addr : SocketInfo) (rest : UdpRest d)
    (after : List UInt8) : socketDoUDPServer true addr d.bytes.length (d.buf rest after) s =
      some ⟨.ota, if (d.buf rest after).getD 3 0 = fwUpgradeCmd then fwUpgradeProcess true addr (d.buf rest after) s
        else s⟩ := if_pos ((otaFramed_front _).mpr hota)

/-- The command of a packet of the upload, and the size. -/
theorem ota_inside (hota : 2 ≤ d.bytes.length ∧ otaFramed d.bytes d.bytes.length) (hown : d.Own s) :
    4 ≤ d.bytes.length ∧ (d.bytes.getD 3 0 = fwUpgradeCmd → 10 ≤ d.bytes.length) := by
  have h1024 : socketRecbufferLen = 1024 := rfl
  constructor
  · by_contra hlt
    have hone := UdpRest.put_self (UdpRest.zero d) [] (show d.bytes.length ≤ 3 by omega) (by omega) fwUpgradeCmd
    have heq := hown true ⟨0, 0⟩ _ _ [] _ _ (run_ota hota _ ((UdpRest.zero d).put 3 fwUpgradeCmd) [])
      (run_ota hota _ (UdpRest.zero d) [])
    rw [if_pos hone, if_neg (by rw [UdpRest.zero_getD (by omega)]; decide)] at heq
    have hsent := congrArg (fun r => r.st.sent.length) heq
    exact absurd hsent (Nat.succ_ne_self _)
  · intro hcmd
    by_contra hlt
    have hthree (rest : UdpRest d) : (d.buf rest []).getD 3 0 = fwUpgradeCmd := by
      unfold UdpDatagram.buf
      rw [getD_front, hcmd]
      by_contra h3
      rw [List.getD_eq_default _ _ (by omega)] at hcmd
      cases hcmd
    have heq := hown true ⟨0, 0⟩ _ _ [] _ _ (run_ota hota _ ((UdpRest.zero d).put 9 1) [])
      (run_ota hota _ (UdpRest.zero d) [])
    rw [if_pos (hthree _), if_pos (hthree _)] at heq
    have hsize := congrArg (fun r => r.st.ota.fileSize) heq
    unfold fwUpgradeProcess pktFileSize shortAt at hsize
    dsimp only at hsize
    have hself := (UdpRest.zero d).put_self [] (show d.bytes.length ≤ 9 by omega) (by omega) 1
    have hne {q : Nat} (hq : 9 ≠ q) :=
      (UdpRest.zero d).put_ne [] (show d.bytes.length ≤ 9 by omega) (by omega) hq 1
    rw [hself, UdpRest.zero_getD (show d.bytes.length ≤ 8 + 1 by omega), hne (q := 6) (by decide),
      hne (q := 6 + 1) (by decide), hne (q := 8) (by decide)] at hsize
    have h1 : (1 : UInt8).toNat = 1 := rfl
    have h0 : (0 : UInt8).toNat = 0 := rfl
    omega

theorem run_passed {addr : SocketInfo} {buf : List UInt8} {readnum : Nat} {messagelen : UInt16}
    (hota : ¬ otaFramed buf readnum) (hp : mqttParseRemLen (buf.drop 3) = some messagelen)
    (hm : messagelen.toNat + mqttNumRemLenBytes (buf.drop 4) + 4 = readnum) (hlt : readnum < socketRecbufferLen) :
    socketDoUDPServer true addr readnum buf s = some (socketDispatchUDPRecvData addr buf s) := by
  unfold socketDoUDPServer
  rw [if_neg hota, hp, Option.map_some, if_neg (not_not.mpr hm), if_pos hlt]

/-- A byte without the top bit ends the length field, if none does before it. -/
theorem parseRemLen_ends {buf : List UInt8} {c : UInt8} (hc : c ∈ buf.drop 4) (h0 : c &&& 128 = 0) :
    ∃ messagelen, mqttParseRemLen (buf.drop 3) = some messagelen := by
  obtain ⟨r, hr, -⟩ := remLenLoop_append [] hc h0 1 0
  refine ⟨r, ?_⟩
  unfold mqttParseRemLen
  rw [List.drop_drop]
  exact hr

/-- The command of a datagram that passes without it: any byte without the top bit. -/
theorem passes_seven {buf : List UInt8} {messagelen : UInt16} {x : UInt8} (hlen : 8 ≤ buf.length)
    (hp : mqttParseRemLen (buf.drop 3) = some messagelen)
    (hm : messagelen.toNat + mqttNumRemLenBytes (buf.drop 4) + 4 < 8) (hx : x &&& 128 = 0) :
    mqttParseRemLen ((buf.set 7 x).drop 3) = some messagelen ∧
      mqttNumRemLenBytes ((buf.set 7 x).drop 4) = mqttNumRemLenBytes (buf.drop 4) := by
  have h4 : (buf.set 7 x).drop 4 = (buf.drop 4).set 3 x := by
    rw [List.drop_set, if_neg (by omega)]
  have hl4 : 3 < (buf.drop 4).length := by
    rw [List.length_drop]
    omega
  constructor
  · obtain ⟨r, hr⟩ := @parseRemLen_ends (buf.set 7 x) x (h4 ▸ List.mem_set hl4 x) hx
    -- both begin with the same seven bytes
    have h7 : (buf.take 7).length = 7 := List.length_take_of_le (by omega)
    have hset : buf.set 7 x = buf.take 7 ++ (buf.drop 7).set 0 x := by
      conv_lhs => rw [← List.take_append_drop 7 buf, List.set_append_right _ _ (Nat.le_of_eq h7), h7]
    rw [hset] at hr ⊢
    rw [← List.take_append_drop 7 buf] at hp
    rw [hr, parseRemLen_same (Nat.le_of_eq h7.symm) hr hp]
  · have hx' : ¬ x &&& 0x80 = 0x80 := by
      rw [hx]
      decide
    rw [h4]
    unfold mqttNumRemLenBytes at hm ⊢
    rw [getD_set_ne (by decide), getD_set_ne (by decide), getD_set_self hl4, if_neg hx']
    by_cases h1 : (buf.drop 4).getD 1 0 &&& 0x80 = 0x80
    · by_cases h2 : (buf.drop 4).getD 2 0 &&& 0x80 = 0x80
      · -- the fourth byte has no top bit either, or the width alone would be too much
        have h3 : ¬ (buf.drop 4).getD 3 0 &&& 0x80 = 0x80 := by
          intro h3
          rw [if_pos h1, if_pos h2, if_pos h3] at hm
          omega
        rw [if_neg h3]
      · rw [if_neg h2, if_neg h2]
    · rw [if_neg h1, if_neg h1]

/-- A datagram that passes without its command is a discovery or none. -/
theorem command_inside (hota : ¬ (2 ≤ d.bytes.length ∧ otaFramed d.bytes d.bytes.length)) (hown : d.Own s)
    (rest : UdpRest d) (after : List UInt8) (h : ¬ lengthRejected (d.buf rest after) d.bytes.length) :
    8 ≤ d.bytes.length := by
  have h1024 : socketRecbufferLen = 1024 := rfl
  by_contra hlt
  unfold lengthRejected at h
  push Not at h
  obtain ⟨messagelen, hp, hm⟩ := h
  have hlen := rest.buf_length after
  have hrun (x : UInt8) (hx : x &&& 128 = 0) :
      socketDoUDPServer true ⟨0, 0⟩ d.bytes.length (d.buf (rest.put 7 x) after) s =
        some (socketDispatchUDPRecvData ⟨0, 0⟩ (d.buf (rest.put 7 x) after) s) := by
    obtain ⟨hp', hm'⟩ := passes_seven (show 8 ≤ (d.buf rest after).length by omega) hp (by omega) hx
    rw [← rest.buf_put after (by omega) (by omega)] at hp' hm'
    exact run_passed (mt (otaFramed_front _).mp hota) hp' (by rw [hm', hm]) (by omega)
  have heq := hown true ⟨0, 0⟩ _ _ after _ _ (hrun 0x03 (by decide)) (hrun 0 (by decide))
  unfold socketDispatchUDPRecvData at heq
  rw [rest.put_self after (by omega) (by omega), rest.put_self after (by omega) (by omega)] at heq
  cases congrArg UdpDone.branch heq

/-- A string behind the datagram: nothing, or the letter that was put there. -/
theorem behind_length {q : Nat} (hq : d.bytes.length ≤ q) (h : q + 1 < socketRecbufferLen) :
    (fieldAt (memOf (d.buf (.zero d) [])) (q + 1) (memOf (d.buf (.zero d) []) q).toNat).length = 0 ∧
      (fieldAt (memOf (d.buf (.oneLetter d q) [])) (q + 1) (memOf (d.buf (.oneLetter d q) []) q).toNat).length = 1 := by
  have h0 : memOf (d.buf (.zero d) []) q = 0 := UdpRest.zero_getD hq
  have h1 : memOf (d.buf (.oneLetter d q) []) q = 1 := by
    unfold memOf UdpRest.oneLetter
    rw [UdpRest.put_ne _ [] (by omega) h (by omega), UdpRest.put_self _ [] hq (by omega)]
  have hletter : memOf (d.buf (.oneLetter d q) []) (q + 1) = 0x61 := UdpRest.put_self _ [] (by omega) h 0x61
  rw [h0, h1]
  constructor
  · exact fieldAt_length (k := 0) (Nat.le_refl 0) (fun i hi => absurd hi (Nat.not_lt_zero i)) fun hlt =>
      absurd hlt (by decide)
  · refine fieldAt_length (k := 1) (Nat.le_refl 1) (fun i hi => ?_) fun hlt => absurd hlt (by decide)
    obtain rfl := Nat.lt_one_iff.mp hi
    rw [Nat.add_zero, hletter]
    decide

/-- Where the key is, when the length of the name is in the datagram. -/
theorem key_at (rest : UdpRest d) (h9 : 9 < d.bytes.length) :
    (credentialsOf (memOf (d.buf rest []))).key =
      fieldAt (memOf (d.buf rest [])) (10 + (d.bytes.getD 9 0).toNat + 1 + 1)
        (memOf (d.buf rest []) (10 + (d.bytes.getD 9 0).toNat + 1)).toNat := by
  have hnine : memOf (d.buf rest []) 9 = d.bytes.getD 9 0 := getD_front h9 _
  rw [← hnine]
  rfl

section
variable (h8 : 8 ≤ d.bytes.length) (hlt : d.bytes.length < socketRecbufferLen)
  (hota : ¬ (2 ≤ d.bytes.length ∧ otaFramed d.bytes d.bytes.length)) (hown : d.Own s)
  {rest : UdpRest d} {after : List UInt8} (hpass : ¬ lengthRejected (d.buf rest after) d.bytes.length)
  (hcmd : d.bytes.getD 7 0 = 0x01) (hgate : gateOpen s.onb)
include h8 hlt hota hown hpass hcmd hgate

/-- Whatever the buffer held, the credentials are the same. -/
theorem credentials_same {rest₁ rest₂ : UdpRest d} (h₁ : rest₁.Small) (h₂ : rest₂.Small) :
    credentialsOf (memOf (d.buf rest₁ [])) = credentialsOf (memOf (d.buf rest₂ [])) := by
  unfold lengthRejected at hpass
  push Not at hpass
  obtain ⟨messagelen, hp, hm⟩ := hpass
  have hnum (rest : List UInt8) : mqttNumRemLenBytes ((d.bytes ++ rest).drop 4) = mqttNumRemLenBytes (d.bytes.drop 4) :=
    Nat.add_left_cancel (p0At_front h8 rest)
  have hrun {rest' : UdpRest d} (hsmall : rest'.Small) :
      socketDoUDPServer true ⟨0, 0⟩ d.bytes.length (d.buf rest' []) s =
        some ⟨.onboarding, { s with onb := udpOnboarding (credentialsOf (memOf (d.buf rest' []))) s.onb }⟩ := by
    have hp' : mqttParseRemLen ((d.buf rest' []).drop 3) = some messagelen := by
      obtain ⟨c, hc⟩ := List.exists_mem_of_length_pos (l := rest'.residue) (by have := rest'.fills; omega)
      have hmem : c ∈ (d.buf rest' []).drop 4 := by
        unfold UdpDatagram.buf
        rw [List.drop_append_of_le_length (by omega), List.append_nil]
        exact List.mem_append_right _ hc
      obtain ⟨r, hr⟩ := parseRemLen_ends hmem (hsmall c hc)
      rw [hr, parseRemLen_same (by omega) hr hp]
    have hnota : ¬ otaFramed (d.buf rest' []) d.bytes.length := mt (otaFramed_front _).mp hota
    rw [run_passed hnota hp' ?_ hlt]
    · unfold socketDispatchUDPRecvData
      rw [if_pos, udpDatagram_open hgate]
      unfold UdpDatagram.buf
      rw [getD_front (by omega), hcmd]
    · unfold UdpDatagram.buf at hm ⊢
      rw [hnum] at hm ⊢
      exact hm
  exact congrArg (fun r => r.st.onb.cfg) (hown true ⟨0, 0⟩ _ _ [] _ _ (hrun h₁) (hrun h₂))

/-- The length of the name is in the datagram. -/
theorem name_inside : 9 < d.bytes.length := by
  by_contra hno
  have hlen := congrArg (fun c => c.ssid.length)
    (@credentials_same d s h8 hlt hota hown rest after hpass hcmd hgate _ _ UdpRest.small_zero
      (UdpRest.small_oneLetter 9))
  have h1024 : socketRecbufferLen = 1024 := rfl
  obtain ⟨h0, h1⟩ := behind_length (d := d) (q := 9) (by omega) (by omega)
  exact absurd (h0.symm.trans (hlen.trans h1)) (by decide)

/-- So is that of the key. -/
theorem keyLength_inside : 10 + (d.bytes.getD 9 0).toNat + 1 < d.bytes.length := by
  have h9 := @name_inside d s h8 hlt hota hown rest after hpass hcmd hgate
  have h256 := (d.bytes.getD 9 0).toNat_lt
  have h1024 : socketRecbufferLen = 1024 := rfl
  by_contra hno
  have hlen := congrArg (fun c => c.key.length)
    (@credentials_same d s h8 hlt hota hown rest after hpass hcmd hgate _ _ UdpRest.small_zero
      (UdpRest.small_oneLetter (10 + (d.bytes.getD 9 0).toNat + 1)))
  rw [key_at _ h9, key_at _ h9] at hlen
  obtain ⟨h0, h1⟩ := behind_length (d := d) (q := 10 + (d.bytes.getD 9 0).toNat + 1) (by omega) (by omega)
  exact absurd (h0.symm.trans (hlen.trans h1)) (by decide)

/-- And the key, up to its end or a NUL. -/
theorem key_inside (hq : 10 + (d.bytes.getD 9 0).toNat + 1 < d.bytes.length) :
    10 + (d.bytes.getD 9 0).toNat + 1 + 1 + (d.bytes.getD (10 + (d.bytes.getD 9 0).toNat + 1) 0).toNat ≤
        d.bytes.length ∨
      0 ∈ d.bytes.drop (10 + (d.bytes.getD 9 0).toNat + 1 + 1) := by
  have hsame := @credentials_same d s h8 hlt hota hown rest after hpass hcmd hgate
  by_contra hno
  obtain ⟨hlong, hnul⟩ := not_or.mp hno
  have h61 : (0x61 : UInt8) &&& 128 = 0 := by decide
  have hkeylen := congrArg (fun c => c.key.length) (hsame UdpRest.small_zero
    (UdpRest.small_zero.put d.bytes.length h61))
  rw [key_at _ (by omega), key_at _ (by omega)] at hkeylen
  generalize 10 + (d.bytes.getD 9 0).toNat + 1 = q at *
  have hfront {i : Nat} (rest : UdpRest d) (hi : i < d.bytes.length) : memOf (d.buf rest []) i = d.bytes.getD i 0 :=
    getD_front hi _
  have hbyte (rest : UdpRest d) (i : Nat) (hi : q + 1 + i < d.bytes.length) :
      memOf (d.buf rest []) (q + 1 + i) ≠ 0 := by
    rw [hfront rest hi, List.getD_eq_getElem _ _ hi]
    intro h0
    exact hnul (List.mem_drop_iff_getElem.mpr ⟨i, by omega, h0⟩)
  rw [hfront _ hq, hfront _ hq,
    fieldAt_length (k := d.bytes.length - (q + 1)) (by omega) (fun i hi => hbyte _ i (by omega)) fun _ => ?_,
    fieldAt_length (k := d.bytes.length + 1 - (q + 1)) (by omega) (fun i hi => ?_) fun _ => ?_] at hkeylen
  · omega
  · rcases Nat.lt_or_ge (q + 1 + i) d.bytes.length with hi' | hi'
    · exact hbyte _ i hi'
    · rw [show q + 1 + i = d.bytes.length by omega]
      unfold memOf
      rw [UdpRest.put_self _ [] (Nat.le_refl _) hlt]
      decide
  · rw [show q + 1 + (d.bytes.length + 1 - (q + 1)) = d.bytes.length + 1 by omega]
    unfold memOf
    rw [UdpRest.put_ne _ [] (Nat.le_refl _) hlt (by omega)]
    exact UdpRest.zero_getD (by omega)
  · rw [show q + 1 + (d.bytes.length - (q + 1)) = d.bytes.length by omega]
    exact UdpRest.zero_getD (Nat.le_refl _)

theorem credentials_inside : CredentialsInside d.bytes := by
  have hq := @keyLength_inside d s h8 hlt hota hown rest after hpass hcmd hgate
  exact ⟨hq, @key_inside d s h8 hlt hota hown rest after hpass hcmd hgate hq⟩

end

/-- **UDP**: a datagram is all that counts exactly when the fields that it is
asked for are inside. -/
theorem udp_own_datagram_iff (d : UdpDatagram) (s : UdpSt) : d.Own s ↔ d.Clear s := by
  refine ⟨fun hown => ?_, own_of_clear⟩
  unfold UdpDatagram.Clear
  by_cases hota : 2 ≤ d.bytes.length ∧ otaFramed d.bytes d.bytes.length
  · rw [if_pos hota]
    exact ota_inside hota hown
  · rw [if_neg hota]
    by_contra hno
    obtain ⟨hpass, hin⟩ := not_or.mp hno
    push Not at hpass
    obtain ⟨rest, after, hpass⟩ := hpass
    have h8 := command_inside hota hown rest after hpass
    exact hin ⟨h8, fun hcmd hlt hgate => credentials_inside h8 hlt hota hown hpass hcmd hgate⟩

end

def udpStart (flash : Flash) : UdpSt where
  ota := { flash }
  upgradeSocketInfo := ⟨0, 0⟩
  tmr1Irq := true
  onb := onbStart 0 .wifiSoftAp false ⟨[], []⟩ false
  info := blankInfo
  sent := []

/-- Two zero bytes: whether they start an upload is up to the byte that an
earlier datagram has left at the place of the command. -/
theorem udp_two_zeros : ¬ ∀ (d : UdpDatagram) (s : UdpSt), d.Own s := by
  intro h
  have hin := ota_inside (d := ⟨[0, 0], by decide⟩) (by decide) (h _ (udpStart blankFlash))
  exact absurd hin.1 (by decide)

end GizwitsSdk
