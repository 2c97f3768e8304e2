import GizwitsSdk.Lib.Buffer

/-!
# System parameters: `param.c`

`SysParam`, the setters that a join goes through and the one for the local name.
Those for the name and the key take their length in eight bits and refuse what is
too long for them, each in its own way. A pointer is the bytes from it on; a string that does not
end in them has no result.
-/

namespace GizwitsSdk

open Lib

structure WifiCfg where
  ssid : List.Vector UInt8 33
  ssidBrdEnable : UInt8
  phyMode : UInt8
  channel : UInt8
  encry : UInt8
  authMode : UInt8
  protocol : UInt8
  keyLength : UInt8
  keyIndex : UInt8
  psk : List.Vector UInt8 64
  wscEn : UInt8
  conTryTimes : UInt8
  wmmEn : UInt8

structure IpCfg where
  ip : List UInt8
  netmask : List UInt8
  gateWay : List UInt8
  dns : List UInt8
  bDhcp : UInt8
  dhcpTryTimes : UInt8

structure CfgParam where
  wiFiCfg : WifiCfg
  ipCfg : IpCfg
  bDhcpServer : UInt8
  bDnsServer : UInt8
  dnsName : List.Vector UInt8 33

def paramNetModeStaBss : UInt8 := 0
def paramNetModeSoftAp : UInt8 := 2
def paramNetModeMax : UInt8 := 3
def paramEncModeAuto : UInt8 := 4
def paramEncModeMax : UInt8 := 5

/-- A string in an array of zeros. -/
def arrayOf (n : Nat) (s : List UInt8) : List.Vector UInt8 n :=
  ⟨(s ++ List.replicate n 0).take n, by
    rw [List.length_take, List.length_append, List.length_replicate]
    omega⟩

def hexDigit (n : UInt8) : UInt8 := if n < 10 then 0x30 + n else 0x57 + n

/-- `%02x` -/
def hexByte (b : UInt8) : List UInt8 := [hexDigit (b / 16), hexDigit (b % 16)]

/-- `XPG-GAgent-` and the end of the address. -/
def defaultSsid (permanentAddress : List.Vector UInt8 6) : List UInt8 :=
  [0x58, 0x50, 0x47, 0x2d, 0x47, 0x41, 0x67, 0x65, 0x6e, 0x74, 0x2d] ++ (permanentAddress.1.drop 2).flatMap hexByte

/-- `123456789` -/
def defaultKey : List UInt8 := [0x31, 0x32, 0x33, 0x34, 0x35, 0x36, 0x37, 0x38, 0x39]

/-- `local.nufront` -/
def defaultDnsName : List UInt8 := [0x6c, 0x6f, 0x63, 0x61, 0x6c, 0x2e, 0x6e, 0x75, 0x66, 0x72, 0x6f, 0x6e, 0x74]

def infLoadDefaultParam (permanentAddress : List.Vector UInt8 6) : CfgParam where
  wiFiCfg :=
    { ssid := arrayOf 33 (defaultSsid permanentAddress)
      ssidBrdEnable := 1
      phyMode := 0
      channel := 11
      encry := 3
      authMode := 3
      protocol := 2
      keyLength := 9
      keyIndex := 0
      psk := arrayOf 64 defaultKey
      wscEn := 0
      conTryTimes := 0
      wmmEn := 0 }
  ipCfg :=
    { ip := [10, 10, 100, 254]
      netmask := [255, 255, 255, 0]
      gateWay := [10, 10, 100, 254]
      dns := [10, 10, 100, 254]
      bDhcp := 1
      dhcpTryTimes := 0 }
  bDhcpServer := 1
  bDnsServer := 1
  dnsName := arrayOf 33 defaultDnsName

/-! ## The setters -/

def CfgParam.withSsid (cfg : CfgParam) (ssid : List.Vector UInt8 33) : CfgParam :=
  { cfg with wiFiCfg := { cfg.wiFiCfg with ssid } }

def CfgParam.withKey (cfg : CfgParam) (keyIndex keyLength : UInt8) (psk : List.Vector UInt8 64) : CfgParam :=
  { cfg with wiFiCfg := { cfg.wiFiCfg with keyIndex, keyLength, psk } }

def infIpSet (ipParam : IpCfg) (cfg : CfgParam) : CfgParam := { cfg with ipCfg := ipParam }

def infConTryTimesSet (tryTimes : UInt8) (cfg : CfgParam) : CfgParam :=
  { cfg with wiFiCfg := { cfg.wiFiCfg with conTryTimes := tryTimes } }

def infNetModeSet (mode : UInt8) (cfg : CfgParam) : Int × CfgParam :=
  if paramNetModeMax ≤ mode then (-1, cfg) else (0, { cfg with wiFiCfg := { cfg.wiFiCfg with protocol := mode } })

def infEncModeSet (encMode : UInt8) (cfg : CfgParam) : Int × CfgParam :=
  if paramEncModeMax ≤ encMode then (-1, cfg) else (0, { cfg with wiFiCfg := { cfg.wiFiCfg with encry := encMode } })

def infSsidSet (pSsid : List UInt8) (ssidLen : UInt8) (cfg : CfgParam) : Option (Int × CfgParam) :=
  if 32 < ssidLen.toNat ∨ ssidLen.toNat = 0 then
    (put cfg.wiFiCfg.ssid 0 [0]).map fun ssid => (-1, cfg.withSsid ssid)
  else do
    let bytes ← slice pSsid 0 ssidLen.toNat
    let ssid ← put cfg.wiFiCfg.ssid 0 bytes
    let ssid ← put ssid ssidLen.toNat [0]
    return (0, cfg.withSsid ssid)

def infKeySet (index : UInt8) (keyBuf : List UInt8) (keyLen : UInt8) (cfg : CfgParam) : Option (Int × CfgParam) :=
  if 3 < index.toNat ∨ 64 < keyLen.toNat then some (-1, cfg)
  else do
    let bytes ← slice keyBuf 0 keyLen.toNat
    let psk ← put cfg.wiFiCfg.psk 0 bytes
    let psk ← if keyLen.toNat < 64 then put psk keyLen.toNat [0] else some psk
    return (0, cfg.withKey index keyLen psk)

/-- With a `DnsName` that may be `NULL`; no NUL is written. -/
def infDnsSrvSet (enable : UInt8) (dnsName : Option (List UInt8)) (dnsNameLen : UInt8) (cfg : CfgParam) :
    Option (Int × CfgParam) :=
  if enable ≠ 0 then
    dnsName.elim (some (-1, cfg)) fun dnsName =>
      if 32 < dnsNameLen.toNat then some (-1, cfg)
      else
        (slice dnsName 0 dnsNameLen.toNat).bind fun bytes =>
          (put cfg.dnsName 0 bytes).map fun dnsName => (0, { cfg with bDnsServer := 1, dnsName })
  else some (0, { cfg with bDnsServer := 0 })

/-- `DRV_WiFi_StationCustomModeStart`: the parameters that the join is started with. -/
def drvWiFiStationCustomModeStart (permanentAddress : List.Vector UInt8 6) (staSsid staPass : List UInt8) :
    Option CfgParam := do
  let cfg := infLoadDefaultParam permanentAddress
  let cfg := infIpSet ⟨[0, 0, 0, 0], [0, 0, 0, 0], [0, 0, 0, 0], [0, 0, 0, 0], 1, 0⟩ cfg
  let cfg := infConTryTimesSet 5 cfg
  let cfg := (infNetModeSet paramNetModeStaBss cfg).2
  let cfg := (infEncModeSet paramEncModeAuto cfg).2
  let ssidLen ← strlenIn staSsid
  let r ← infSsidSet staSsid (.ofNat ssidLen) cfg
  let keyLen ← strlenIn staPass
  let r ← infKeySet 0 staPass (.ofNat keyLen) r.2
  return r.2

/-! ## What the setters keep -/

/-- What `InfSsidSet` makes of a string: nothing of one that it refuses. -/
def takenSsid (s : List UInt8) : List UInt8 :=
  if 32 < s.length % 256 ∨ s.length % 256 = 0 then [] else s.take (s.length % 256)

/-- What `InfKeySet` makes of a string: the default of one that it refuses. -/
def takenKey (s : List UInt8) : List UInt8 := if 64 < s.length % 256 then defaultKey else s.take (s.length % 256)

/-- The parameters have the name and the key, each with its NUL, and the length of the key. -/
structure WifiCfg.Holds (w : WifiCfg) (ssid key : List UInt8) : Prop where
  ssid : (ssid ++ [0]) <+: w.ssid.1
  psk : (key ++ [0]) <+: w.psk.1
  keyLength : w.keyLength.toNat = key.length

section
variable {s t l : List UInt8}

/-- An array has one string. -/
theorem string_unique (hs : 0 ∉ s) (ht : 0 ∉ t) (hsl : (s ++ [0]) <+: l) (htl : (t ++ [0]) <+: l) : s = t := by
  obtain ⟨r, hr⟩ := hsl
  obtain ⟨r', hr'⟩ := htl
  rw [List.append_assoc, List.singleton_append] at hr hr'
  rw [← takeWhile_append_stop hs r, hr, ← hr', takeWhile_append_stop ht]

/-- The first bytes of a string in memory are those of the string. -/
theorem slice_string {n : Nat} (h0 : 0 ∈ l) (hn : n ≤ (l.takeWhile (· ≠ 0)).length) :
    slice l 0 n = some ((l.takeWhile (· ≠ 0)).take n) := by
  have hp := List.takeWhile_prefix (l := l) (· ≠ 0)
  rw [slice_of_le (by have := hp.length_le; omega), List.drop_zero]
  conv_lhs => rw [(split_at h0).1, List.take_append_of_le_length hn]

end

section
variable {l : List UInt8} {n : Nat}

/-- A length in eight bits. -/
theorem length8 (n : Nat) : (UInt8.ofNat n).toNat = n % 256 := UInt8.toNat_ofNat'

theorem infSsidSet_spec (h0 : 0 ∈ l) (cfg : CfgParam) :
    ∃ r ssid, infSsidSet l (.ofNat (l.takeWhile (· ≠ 0)).length) cfg = some (r, cfg.withSsid ssid) ∧
      (takenSsid (l.takeWhile (· ≠ 0)) ++ [0]) <+: ssid.1 := by
  unfold infSsidSet takenSsid
  rw [length8]
  split
  · obtain ⟨b, hp⟩ := put_of_le (i := 0) cfg.wiFiCfg.ssid [0] (by decide)
    exact ⟨-1, b, by rw [hp]; rfl, put_prefix hp⟩
  · rename_i hm
    have hle := Nat.mod_le (l.takeWhile (· ≠ 0)).length 256
    have hlen := List.length_take_of_le hle
    obtain ⟨b, hp, hpre⟩ := put_terminated cfg.wiFiCfg.ssid 0
      (s := (l.takeWhile (· ≠ 0)).take ((l.takeWhile (· ≠ 0)).length % 256)) (by omega)
    rw [hlen] at hp
    refine ⟨0, b, ?_, hpre⟩
    rw [slice_string h0 hle]
    obtain ⟨b₁, h₁, h₂⟩ := Option.bind_eq_some_iff.mp hp
    simp only [Option.bind_eq_bind, Option.bind_some, h₁, h₂]
    rfl

/-- The key goes with its length; there is room for its NUL up to 63 bytes. -/
theorem infKeySet_taken (h0 : 0 ∈ l) (h : (l.takeWhile (· ≠ 0)).length % 256 ≤ 64) (cfg : CfgParam) :
    ∃ psk, infKeySet 0 l (.ofNat (l.takeWhile (· ≠ 0)).length) cfg =
        some (0, cfg.withKey 0 (.ofNat (l.takeWhile (· ≠ 0)).length) psk) ∧
      ((takenKey (l.takeWhile (· ≠ 0))).length < 64 → (takenKey (l.takeWhile (· ≠ 0)) ++ [0]) <+: psk.1) := by
  have hle := Nat.mod_le (l.takeWhile (· ≠ 0)).length 256
  have hlen := List.length_take_of_le hle
  unfold infKeySet takenKey
  rw [length8, if_neg (by change ¬ (3 < 0 ∨ _); omega), if_neg (by omega), slice_string h0 hle, hlen]
  by_cases h64 : (l.takeWhile (· ≠ 0)).length % 256 < 64
  · obtain ⟨b, hp, hpre⟩ := put_terminated cfg.wiFiCfg.psk 0
      (s := (l.takeWhile (· ≠ 0)).take ((l.takeWhile (· ≠ 0)).length % 256)) (by omega)
    rw [hlen] at hp
    obtain ⟨b₁, h₁, h₂⟩ := Option.bind_eq_some_iff.mp hp
    refine ⟨b, ?_, fun _ => hpre⟩
    simp only [Option.bind_eq_bind, Option.bind_some, h₁, if_pos h64, h₂]
    rfl
  · obtain ⟨b, hp⟩ := put_of_le (i := 0) cfg.wiFiCfg.psk
      ((l.takeWhile (· ≠ 0)).take ((l.takeWhile (· ≠ 0)).length % 256)) (by omega)
    refine ⟨b, ?_, fun hlt => absurd hlt h64⟩
    simp only [Option.bind_eq_bind, Option.bind_some, hp, if_neg h64]
    rfl

theorem infKeySet_refused (h : 64 < (l.takeWhile (· ≠ 0)).length % 256) (cfg : CfgParam) :
    infKeySet 0 l (.ofNat (l.takeWhile (· ≠ 0)).length) cfg = some (-1, cfg) := by
  unfold infKeySet
  rw [length8, if_pos (.inr h)]

theorem takenSsid_nul (h0 : 0 ∈ l) : 0 ∉ takenSsid (l.takeWhile (· ≠ 0)) := by
  unfold takenSsid
  split
  · exact List.not_mem_nil
  · exact fun hm => (split_at h0).2 (List.mem_of_mem_take hm)

theorem takenKey_nul (h0 : 0 ∈ l) : 0 ∉ takenKey (l.takeWhile (· ≠ 0)) := by
  unfold takenKey
  split
  · decide
  · exact fun hm => (split_at h0).2 (List.mem_of_mem_take hm)

end

/-- The join is started with what the setters make of the two strings. -/
theorem stationCustomModeStart_spec (permanentAddress : List.Vector UInt8 6) {staSsid staPass : List UInt8}
    (hs : 0 ∈ staSsid) (hp : 0 ∈ staPass) :
    ∃ cfg, drvWiFiStationCustomModeStart permanentAddress staSsid staPass = some cfg ∧
      ∀ ssid key, 0 ∉ ssid → 0 ∉ key → key.length ≤ 63 → (cfg.wiFiCfg.Holds ssid key ↔
        ssid = takenSsid (staSsid.takeWhile (· ≠ 0)) ∧ key = takenKey (staPass.takeWhile (· ≠ 0))) := by
  unfold drvWiFiStationCustomModeStart strlenIn
  rw [if_pos hs, if_pos hp]
  extract_lets cfg₀ cfg₁ cfg₂ cfg₃ cfg₄
  have hpsk : cfg₄.wiFiCfg.psk = arrayOf 64 defaultKey := rfl
  have hlen : cfg₄.wiFiCfg.keyLength = 9 := rfl
  clear_value cfg₄
  obtain ⟨r, ssid, hssid, hpre⟩ := infSsidSet_spec hs cfg₄
  simp only [Option.bind_eq_bind, Option.bind_some, hssid]
  have hname (ssid' : List UInt8) (h0 : 0 ∉ ssid') :
      (ssid' ++ [0]) <+: ssid.1 ↔ ssid' = takenSsid (staSsid.takeWhile (· ≠ 0)) :=
    ⟨fun h => string_unique h0 (takenSsid_nul hs) h hpre, fun h => h ▸ hpre⟩
  by_cases h64 : 64 < (staPass.takeWhile (· ≠ 0)).length % 256
  · rw [infKeySet_refused h64]
    refine ⟨_, rfl, fun ssid' key h0 hk0 _ => ?_⟩
    rw [← hname ssid' h0]
    have hdef : takenKey (staPass.takeWhile (· ≠ 0)) = defaultKey := if_pos h64
    have harr : (defaultKey ++ [0]) <+: (arrayOf 64 defaultKey).1 := by decide
    constructor
    · intro h
      exact ⟨h.ssid, (string_unique hk0 (by decide) h.psk (hpsk ▸ harr)).trans hdef.symm⟩
    · rintro ⟨hn, rfl⟩
      rw [hdef]
      exact ⟨hn, hpsk ▸ harr, congrArg UInt8.toNat hlen⟩
  · obtain ⟨psk, hkey, hpk⟩ := infKeySet_taken hp (by omega) (cfg₄.withSsid ssid)
    rw [hkey]
    refine ⟨_, rfl, fun ssid' key h0 hk0 h63 => ?_⟩
    rw [← hname ssid' h0]
    have htl : (takenKey (staPass.takeWhile (· ≠ 0))).length = (staPass.takeWhile (· ≠ 0)).length % 256 := by
      unfold takenKey
      rw [if_neg h64, List.length_take_of_le (Nat.mod_le _ _)]
    have hkl : (UInt8.ofNat (staPass.takeWhile (· ≠ 0)).length).toNat =
        (takenKey (staPass.takeWhile (· ≠ 0))).length := (length8 _).trans htl.symm
    constructor
    · intro h
      have hlen' : _ = key.length := hkl.symm.trans h.keyLength
      exact ⟨h.ssid, string_unique hk0 (takenKey_nul hp) h.psk (hpk (by omega))⟩
    · rintro ⟨hn, rfl⟩
      exact ⟨hn, hpk (by omega), hkl⟩

theorem stationCustomModeStart_nul {permanentAddress : List.Vector UInt8 6} {staSsid staPass : List UInt8}
    {cfg : CfgParam} (h : drvWiFiStationCustomModeStart permanentAddress staSsid staPass = some cfg) :
    0 ∈ staSsid ∧ 0 ∈ staPass := by
  have hnul {l : List UInt8} {n : Nat} (hn : strlenIn l = some n) : 0 ∈ l := by
    by_contra h0
    unfold strlenIn at hn
    rw [if_neg h0] at hn
    cases hn
  unfold drvWiFiStationCustomModeStart at h
  simp only [Option.bind_eq_bind, Option.bind_eq_some_iff] at h
  obtain ⟨_, hs, _, -, _, hp, -⟩ := h
  exact ⟨hnul hs, hnul hp⟩

end GizwitsSdk
