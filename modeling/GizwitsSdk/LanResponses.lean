import GizwitsSdk.Lib.Buffer
import GizwitsSdk.P0Frame

/-!
# Responses to the local network

Four functions write a response to a buffer, each with a length of its own, and
send it. `Build_BroadCastPacket` without a version writes its default length
before there is a length of the DID to count from, and `GetWifiHotspots` has a
buffer of the size of the longest list.
-/

namespace GizwitsSdk

open Lib

structure LanInfo where
  did : List UInt8
  did_le : did.length ≤ 22
  serviceMac : List.Vector UInt8 6
  /-- `FirmwareVerLen[1]` -/
  firmwareVerLen : UInt8
  firmwareVer : List.Vector UInt8 32
  firmwareId : List.Vector UInt8 8
  hardVer : List.Vector UInt8 8
  softVer : List.Vector UInt8 8
  p0Ver : List.Vector UInt8 8
  productKey : List.Vector UInt8 32
  busiProtocolVer : List UInt8
  busi_le : busiProtocolVer.length ≤ 80
  wifihotspots : List UInt8
  hotspots_le : wifihotspots.length ≤ 1024

/-! ## The version -/

/-- `"V1.0"` -/
def defaultVersion : List UInt8 := [0x56, 0x31, 0x2e, 0x30]

def LanInfo.versionMissing (info : LanInfo) : Prop := 32 < info.firmwareVerLen.toNat ∨ info.firmwareVerLen.toNat = 0

instance (info : LanInfo) : Decidable info.versionMissing := inferInstanceAs (Decidable (_ ∨ _))

def tempFirmwareVerLen (info : LanInfo) : Nat := if info.versionMissing then 4 else info.firmwareVerLen.toNat

def LanInfo.withVersion (info : LanInfo) : LanInfo :=
  if info.versionMissing then
    { info with firmwareVer := ⟨defaultVersion ++ info.firmwareVer.1.drop 4, by
        rw [List.length_append, List.length_drop, info.firmwareVer.2]
        rfl⟩ }
  else info

def sentVersion (info : LanInfo) : List UInt8 := info.withVersion.firmwareVer.1.take (tempFirmwareVerLen info)

/-! ## Responses -/

def byteNine (b : List.Vector UInt8 200) : Nat := (b.1.getD 9 0).toNat

/-- The length of the default version, 19 bytes behind what `Udp_Broadcast[9]` holds before. -/
def strayLength (info : LanInfo) (b : List.Vector UInt8 200) : Option (List.Vector UInt8 200) :=
  if info.versionMissing then put b (9 + byteNine b + 2 + 8) [4] else some b

def buildBroadCastPacket (udpFlag : Bool) (info : LanInfo) (b : List.Vector UInt8 200) :
    Option (List.Vector UInt8 200) :=
  (strayLength info b).bind fun b =>
    (putAll b 0 [[0, 0, 0, 3],
      [.ofNat (1 + 2 + 2 + info.did.length + 2 + 6 + 2 + tempFirmwareVerLen info + 2 + 32)], [0],
      [0, if udpFlag then 0x05 else 0x04], [0, .ofNat info.did.length], info.did]).bind fun b =>
        putAll b (9 + byteNine b + 1) [[0, 6], info.serviceMac.1, [0, .ofNat (tempFirmwareVerLen info)],
          sentVersion info, [0, 32], info.productKey.1]

def broadCastPacket (udpFlag : Bool) (info : LanInfo) (b : List.Vector UInt8 200) : Option (List UInt8) :=
  (buildBroadCastPacket udpFlag info b).bind fun b => slice b.1 0 ((b.1.getD 4 0).toNat + 5)

/-- `"06NL6621"` and `"04000001"` -/
def wifiHardVer : List UInt8 := [0x30, 0x36, 0x4e, 0x4c, 0x36, 0x36, 0x32, 0x31]
def wifiSoftVar : List UInt8 := [0x30, 0x34, 0x30, 0x30, 0x30, 0x30, 0x30, 0x31]

def wifiInfoLen (info : LanInfo) : Nat := 4 + 1 + 1 + 2 + 8 * 6 + 2 + tempFirmwareVerLen info + 2 + 32

def getWifiInfo (info : LanInfo) : Option (List UInt8) :=
  (putAll (List.Vector.replicate (wifiInfoLen info) 0) 0 [[0, 0, 0, 3], [.ofNat (wifiInfoLen info - 5)], [0],
    [0, 0x14], wifiHardVer, wifiSoftVar, info.hardVer.1, info.softVer.1, info.p0Ver.1, info.firmwareId.1,
    [0, .ofNat (tempFirmwareVerLen info)], sentVersion info, [0, 32], info.productKey.1]).bind fun b =>
      slice b.1 0 (wifiInfoLen info)

-- the two bytes of the length are a quotient and a remainder by 255
def getWifiVersion (info : LanInfo) (b : List.Vector UInt8 100) : Option (List UInt8) :=
  let tempVarLen := 9 + info.busiProtocolVer.length
  let var := tran2varc (toShort tempVarLen)
  (putAll b 0 [[0, 0, 0, 3], var, [0], [0, 0x0b], [0, 0, 0, 3],
    [.ofNat (info.busiProtocolVer.length / 255), .ofNat (info.busiProtocolVer.length % 255)],
    info.busiProtocolVer]).bind fun b => slice b.1 0 (tempVarLen + var.length + 4)

/-- Nothing is sent of an empty list. -/
def getWifiHotspots (info : LanInfo) (b : List.Vector UInt8 1024) : Option (List UInt8) :=
  if info.wifihotspots.length = 0 then some []
  else
    let tempVarLen := 1 + 2 + info.wifihotspots.length
    let var := tran2varc (toShort tempVarLen)
    (putAll b 0 [[0, 0, 0, 3], var, [0], [0, 0x0d], info.wifihotspots]).bind fun b =>
      slice b.1 0 (4 + tempVarLen + var.length)

/-! ## The law -/

/-- A response whose length field counts the bytes behind it: a flag, a command and `body`. -/
def SelfFramed (r : List UInt8) (cmd : UInt8) (body : List UInt8) : Prop :=
  r.take 4 = [0, 0, 0, 3] ∧ ∃ len, mqttParseRemLen (r.drop 3) = some len ∧
    r.length = 4 + mqttNumRemLenBytes (r.drop 3) + len.toNat ∧
    r.drop (4 + mqttNumRemLenBytes (r.drop 3)) = [0, 0, cmd] ++ body

def LanInfo.version (info : LanInfo) : List UInt8 :=
  if info.versionMissing then defaultVersion else info.firmwareVer.1.take info.firmwareVerLen.toNat

structure LanLaw (info : LanInfo) (udpBroadcast : List.Vector UInt8 200) : Prop where
  broadcast : ∀ udpFlag, ∃ r body, broadCastPacket udpFlag info udpBroadcast = some r ∧
    SelfFramed r (if udpFlag then 0x05 else 0x04) body ∧
    readFields 4 body = some ([info.did, info.serviceMac.1, info.version, info.productKey.1], [])
  wifiInfo : ∃ r body, getWifiInfo info = some r ∧ SelfFramed r 0x14 body ∧
    body.take 48 = wifiHardVer ++ wifiSoftVar ++ info.hardVer.1 ++ info.softVer.1 ++ info.p0Ver.1 ++ info.firmwareId.1 ∧
    readFields 2 (body.drop 48) = some ([info.version, info.productKey.1], [])
  wifiVersion : ∀ b, ∃ r body, getWifiVersion info b = some r ∧ SelfFramed r 0x0b body ∧
    body.take 4 = [0, 0, 0, 3] ∧ readFields 1 (body.drop 4) = some ([info.busiProtocolVer], [])
  wifiHotspots : info.wifihotspots ≠ [] → ∀ b, ∃ r, getWifiHotspots info b = some r ∧
    SelfFramed r 0x0d info.wifihotspots

/-- There is a version or the byte in front of the DID is small already, and the list leaves room. -/
def LanClear (info : LanInfo) (udpBroadcast : List.Vector UInt8 200) : Prop :=
  (info.versionMissing → byteNine udpBroadcast ≤ 180) ∧ info.wifihotspots.length ≤ 1015

/-! ## Frames -/

theorem selfFramed_varint {cmd : UInt8} {body : List UInt8} (h : body.length + 3 < 16384) :
    SelfFramed ([0, 0, 0, 3] ++ (varint (body.length + 3) ++ ([0, 0, cmd] ++ body))) cmd body := by
  have hnum : mqttNumRemLenBytes (([0, 0, 0, 3] ++ (varint (body.length + 3) ++ ([0, 0, cmd] ++ body))).drop 3) =
      (varint (body.length + 3)).length := numRemLen_varint h
  refine ⟨rfl, _, datalen_frame h, ?_, ?_⟩
  · rw [hnum, UInt16.toNat_ofNat', Nat.mod_eq_of_lt (by omega)]
    simp only [List.length_append, List.length_cons, List.length_nil]
    omega
  · rw [hnum, ← List.append_assoc, List.drop_left']
    rw [List.length_append]
    rfl

section
variable (info : LanInfo)

theorem tempFirmwareVerLen_le : tempFirmwareVerLen info ≤ 32 := by
  unfold tempFirmwareVerLen
  split
  · decide
  · rename_i h
    exact Nat.not_lt.mp fun hlt => h (.inl hlt)

theorem sentVersion_eq : sentVersion info = info.version := by
  unfold sentVersion tempFirmwareVerLen LanInfo.withVersion LanInfo.version
  split
  · rfl
  · rfl

theorem version_length : info.version.length = tempFirmwareVerLen info := by
  rw [← sentVersion_eq]
  unfold sentVersion
  rw [List.length_take, info.withVersion.firmwareVer.2]
  exact Nat.min_eq_left (tempFirmwareVerLen_le info)

theorem broadcast_length : ([info.did, info.serviceMac.1, info.version, info.productKey.1].map field).flatten.length =
    46 + info.did.length + tempFirmwareVerLen info := by
  simp only [List.map_cons, List.map_nil, List.flatten_cons, List.flatten_nil, List.length_append, field,
    List.length_cons, List.length_nil, version_length, info.serviceMac.2, info.productKey.2]
  omega

theorem strayLength_some {b : List.Vector UInt8 200} (h : info.versionMissing → byteNine b ≤ 180) :
    ∃ b₁, strayLength info b = some b₁ := by
  unfold strayLength
  split
  · rename_i hm
    have := h hm
    exact put_of_le b _ (by rw [List.length_singleton]; omega)
  · exact ⟨b, rfl⟩

theorem broadCastPacket_eq (udpFlag : Bool) {b : List.Vector UInt8 200} (h : info.versionMissing → byteNine b ≤ 180) :
    broadCastPacket udpFlag info b = some ([0, 0, 0, 3] ++
      (varint (([info.did, info.serviceMac.1, info.version, info.productKey.1].map field).flatten.length + 3) ++
        ([0, 0, if udpFlag then 0x05 else 0x04] ++
          ([info.did, info.serviceMac.1, info.version, info.productKey.1].map field).flatten))) := by
  have hd := info.did_le
  have hf := tempFirmwareVerLen_le info
  have hv := version_length info
  have hmac := info.serviceMac.2
  have hkey := info.productKey.2
  obtain ⟨b₁, hb₁⟩ := strayLength_some info h
  have hlen : ([info.did, info.serviceMac.1, info.version, info.productKey.1].map field).flatten.length + 3 =
      1 + 2 + 2 + info.did.length + 2 + 6 + 2 + tempFirmwareVerLen info + 2 + 32 := by
    rw [broadcast_length]
    omega
  unfold broadCastPacket buildBroadCastPacket
  rw [hb₁, Option.bind_some, sentVersion_eq, ← hlen]
  generalize hhead : [[0, 0, 0, 3], [UInt8.ofNat
    (([info.did, info.serviceMac.1, info.version, info.productKey.1].map field).flatten.length + 3)], [0],
    [0, if udpFlag then 0x05 else 0x04], [0, UInt8.ofNat info.did.length], info.did] = head
  generalize htail : [[0, 6], info.serviceMac.1, [0, UInt8.ofNat (tempFirmwareVerLen info)], info.version, [0, 32],
    info.productKey.1] = tail
  have hheadlen : head.flatten.length = 9 + info.did.length + 1 := by
    rw [← hhead]
    simp only [List.flatten_cons, List.flatten_nil, List.length_append, List.length_cons, List.length_nil]
    omega
  have htaillen : tail.flatten.length = 44 + tempFirmwareVerLen info := by
    rw [← htail]
    simp only [List.flatten_cons, List.flatten_nil, List.length_append, List.length_cons, List.length_nil, hv, hmac,
      hkey]
    omega
  obtain ⟨b₂, hb₂, ht₂⟩ := putAll_start b₁ head (by omega)
  have hnine : byteNine b₂ = info.did.length := by
    unfold byteNine
    rw [getD_known ht₂ (by omega), ← hhead]
    exact ofNat_toNat_of_lt (by omega)
  have happ := putAll_append (i := 0) b₁ head tail
  rw [hb₂, Option.bind_some, hheadlen, Nat.zero_add] at happ
  rw [hb₂, Option.bind_some, hnine, happ]
  have htotal : (head ++ tail).flatten.length = 54 + info.did.length + tempFirmwareVerLen info := by
    rw [List.flatten_append, List.length_append]
    omega
  obtain ⟨b₃, hb₃, ht₃⟩ := putAll_start b₁ (head ++ tail) (by omega)
  have hfour : (b₃.1.getD 4 0).toNat + 5 = (head ++ tail).flatten.length := by
    rw [getD_known ht₃ (by omega), htotal, ← hhead]
    have h128 : (UInt8.ofNat (([info.did, info.serviceMac.1, info.version,
        info.productKey.1].map field).flatten.length + 3)).toNat = 49 + info.did.length + tempFirmwareVerLen info := by
      rw [hlen, ofNat_toNat_of_lt (by omega)]
      omega
    exact (congrArg (· + 5) h128).trans (by omega)
  rw [hb₃, Option.bind_some, hfour, slice_of_le (by rw [b₃.2]; omega), List.drop_zero, ht₃, Option.some_inj,
    varint_one (by omega), ← hhead, ← htail]
  simp [field_short, hmac, hkey, hv, show info.did.length < 256 by omega, show tempFirmwareVerLen info < 256 by omega]

theorem getWifiInfo_eq : getWifiInfo info = some ([0, 0, 0, 3] ++
    (varint ((wifiHardVer ++ wifiSoftVar ++ info.hardVer.1 ++ info.softVer.1 ++ info.p0Ver.1 ++ info.firmwareId.1 ++
      ([info.version, info.productKey.1].map field).flatten).length + 3) ++ ([0, 0, 0x14] ++
        (wifiHardVer ++ wifiSoftVar ++ info.hardVer.1 ++ info.softVer.1 ++ info.p0Ver.1 ++ info.firmwareId.1 ++
          ([info.version, info.productKey.1].map field).flatten)))) := by
  have hf := tempFirmwareVerLen_le info
  have hv := version_length info
  have hkey := info.productKey.2
  have hhard := info.hardVer.2
  have hsoft := info.softVer.2
  have hp0 := info.p0Ver.2
  have hid := info.firmwareId.2
  unfold getWifiInfo
  rw [sentVersion_eq]
  generalize hpieces : [[0, 0, 0, 3], [UInt8.ofNat (wifiInfoLen info - 5)], [0], [0, 0x14], wifiHardVer, wifiSoftVar,
    info.hardVer.1, info.softVer.1, info.p0Ver.1, info.firmwareId.1, [0, UInt8.ofNat (tempFirmwareVerLen info)],
    info.version, [0, 32], info.productKey.1] = pieces
  have hlen : pieces.flatten.length = wifiInfoLen info := by
    rw [← hpieces]
    unfold wifiInfoLen
    simp only [List.flatten_cons, List.flatten_nil, List.length_append, List.length_cons, List.length_nil, wifiHardVer,
      wifiSoftVar, hv, hkey, hhard, hsoft, hp0, hid]
    clear hv hkey hhard hsoft hp0 hid
    omega
  have hsent := putAll_slice (List.Vector.replicate (wifiInfoLen info) 0) pieces (Nat.le_of_eq hlen)
  rw [hlen] at hsent
  have hbody : (wifiHardVer ++ wifiSoftVar ++ info.hardVer.1 ++ info.softVer.1 ++ info.p0Ver.1 ++ info.firmwareId.1 ++
      ([info.version, info.productKey.1].map field).flatten).length + 3 = wifiInfoLen info - 5 := by
    unfold wifiInfoLen
    simp only [List.map_cons, List.map_nil, List.flatten_cons, List.flatten_nil, List.length_append, field,
      List.length_cons, List.length_nil, wifiHardVer, wifiSoftVar, hv, hkey, hhard, hsoft, hp0, hid]
    omega
  rw [hsent, Option.some_inj, hbody, varint_one (by unfold wifiInfoLen; omega), ← hpieces]
  simp [field_short, hkey, hv, show tempFirmwareVerLen info < 256 by omega]

theorem getWifiVersion_eq (b : List.Vector UInt8 100) : getWifiVersion info b = some ([0, 0, 0, 3] ++
    (varint (([0, 0, 0, 3] ++ field info.busiProtocolVer).length + 3) ++ ([0, 0, 0x0b] ++
      ([0, 0, 0, 3] ++ field info.busiProtocolVer)))) := by
  have hb := info.busi_le
  have hlen : ([0, 0, 0, 3] ++ field info.busiProtocolVer).length + 3 = 9 + info.busiProtocolVer.length := by
    simp only [List.length_append, field, List.length_cons, List.length_nil]
    omega
  have hvar : tran2varc (toShort ((9 + info.busiProtocolVer.length : Nat) : Int)) =
      varint (9 + info.busiProtocolVer.length) := by
    rw [toShort_small (by omega) (by omega), tran2varc_varint (by omega)]
  unfold getWifiVersion
  dsimp only
  rw [hvar, varint_one (by omega), hlen, varint_one (by omega), Nat.div_eq_of_lt (by omega),
    Nat.mod_eq_of_lt (by omega)]
  generalize hpieces : [[0, 0, 0, 3], [UInt8.ofNat (9 + info.busiProtocolVer.length)], [0], [0, 0x0b], [0, 0, 0, 3],
    [UInt8.ofNat 0, UInt8.ofNat info.busiProtocolVer.length], info.busiProtocolVer] = pieces
  have htotal : pieces.flatten.length = 9 + info.busiProtocolVer.length + 1 + 4 := by
    rw [← hpieces]
    simp only [List.flatten_cons, List.flatten_nil, List.length_append, List.length_cons, List.length_nil]
    omega
  have hsent := putAll_slice b pieces (by omega)
  rw [htotal] at hsent
  rw [List.length_singleton, hsent, Option.some_inj, ← hpieces]
  simp [field_short, show info.busiProtocolVer.length < 256 by omega]

theorem getWifiHotspots_pieces (hne : info.wifihotspots ≠ []) (b : List.Vector UInt8 1024) :
    getWifiHotspots info b =
      (put b 0 ([0, 0, 0, 3] ++ (varint (info.wifihotspots.length + 3) ++ ([0, 0, 0x0d] ++ info.wifihotspots)))).bind
        fun b => slice b.1 0 (7 + info.wifihotspots.length + (varint (info.wifihotspots.length + 3)).length) := by
  have hh := info.hotspots_le
  have hvar : tran2varc (toShort ((1 + 2 + info.wifihotspots.length : Nat) : Int)) =
      varint (info.wifihotspots.length + 3) := by
    rw [toShort_small (by omega) (by omega), tran2varc_varint (by omega), Nat.add_comm]
  unfold getWifiHotspots
  rw [if_neg (mt List.length_eq_zero_iff.mp hne)]
  dsimp only
  rw [hvar, putAll_eq b _ (Nat.zero_le _), show 4 + (1 + 2 + info.wifihotspots.length) = 7 + info.wifihotspots.length by
    omega]
  simp

end

/-! ## When the law holds -/

section
variable {info : LanInfo}

theorem strayLength_none {b : List.Vector UInt8 200} (hm : info.versionMissing) (h : 180 < byteNine b)
    (udpFlag : Bool) :
    broadCastPacket udpFlag info b = none := by
  unfold broadCastPacket buildBroadCastPacket strayLength
  rw [if_pos hm, put_none (by rw [List.length_singleton]; omega)]
  rfl

theorem hotspots_length (h : info.wifihotspots.length ≤ 1015) :
    ([0, 0, 0, 3] ++ (varint (info.wifihotspots.length + 3) ++ ([0, 0, 0x0d] ++ info.wifihotspots))).length ≤ 1024 := by
  have := varint_length_le (show info.wifihotspots.length + 3 < 16384 by omega)
  simp only [List.length_append, List.length_cons, List.length_nil]
  omega

theorem hotspots_none (h : 1015 < info.wifihotspots.length) (b : List.Vector UInt8 1024) :
    getWifiHotspots info b = none := by
  have hle := info.hotspots_le
  have hvar : (varint (info.wifihotspots.length + 3)).length = 2 := by
    rw [varint_length (by omega), if_neg (by omega)]
  rw [getWifiHotspots_pieces info (by rintro h0; rw [h0] at h; cases h) b, put_none]
  · rfl
  · simp only [List.length_append, List.length_cons, List.length_nil, hvar]
    omega

theorem getWifiHotspots_eq (hne : info.wifihotspots ≠ []) (h : info.wifihotspots.length ≤ 1015)
    (b : List.Vector UInt8 1024) : getWifiHotspots info b =
      some ([0, 0, 0, 3] ++ (varint (info.wifihotspots.length + 3) ++ ([0, 0, 0x0d] ++ info.wifihotspots))) := by
  have hlen := hotspots_length h
  have hsize : ([0, 0, 0, 3] ++ (varint (info.wifihotspots.length + 3) ++ ([0, 0, 0x0d] ++ info.wifihotspots))).length =
      7 + info.wifihotspots.length + (varint (info.wifihotspots.length + 3)).length := by
    simp only [List.length_append, List.length_cons, List.length_nil]
    omega
  obtain ⟨b', hp⟩ := put_of_le (i := 0) b _ (by rwa [Nat.zero_add])
  have ht := put_take hp
  rw [Nat.zero_add, List.take_zero, List.nil_append, hsize] at ht
  rw [getWifiHotspots_pieces info hne, hp, Option.bind_some, slice_of_le (by rw [b'.2]; omega), List.drop_zero, ht]

theorem version_short (info : LanInfo) : info.version.length < 65536 := by
  have := tempFirmwareVerLen_le info
  rw [version_length]
  omega

theorem lanClear_of_law {udpBroadcast : List.Vector UInt8 200} (h : LanLaw info udpBroadcast) :
    LanClear info udpBroadcast := by
  constructor
  · intro hm
    by_contra hnine
    obtain ⟨r, body, hr, -⟩ := h.broadcast false
    rw [strayLength_none hm (Nat.not_le.mp hnine)] at hr
    cases hr
  · by_contra hlong
    have hne : info.wifihotspots ≠ [] := by
      intro h0
      rw [h0] at hlong
      exact hlong (Nat.zero_le _)
    obtain ⟨r, hr, -⟩ := h.wifiHotspots hne (List.Vector.replicate 1024 0)
    rw [hotspots_none (Nat.not_le.mp hlong)] at hr
    cases hr

theorem lanLaw_of_clear {udpBroadcast : List.Vector UInt8 200} (h : LanClear info udpBroadcast) :
    LanLaw info udpBroadcast := by
  obtain ⟨hnine, hlong⟩ := h
  have hd := info.did_le
  have hf := tempFirmwareVerLen_le info
  have hv := version_short info
  have hkey : info.productKey.1.length < 65536 := by
    rw [info.productKey.2]
    decide
  have hmac : info.serviceMac.1.length < 65536 := by
    rw [info.serviceMac.2]
    decide
  have hids : (wifiHardVer ++ wifiSoftVar ++ info.hardVer.1 ++ info.softVer.1 ++ info.p0Ver.1 ++
      info.firmwareId.1).length = 48 := by
    simp only [List.length_append, info.hardVer.2, info.softVer.2, info.p0Ver.2, info.firmwareId.2]
    rfl
  constructor
  · intro udpFlag
    refine ⟨_, _, broadCastPacket_eq info udpFlag hnine, selfFramed_varint ?_, ?_⟩
    · rw [broadcast_length]
      omega
    · refine @readFields_all [info.did, info.serviceMac.1, info.version, info.productKey.1] ?_
      simp only [List.forall_mem_cons]
      exact ⟨by omega, hmac, hv, hkey, List.forall_mem_nil _⟩
  · refine ⟨_, _, getWifiInfo_eq info, selfFramed_varint ?_, List.take_left' hids, ?_⟩
    · rw [List.length_append, hids]
      simp only [List.map_cons, List.map_nil, List.flatten_cons, List.flatten_nil, List.length_append, field,
        List.length_cons, List.length_nil, version_length, info.productKey.2]
      omega
    · rw [List.drop_left' hids]
      refine @readFields_all [info.version, info.productKey.1] ?_
      simp only [List.forall_mem_cons]
      exact ⟨hv, hkey, List.forall_mem_nil _⟩
  · intro b
    have hb := info.busi_le
    refine ⟨_, _, getWifiVersion_eq info b, selfFramed_varint ?_, rfl, ?_⟩
    · simp only [List.length_append, field, List.length_cons, List.length_nil]
      omega
    · have hversion := readField_field (show info.busiProtocolVer.length < 65536 by omega) []
      rw [List.append_nil] at hversion
      change readFields 1 (field info.busiProtocolVer) = _
      rw [readFields, hversion]
      rfl
  · intro hne b
    exact ⟨_, getWifiHotspots_eq hne hlong b, selfFramed_varint (by omega)⟩

end

/-- **Responses**: they frame themselves exactly when the configuration and the buffer are clear. -/
theorem lan_responses_iff (info : LanInfo) (udpBroadcast : List.Vector UInt8 200) :
    LanLaw info udpBroadcast ↔ LanClear info udpBroadcast := ⟨lanClear_of_law, lanLaw_of_clear⟩

def blankInfo : LanInfo where
  did := []
  did_le := Nat.zero_le _
  serviceMac := List.Vector.replicate 6 0
  firmwareVerLen := 0
  firmwareVer := List.Vector.replicate 32 0
  firmwareId := List.Vector.replicate 8 0
  hardVer := List.Vector.replicate 8 0
  softVer := List.Vector.replicate 8 0
  p0Ver := List.Vector.replicate 8 0
  productKey := List.Vector.replicate 32 0
  busiProtocolVer := []
  busi_le := Nat.zero_le _
  wifihotspots := []
  hotspots_le := Nat.zero_le _

/-- It has no version, and the stack has not been cleared. -/
theorem broadcast_without_version : ¬ ∀ info udpBroadcast, LanLaw info udpBroadcast := by
  intro h
  obtain ⟨r, body, hr, -⟩ := (h blankInfo (List.Vector.replicate 200 0xff)).broadcast false
  rw [strayLength_none (.inr rfl) (by decide)] at hr
  cases hr

end GizwitsSdk
