import GizwitsSdk.CloudLogin
import GizwitsSdk.Lib.Buffer
import GizwitsSdk.Strip

/-!
# The bounds of a publication

`Mqtt_DispatchPublishPacket` copies the topic and the message of a packet out and
takes the topic apart. Here every access that it and what it calls make to the
packet, to its arrays, to the identifiers of the device and to the block of the
message is checked: a call has no result if one of them is outside.
-/

namespace GizwitsSdk

open Lib

/-- The arrays on the stack as the call finds them, and whether there is memory. -/
structure PublishEnv where
  topic : List.Vector UInt8 128
  didBuffer : List.Vector UInt8 32
  clientid : List.Vector UInt8 32
  memMalloc : Bool

/-- `DIdLen`, `g_Xpg_GlobalVar.DID`, `g_stGAgentConfigData.Cloud_DId` and `phoneClientId`. -/
structure DeviceIds where
  dIdLen : Nat
  did : List.Vector UInt8 24
  cloudDId : List.Vector UInt8 24
  phoneClientId : List.Vector UInt8 32

def ser2cliRes : List UInt8 := [0x73, 0x65, 0x72, 0x32, 0x63, 0x6c, 0x69, 0x5f, 0x72, 0x65, 0x73, 0x2f]

/-- The last of the control bytes behind the flags that `strip_data_parse` reads;
it logs the first one in any case. -/
def lastCtrl (attrFlags : UInt8) : Nat :=
  if isSet attrFlags 0x40 then 7
  else if isSet attrFlags 0x20 then 5
  else if isSet attrFlags 0x10 then 3
  else if isSet attrFlags 0x08 then 1
  else 0

namespace Checked

section
variable {n : Nat}

def mqttParsePubTopic (buf : List UInt8) (topic : List.Vector UInt8 128) :
    Option (UInt16 × List.Vector UInt8 128) :=
  match mqttParsePubTopicPtr buf with
  | (len, some ptr) =>
    -- the low byte of the length, in front of the topic, is the last of the header
    if buf.length < ptr then none
    else if len = 0 then some (len, topic)
    else (slice buf ptr len.toNat).bind fun src => (put topic 0 src).map fun topic => (len, topic)
  | (len, none) => some (len, topic)

def mqttParsePublishMsg (buf : List UInt8) (msg : List.Vector UInt8 n) :
    Option (UInt16 × List.Vector UInt8 n) :=
  (mqttParsePubMsgPtr buf).bind fun
    | (len, some ptr) =>
      if len = 0 then some (len, msg)
      else (slice buf ptr len.toNat).bind fun src => (put msg 0 src).map fun msg => (len, msg)
    | (len, none) => some (len, msg)

/-- `GAgentV4_CtlDev_with_p0` on the bytes from `data` on. -/
def gAgentV4CtlDevWithP0 (block : List UInt8) (data : Nat) (dataLen : UInt16) : Option Int :=
  if 4 * 1024 < dataLen.toNat then some (-1)
  else
    block[data + 1]?.bind fun attrFlags =>
      if attrFlags = 0 then some 0
      else block[data + 2 + lastCtrl attrFlags]?.map fun _ => 0

/-- `MQTT_DoCloudMCUCmd`; of the bytes that give the width of the length it reads three at most. -/
def mqttDoCloudMCUCmd (block : List UInt8) : Option Int :=
  if block.length ≤ 4 + min (mqttNumRemLenBytes (block.drop 4)) 3 then none
  else (GizwitsSdk.mqttDoCloudMCUCmd block).bind fun (data, dataLen) => gAgentV4CtlDevWithP0 block data dataLen

def takeDid (didBuffer : List.Vector UInt8 32) (i : Nat) (ids : DeviceIds) : Option DeviceIds :=
  if ids.dIdLen = 0 then do
    let did ← put (List.Vector.replicate 24 0) 0 (didBuffer.1.take i)
    let cloudDId ← put (List.Vector.replicate 24 0) 0 (didBuffer.1.take i)
    let cloudDId ← put cloudDId i [0]
    return { ids with dIdLen := i, did, cloudDId }
  else some ids

def takeClientId (pTemp : List UInt8) (clientid : List.Vector UInt8 32) (ids : DeviceIds) :
    Option DeviceIds := do
  let client ← copyUntil 0 pTemp clientid 0
  let clientid ← put client.dst client.next [0]
  let phoneClientId ← put ids.phoneClientId 0 (clientid.1.takeWhile (· ≠ 0) ++ [0])
  return { ids with phoneClientId }

def appTopic (pTemp : List UInt8) (env : PublishEnv) (ids : DeviceIds) : Option DeviceIds := do
  let did ← copyUntil 0x2f pTemp env.didBuffer 0
  let didBuffer ← put did.dst did.next [0]
  let ids ← takeDid didBuffer did.next ids
  takeClientId did.rest env.clientid ids

def takeTopic (buf : List UInt8) (topic : List.Vector UInt8 128) :
    Option (Nat × List.Vector UInt8 128) :=
  (mqttParsePubTopic buf topic).bind fun (len, topic) =>
    (put topic len.toNat [0]).map fun topic => (len.toNat, topic)

def mqttDispatchPublishPacket (buf : List UInt8) (env : PublishEnv) (ids : DeviceIds) :
    Option (Int × DeviceIds) := do
  let (topiclen, topic) ← takeTopic buf env.topic
  if !env.memMalloc then return (-1, ids)
  let (_, pHiP0Data) ← mqttParsePublishMsg buf (List.Vector.replicate (buf.length - topiclen) 0)
  let _cmd ← slice pHiP0Data.1 4 2
  if topic.1.take 8 = app2dev then
    let ids ← appTopic (topic.1.drop 8) env ids
    let _ ← mqttDoCloudMCUCmd pHiP0Data.1
    return (0, ids)
  else if topic.1.take 12 = ser2cliRes then return (-3, ids)
  else return (0, ids)

end

end Checked

/-! ## Publications -/

structure PublishPacket where
  bytes : List UInt8
  fits : bytes.length ≤ mqttSocketBufferLen
  accepted : ∃ packetLen buffer,
    mqttReadPacket mqttSocketBufferLen (.data bytes) = some (packetLen, buffer) ∧ 0 < packetLen
  publish : mqttParseMessageType bytes = 0x30

namespace PublishPacket

variable (p : PublishPacket)

def buffer : List UInt8 := p.bytes ++ List.replicate (mqttSocketBufferLen - p.bytes.length) 0

def remLen : Nat := ((mqttParseRemLen p.buffer).getD 0).toNat

def topicLen : Nat := (mqttParsePubTopicPtr p.bytes).1.toNat

def idSize : Nat := if mqttParseMessageQos p.bytes ≠ 0 then 2 else 0

def topicAt : Nat := 1 + mqttNumRemLenBytes p.bytes + 2

def topic : List UInt8 := (p.bytes.drop p.topicAt).take p.topicLen

/-- The block of the message: the message, and zeros up to its size. -/
def block : List UInt8 :=
  let msg := (p.bytes.drop (p.topicAt + p.topicLen + p.idSize)).take (p.remLen - (p.topicLen + 2 + p.idSize))
  msg ++ List.replicate (p.bytes.length - p.topicLen - msg.length) 0

end PublishPacket

/-- Whatever the call finds in the arrays and the allocator answers, it stays in bounds. -/
def PublishInBounds (p : PublishPacket) (dIdLen : Nat) : Prop :=
  ∀ env ids, ids.dIdLen = dIdLen → (Checked.mqttDispatchPublishPacket p.bytes env ids).isSome = true

/-- A topic from the DID on: a DID and the name of a client that fit. -/
structure AppTopicFits (t : List UInt8) (dIdLen : Nat) : Prop where
  slash : 0x2f ∈ t
  did : (t.takeWhile (· ≠ 0x2f)).length ≤ if dIdLen = 0 then 23 else 31
  client : (((t.dropWhile (· ≠ 0x2f)).drop 1).takeWhile (· ≠ 0)).length ≤ 31

/-- The flags, and the control bytes that they name, are in the block. -/
def ControlFits (block : List UInt8) : Prop :=
  ∀ data dataLen, mqttDoCloudMCUCmd block = some (data, dataLen) → dataLen.toNat ≤ 4 * 1024 →
    data + 1 < block.length ∧
      (block.getD (data + 1) 0 ≠ 0 → data + 2 + lastCtrl (block.getD (data + 1) 0) < block.length)

structure PublishFits (p : PublishPacket) (dIdLen : Nat) : Prop where
  topic : p.topicLen ≤ 127
  message : p.topicLen + 2 + p.idSize ≤ p.remLen
  command : p.topicLen + 6 ≤ p.bytes.length
  app : p.topic.take 8 = app2dev → AppTopicFits (p.topic.drop 8) dIdLen ∧ ControlFits p.block

/-! ## What the packet declares -/

theorem numRemLen_zeros (l : List UInt8) (k : Nat) :
    mqttNumRemLenBytes (l ++ List.replicate k 0) = mqttNumRemLenBytes l := by
  unfold mqttNumRemLenBytes
  simp only [getD_zeros]

theorem remLenLoop_append {xs : List UInt8} (ys : List UInt8) {d : UInt8} (hd : d ∈ xs) (h0 : d &&& 128 = 0)
    (m v : UInt16) : ∃ r, remLenLoop xs m v = some r ∧ remLenLoop (xs ++ ys) m v = some r := by
  induction xs generalizing m v with
  | nil => cases hd
  | cons x xs ih =>
    unfold remLenLoop
    simp only [List.cons_append]
    by_cases hx : x &&& 128 = 0
    · rw [if_neg (not_not.mpr hx), if_neg (not_not.mpr hx)]
      exact ⟨_, rfl, rfl⟩
    · rw [if_pos hx, if_pos hx]
      rcases List.mem_cons.mp hd with rfl | hd
      · exact absurd h0 hx
      · exact ih hd _ _

theorem numRemLen_le (buf : List UInt8) : mqttNumRemLenBytes buf ≤ 4 := by
  unfold mqttNumRemLenBytes
  split
  · split
    · split <;> decide
    · decide
  · decide

theorem numRemLen_end (buf : List UInt8) : 1 ≤ mqttNumRemLenBytes buf ∧
    (mqttNumRemLenBytes buf = 4 ∨ (buf.getD (mqttNumRemLenBytes buf) 0).toNat < 128) := by
  have hlt {b : UInt8} (h : ¬ b &&& 0x80 = 0x80) : b.toNat < 128 := Nat.not_le.mp (mt (top_bit_eq b).mpr h)
  unfold mqttNumRemLenBytes
  split
  · split
    · split
      · exact ⟨by decide, .inl rfl⟩
      · exact ⟨by decide, .inr (hlt ‹_›)⟩
    · exact ⟨by decide, .inr (hlt ‹_›)⟩
  · exact ⟨by decide, .inr (hlt ‹_›)⟩

namespace PublishPacket

variable (p : PublishPacket)

theorem remLen_le : 1 + mqttNumRemLenBytes p.bytes + p.remLen ≤ p.bytes.length := by
  obtain ⟨packetLen, buffer, ha, h0⟩ := p.accepted
  unfold mqttReadPacket at ha
  dsimp only at ha
  split at ha
  · obtain ⟨rfl, -⟩ := Prod.mk.inj (Option.some.inj ha)
    exact absurd h0 (by decide)
  · split at ha
    · cases ha
    · rename_i messageLen hm
      split at ha
      · obtain ⟨rfl, -⟩ := Prod.mk.inj (Option.some.inj ha)
        exact absurd h0 (by decide)
      · rename_i hl
        unfold packetLength at hl
        rw [numRemLen_zeros] at hl
        unfold remLen PublishPacket.buffer
        rw [hm, Option.getD_some]
        omega

theorem topicPtr : mqttParsePubTopicPtr p.bytes = (UInt16.ofNat p.topicLen, some p.topicAt) := by
  have h : (mqttParsePubTopicPtr p.bytes).2 = some p.topicAt := by
    unfold mqttParsePubTopicPtr
    rw [if_pos p.publish]
    rfl
  unfold topicLen
  rw [UInt16.ofNat_toNat, ← h]

theorem topicLen_lt : p.topicLen < 65536 := UInt16.toNat_lt _

theorem topicLen_eq : p.topicLen =
    256 * (p.bytes.getD (1 + mqttNumRemLenBytes p.bytes) 0).toNat +
      (p.bytes.getD (1 + mqttNumRemLenBytes p.bytes + 1) 0).toNat := by
  unfold topicLen mqttParsePubTopicPtr
  rw [if_pos p.publish]
  exact be16_toNat _ _

/-- The length field ends inside the packet if the topic is short. -/
theorem parseRemLen (ht : p.topicLen ≤ 127) (ha : p.topicAt ≤ p.bytes.length) :
    ∃ r, mqttParseRemLen p.bytes = some r ∧ r.toNat = p.remLen := by
  have hdigit : ∃ d ∈ p.bytes.drop 1, d &&& 128 = 0 := by
    have hmem {i : Nat} (hi : 0 < i) (hl : i < p.bytes.length) : p.bytes.getD i 0 ∈ p.bytes.drop 1 := by
      have h := @getD_mem (p.bytes.drop 1) (i - 1) (by rw [List.length_drop]; omega)
      rwa [getD_drop, show 1 + (i - 1) = i by omega] at h
    have htop := p.topicLen_eq
    have hzero {b : UInt8} (hb : b.toNat < 128) : b &&& 128 = 0 := by
      by_contra h
      exact absurd ((top_bit_ne b).mp h) (Nat.not_le.mpr hb)
    obtain ⟨h1, h4⟩ := numRemLen_end p.bytes
    unfold topicAt at ha
    rcases h4 with h4 | h4
    · exact ⟨_, hmem (i := 1 + mqttNumRemLenBytes p.bytes) (by omega) (by omega), hzero (by omega)⟩
    · exact ⟨_, hmem (i := mqttNumRemLenBytes p.bytes) (by omega) (by omega), hzero h4⟩
  obtain ⟨d, hd, h0⟩ := hdigit
  obtain ⟨r, h1, h2⟩ :=
    remLenLoop_append (List.replicate (mqttSocketBufferLen - p.bytes.length) 0) hd h0 1 0
  refine ⟨r, h1, ?_⟩
  have hb : mqttParseRemLen p.buffer = some r := by
    unfold mqttParseRemLen PublishPacket.buffer
    rw [List.drop_append_of_le_length (by unfold topicAt at ha; omega)]
    exact h2
  unfold remLen
  rw [hb, Option.getD_some]

/-! ## The topic and the message -/

theorem takeTopic_eq (topic : List.Vector UInt8 128) : Checked.takeTopic p.bytes topic =
    if p.topicAt + p.topicLen ≤ p.bytes.length then
      (put topic 0 (p.topic ++ [0])).map fun topic => (p.topicLen, topic)
    else none := by
  have hlen : (UInt16.ofNat p.topicLen).toNat = p.topicLen := u16_toNat p.topicLen_lt
  unfold Checked.takeTopic Checked.mqttParsePubTopic
  rw [p.topicPtr]
  dsimp only
  by_cases hp : p.bytes.length < p.topicAt
  · rw [if_pos hp, if_neg (by omega)]
    rfl
  · rw [if_neg hp]
    by_cases h0 : p.topicLen = 0
    · have ht : p.topic = [] := by
        unfold PublishPacket.topic
        rw [h0, List.take_zero]
      have hz : UInt16.ofNat p.topicLen = 0 := by rw [h0]; rfl
      rw [if_pos hz, if_pos (by omega), ht, Option.bind_some, hlen, h0, List.nil_append]
    · have hz : UInt16.ofNat p.topicLen ≠ 0 := fun h => h0 (by rw [← hlen, h]; rfl)
      rw [if_neg hz, hlen]
      by_cases hs : p.topicAt + p.topicLen ≤ p.bytes.length
      · have ht : p.topic.length = p.topicLen := by
          unfold PublishPacket.topic
          rw [List.length_take, List.length_drop]
          omega
        have happ := @put_append _ _ topic 0 p.topic [0]
        rw [Nat.zero_add, ht] at happ
        rw [slice_of_le hs, if_pos hs, ← happ, Option.bind_some, Option.map_bind, Option.bind_map]
        simp only [Function.comp, hlen]
        rfl
      · rw [slice_none hs, if_neg hs]
        rfl

theorem topic_length (h : p.topicAt + p.topicLen ≤ p.bytes.length) : p.topic.length = p.topicLen := by
  unfold PublishPacket.topic
  rw [List.length_take, List.length_drop]
  omega

theorem pubMsgPtr (ht : p.topicLen ≤ 127) (ha : p.topicAt ≤ p.bytes.length) :
    ∃ len : UInt16, mqttParsePubMsgPtr p.bytes = some (len, some (p.topicAt + p.topicLen + p.idSize)) ∧
      len.toNat = (p.remLen + 65536 - (p.topicLen + 2 + p.idSize)) % 65536 := by
  obtain ⟨r, hr, hrem⟩ := p.parseRemLen ht ha
  have htop := p.topicLen_eq
  have hrlb := numRemLen_le p.bytes
  have hid : p.idSize ≤ 2 := by unfold idSize; split <;> decide
  have hhigh : p.bytes.getD (1 + mqttNumRemLenBytes p.bytes) 0 = 0 := by
    apply UInt8.toNat_inj.mp
    show _ = 0
    omega
  have hlow : (p.bytes.getD (1 + mqttNumRemLenBytes p.bytes + 1) 0).toNat = p.topicLen := by
    rw [htop, hhigh]
    exact (Nat.zero_add _).symm
  -- the low byte of the place of the message, which is all of it here
  have hoff (q : Nat) (hq : q ≤ 2) :
      (((p.bytes.getD (1 + mqttNumRemLenBytes p.bytes) 0).toUInt16 <<< 8).toUInt8 |||
          p.bytes.getD (1 + mqttNumRemLenBytes p.bytes + 1) 0) + .ofNat (1 + mqttNumRemLenBytes p.bytes + 2) +
        .ofNat q = UInt8.ofNat (p.topicAt + p.topicLen + q) := by
    have h0 : ((0 : UInt8).toUInt16 <<< 8).toUInt8 = 0 := by decide
    rw [hhigh, h0, UInt8.zero_or]
    apply UInt8.toNat_inj.mp
    unfold topicAt
    rw [UInt8.toNat_add, UInt8.toNat_add, hlow, ofNat_toNat_of_lt (by omega), ofNat_toNat_of_lt (by omega),
      ofNat_toNat_of_lt (by omega)]
    omega
  have hlen (q : Nat) (hq : q ≤ 2) :
      (r - ((UInt8.ofNat (p.topicAt + p.topicLen + q)).toUInt16 -
        .ofNat (mqttNumRemLenBytes p.bytes + 1))).toNat = (p.remLen + 65536 - (p.topicLen + 2 + q)) % 65536 := by
    have hr' := r.toNat_lt
    unfold topicAt
    rw [UInt16.toNat_sub, UInt16.toNat_sub, UInt8.toNat_toUInt16, ofNat_toNat_of_lt (by omega),
      u16_toNat (by omega), hrem]
    omega
  unfold mqttParsePubMsgPtr
  rw [if_pos p.publish, hr]
  dsimp only
  rw [Option.map_some]
  unfold idSize
  by_cases hq : mqttParseMessageQos p.bytes ≠ 0
  · have h2 := hoff 2 (by decide)
    rw [if_pos hq, if_pos hq, show (2 : UInt8) = .ofNat 2 from rfl, h2]
    refine ⟨_, ?_, hlen 2 (by decide)⟩
    rw [ofNat_toNat_of_lt (by unfold topicAt; omega)]
  · have h0 := hoff 0 (by decide)
    rw [show (UInt8.ofNat 0) = 0 from rfl, UInt8.add_zero] at h0
    rw [if_neg hq, if_neg hq, h0]
    refine ⟨_, ?_, hlen 0 (by decide)⟩
    rw [ofNat_toNat_of_lt (by unfold topicAt; omega)]

theorem msg_fits (hm : p.topicLen + 2 + p.idSize ≤ p.remLen) :
    p.topicAt + p.topicLen + p.idSize + (p.remLen - (p.topicLen + 2 + p.idSize)) ≤ p.bytes.length := by
  have := p.remLen_le
  unfold topicAt
  omega

theorem remLen_lt : p.remLen < 65536 := UInt16.toNat_lt _

theorem publishMsg_of (ht : p.topicLen ≤ 127) (hm : p.topicLen + 2 + p.idSize ≤ p.remLen) :
    ∃ len msg, Checked.mqttParsePublishMsg p.bytes
      (List.Vector.replicate (p.bytes.length - p.topicLen) 0) = some (len, msg) ∧ msg.1 = p.block := by
  have hfit := p.msg_fits hm
  have hlt := p.remLen_lt
  obtain ⟨len, hptr, hlen⟩ := p.pubMsgPtr ht (by omega)
  have hle : len.toNat = p.remLen - (p.topicLen + 2 + p.idSize) := by omega
  unfold Checked.mqttParsePublishMsg block
  rw [hptr, Option.bind_some]
  dsimp only
  by_cases h0 : len = 0
  · have hz : p.remLen - (p.topicLen + 2 + p.idSize) = 0 := by
      rw [← hle, h0]
      rfl
    rw [if_pos h0, hz, List.take_zero]
    exact ⟨_, _, rfl, rfl⟩
  · rw [if_neg h0, hle, slice_of_le hfit, Option.bind_some]
    have hsrc : ((p.bytes.drop (p.topicAt + p.topicLen + p.idSize)).take
        (p.remLen - (p.topicLen + 2 + p.idSize))).length = p.remLen - (p.topicLen + 2 + p.idSize) := by
      rw [List.length_take, List.length_drop]
      omega
    obtain ⟨msg, hp⟩ := put_of_le (i := 0) (List.Vector.replicate (p.bytes.length - p.topicLen) (0 : UInt8))
      ((p.bytes.drop (p.topicAt + p.topicLen + p.idSize)).take
        (p.remLen - (p.topicLen + 2 + p.idSize))) (by omega)
    rw [hp]
    refine ⟨_, _, rfl, ?_⟩
    rw [(put_toList hp).2]
    show _ ++ (_ ++ (List.replicate _ _).drop _) = _
    rw [List.take_zero, List.nil_append, List.drop_replicate, Nat.zero_add]

theorem publishMsg_none (ht : p.topicLen ≤ 127) (ha : p.topicAt ≤ p.bytes.length)
    (hm : ¬ p.topicLen + 2 + p.idSize ≤ p.remLen) {n : Nat} (msg : List.Vector UInt8 n) :
    Checked.mqttParsePublishMsg p.bytes msg = none := by
  have hfit := p.fits
  have hid : p.idSize ≤ 2 := by unfold idSize; split <;> decide
  obtain ⟨len, hptr, hlen⟩ := p.pubMsgPtr ht ha
  have hbig : 2048 < len.toNat := by omega
  have h0 : len ≠ 0 := by
    rintro rfl
    exact absurd hbig (by decide)
  unfold Checked.mqttParsePublishMsg
  rw [hptr, Option.bind_some]
  dsimp only
  unfold mqttSocketBufferLen at hfit
  rw [if_neg h0, slice_none (by omega)]
  rfl

/-! ## The topic from the DID on -/

end PublishPacket

section
variable {env : PublishEnv} {ids : DeviceIds} {t : List UInt8}

theorem appTopic_none (h : 0x2f ∉ t) : Checked.appTopic t env ids = none := by
  unfold Checked.appTopic
  rw [copyUntil_none h]
  rfl

theorem takeDid_isSome (didBuffer : List.Vector UInt8 32) {i : Nat} (hi : i ≤ 31) :
    (Checked.takeDid didBuffer i ids).isSome ↔ (ids.dIdLen = 0 → i ≤ 23) := by
  unfold Checked.takeDid
  by_cases h0 : ids.dIdLen = 0
  · rw [if_pos h0]
    have hlen : (didBuffer.1.take i).length = i := by
      rw [List.length_take, didBuffer.2]
      omega
    have himp : (ids.dIdLen = 0 → i ≤ 23) ↔ i ≤ 23 := ⟨fun h => h h0, fun h _ => h⟩
    simp only [Option.bind_eq_bind]
    rw [bind_isSome fun _ _ => bind_isSome fun _ _ => (bind_isSome fun _ _ => iff_true_intro rfl).trans
      (and_congr_left' put_isSome), put_isSome, hlen, himp]
    simp only [List.length_singleton, and_true]
    omega
  · rw [if_neg h0]
    simp [h0]

theorem takeClientId_isSome (hv : 0 ∈ t) (clientid : List.Vector UInt8 32) :
    (Checked.takeClientId t clientid ids).isSome ↔ (t.takeWhile (· ≠ 0)).length ≤ 31 := by
  obtain ⟨hs, hn⟩ := split_at hv
  unfold Checked.takeClientId
  simp only [Option.bind_eq_bind]
  conv_lhs => rw [hs]
  refine (copyUntil_isSome (P := (t.takeWhile (· ≠ 0)).length + 1 ≤ 32) hn _ clientid 0
    fun c b' hb _ _ => ?_).trans (by omega)
  -- `strcpy` reads back what has been copied
  have hread : b'.1.takeWhile (· ≠ 0) = t.takeWhile (· ≠ 0) := by
    rw [(put_toList hb).2, List.take_zero, List.nil_append, List.append_assoc, List.singleton_append]
    exact takeWhile_append_stop hn _
  rw [bind_isSome (P := True) fun _ _ => iff_true_intro rfl, put_isSome, hread, List.length_append,
    List.length_singleton, and_true, Nat.zero_add]

theorem appTopic_isSome {did v : List UInt8} (h : 0x2f ∉ did) (hv : 0 ∈ v) :
    (Checked.appTopic (did ++ 0x2f :: v) env ids).isSome ↔
      did.length ≤ 31 ∧ (ids.dIdLen = 0 → did.length ≤ 23) ∧ (v.takeWhile (· ≠ 0)).length ≤ 31 := by
  unfold Checked.appTopic
  simp only [Option.bind_eq_bind]
  refine (copyUntil_isSome h v env.didBuffer 0 fun c b' hb hnext hrest => ?_).trans
    (and_congr_left' Nat.lt_succ_iff)
  have hd := (put_toList hb).1
  rw [List.length_append, List.length_singleton] at hd
  rw [hnext, hrest]
  refine (bind_isSome fun ids' _ => takeClientId_isSome hv env.clientid).trans ?_
  exact and_congr_left' (takeDid_isSome b' (by omega))

/-- Up to the terminator only the topic itself is read. -/
theorem appTopic_iff (h : 0x2f ∈ t) (g : List UInt8) :
    (Checked.appTopic (t ++ 0 :: g) env ids).isSome ↔ AppTopicFits t ids.dIdLen := by
  obtain ⟨hs, hn⟩ := split_at h
  have hv : 0 ∈ (t.dropWhile (· ≠ 0x2f)).drop 1 ++ 0 :: g := List.mem_append_right _ List.mem_cons_self
  have hclient : ((t.dropWhile (· ≠ 0x2f)).drop 1 ++ 0 :: g).takeWhile (· ≠ 0) =
      ((t.dropWhile (· ≠ 0x2f)).drop 1).takeWhile (· ≠ 0) := by
    rw [List.takeWhile_append, List.takeWhile_cons_of_neg (by simp), List.append_nil]
    split
    · rename_i hl
      exact ((List.takeWhile_prefix _).eq_of_length hl).symm
    · rfl
  have he : t ++ 0 :: g = t.takeWhile (· ≠ 0x2f) ++ 0x2f :: ((t.dropWhile (· ≠ 0x2f)).drop 1 ++ 0 :: g) := by
    conv_lhs => rw [hs, List.append_assoc, List.cons_append]
  rw [he, appTopic_isSome hn hv, hclient]
  constructor
  · rintro ⟨h1, h2, h3⟩
    refine ⟨h, ?_, h3⟩
    split
    · exact h2 ‹_›
    · exact h1
  · rintro ⟨-, h2, h3⟩
    split at h2
    · exact ⟨by omega, fun _ => h2, h3⟩
    · exact ⟨h2, fun h0 => absurd h0 ‹_›, h3⟩

end

/-! ## The command in the block -/

theorem ctlDev_isSome (block : List UInt8) (data : Nat) (dataLen : UInt16) :
    (Checked.gAgentV4CtlDevWithP0 block data dataLen).isSome ↔
      (dataLen.toNat ≤ 4 * 1024 → data + 1 < block.length ∧
        (block.getD (data + 1) 0 ≠ 0 → data + 2 + lastCtrl (block.getD (data + 1) 0) < block.length)) := by
  unfold Checked.gAgentV4CtlDevWithP0
  by_cases hl : dataLen.toNat ≤ 4 * 1024
  · rw [if_neg (Nat.not_lt.mpr hl)]
    by_cases h1 : data + 1 < block.length
    · rw [List.getElem?_eq_getElem h1, Option.bind_some, List.getD_eq_getElem _ _ h1]
      by_cases h0 : block[data + 1] = 0
      · rw [if_pos h0]
        exact iff_of_true rfl fun _ => ⟨h1, fun h => absurd h0 h⟩
      · rw [if_neg h0, Option.isSome_map]
        simp [h1, h0, hl]
    · rw [List.getElem?_eq_none (Nat.not_lt.mp h1)]
      exact iff_of_false (by simp) fun h => h1 (h hl).1
  · rw [if_pos (Nat.not_le.mp hl)]
    exact iff_of_true rfl fun h => absurd h hl

theorem doCloudMCUCmd_isSome {msg : List UInt8} {k : Nat} (hk : 4 ≤ k)
    (hl : 6 ≤ (msg ++ List.replicate k 0).length) :
    (Checked.mqttDoCloudMCUCmd (msg ++ List.replicate k 0)).isSome ↔
      ControlFits (msg ++ List.replicate k 0) := by
  have hlen : (msg ++ List.replicate k (0 : UInt8)).length = msg.length + k := by
    rw [List.length_append, List.length_replicate]
  have hz {i : Nat} (hi : msg.length ≤ i) : (msg ++ List.replicate k (0 : UInt8)).getD i 0 = 0 := by
    rw [getD_zeros]
    exact List.getD_eq_default _ _ hi
  generalize msg ++ List.replicate k 0 = block at *
  -- the block ends with zeros: the width and the length are read from it
  have hwidth : ¬ block.length ≤ 4 + min (mqttNumRemLenBytes (block.drop 4)) 3 := by
    by_cases h1 : mqttNumRemLenBytes (block.drop 4) = 1
    · omega
    · have h5 : msg.length > 5 := by
        by_contra h5
        apply h1
        unfold mqttNumRemLenBytes
        rw [getD_drop, hz (by omega)]
        rfl
      omega
  have hdigit : (0 : UInt8) ∈ (block.drop 3).drop 1 := by
    rw [List.drop_drop]
    have hm := @getD_mem (block.drop 4) (block.length - 5) (by rw [List.length_drop]; omega)
    rwa [getD_drop, hz (by omega)] at hm
  obtain ⟨r, hr, -⟩ := remLenLoop_append [] hdigit rfl 1 0
  have hcmd : mqttDoCloudMCUCmd block = some (7 + mqttNumRemLenBytes (block.drop 4), r - 3) := by
    unfold mqttDoCloudMCUCmd mqttParseRemLen
    rw [hr]
    rfl
  unfold Checked.mqttDoCloudMCUCmd ControlFits
  rw [if_neg hwidth, hcmd, Option.bind_some, ctlDev_isSome]
  constructor
  · intro h data dataLen he
    obtain ⟨rfl, rfl⟩ := Prod.mk.inj (Option.some.inj he)
    exact h
  · exact fun h => h _ _ rfl

/-! ## The call -/

section
variable (p : PublishPacket) {env : PublishEnv} {ids : DeviceIds}

theorem block_zeros (hm : p.topicLen + 2 + p.idSize ≤ p.remLen) : p.block.length = p.bytes.length - p.topicLen ∧
    ∃ msg k, p.block = msg ++ List.replicate k 0 ∧ 4 ≤ k := by
  have hrem := p.remLen_le
  obtain ⟨h1, -⟩ := numRemLen_end p.bytes
  unfold PublishPacket.block
  dsimp only
  generalize hs : (p.bytes.drop (p.topicAt + p.topicLen + p.idSize)).take
    (p.remLen - (p.topicLen + 2 + p.idSize)) = msg
  have hmsg : msg.length ≤ p.remLen - (p.topicLen + 2 + p.idSize) := by
    rw [← hs, List.length_take]
    exact Nat.min_le_left _ _
  refine ⟨?_, msg, _, rfl, by omega⟩
  rw [List.length_append, List.length_replicate]
  omega

theorem app2dev_take {t : List UInt8} (g : List UInt8) :
    (t ++ 0 :: g).take 8 = app2dev ↔ t.take 8 = app2dev := by
  by_cases h : 8 ≤ t.length
  · rw [List.take_append_of_le_length h]
  · refine iff_of_false (fun he => ?_) fun he => ?_
    · have h0 : (0 : UInt8) ∈ (t ++ 0 :: g).take 8 := by
        rw [List.take_append, List.take_cons (by omega)]
        simp
      rw [he] at h0
      exact absurd h0 (by decide)
    · have hl := congrArg List.length he
      rw [List.length_take] at hl
      change min 8 t.length = 8 at hl
      omega

/-- What the call does with the topic and the block when it has both. -/
theorem topicBranch_isSome {t g w : List UInt8} {k : Nat} (hk : 4 ≤ k)
    (hl : 6 ≤ (w ++ List.replicate k 0).length) :
    (if (t ++ 0 :: g).take 8 = app2dev then
      (Checked.appTopic ((t ++ 0 :: g).drop 8) env ids).bind fun ids =>
        (Checked.mqttDoCloudMCUCmd (w ++ List.replicate k 0)).bind fun _ => some ((0 : Int), ids)
    else if (t ++ 0 :: g).take 12 = ser2cliRes then some (-3, ids) else some (0, ids)).isSome ↔
      (t.take 8 = app2dev → (Checked.appTopic (t.drop 8 ++ 0 :: g) env ids).isSome ∧
        ControlFits (w ++ List.replicate k 0)) := by
  by_cases happ : t.take 8 = app2dev
  · have h8 : 8 ≤ t.length := by
      have hlen := congrArg List.length happ
      rw [List.length_take] at hlen
      change min 8 t.length = 8 at hlen
      omega
    rw [if_pos ((app2dev_take g).mpr happ), List.drop_append_of_le_length h8, forall_prop_of_true happ]
    refine bind_isSome fun ids' _ => (bind_isSome fun _ _ => iff_true_intro rfl).trans ?_
    rw [and_true]
    exact doCloudMCUCmd_isSome hk hl
  · rw [if_neg (mt (app2dev_take g).mp happ)]
    refine iff_of_true ?_ fun h => absurd h happ
    split <;> rfl

theorem dispatch_isSome (hmem : env.memMalloc = true) :
    (Checked.mqttDispatchPublishPacket p.bytes env ids).isSome ↔
      p.topicLen ≤ 127 ∧ p.topicLen + 2 + p.idSize ≤ p.remLen ∧ p.topicLen + 6 ≤ p.bytes.length ∧
        (p.topic.take 8 = app2dev →
          (Checked.appTopic (p.topic.drop 8 ++ 0 :: env.topic.1.drop (p.topicLen + 1)) env ids).isSome ∧
            ControlFits p.block) := by
  have hrem := p.remLen_le
  by_cases h1 : p.topicLen ≤ 127 ∧ p.topicAt + p.topicLen ≤ p.bytes.length
  · have hlen := p.topic_length h1.2
    obtain ⟨topic, hp⟩ := put_of_le (i := 0) env.topic (p.topic ++ [0])
      (by rw [List.length_append, List.length_singleton]; omega)
    have htopic : topic.1 = p.topic ++ 0 :: env.topic.1.drop (p.topicLen + 1) := by
      rw [(put_toList hp).2, List.take_zero, List.nil_append, List.append_assoc, List.length_append, hlen,
        Nat.zero_add]
      rfl
    unfold Checked.mqttDispatchPublishPacket
    rw [p.takeTopic_eq, if_pos h1.2, hp, hmem]
    simp only [Option.map_some, Option.bind_eq_bind, Option.bind_some, Bool.not_true, Bool.false_eq_true, if_false]
    by_cases hm : p.topicLen + 2 + p.idSize ≤ p.remLen
    · obtain ⟨len, msg, hmsg, hblock⟩ := p.publishMsg_of h1.1 hm
      obtain ⟨hbl, w, k, hw, hk⟩ := block_zeros p hm
      rw [hmsg, Option.bind_some, hblock]
      rw [hw] at hbl
      rw [htopic, hw]
      refine (bind_isSome fun _ hs => topicBranch_isSome hk ?_).trans ?_
      · have h6 := slice_isSome.mp (Option.isSome_of_eq_some hs)
        exact h6
      · rw [slice_isSome, hbl]
        constructor
        · exact fun ⟨h6, h⟩ => ⟨h1.1, hm, by omega, h⟩
        · exact fun ⟨_, _, h6, h⟩ => ⟨by omega, h⟩
    · rw [p.publishMsg_none h1.1 (by omega) hm]
      exact iff_of_false (by simp) fun h => hm h.2.1
  · refine iff_of_false ?_ fun h => h1 ⟨h.1, ?_⟩
    · have hnone : Checked.takeTopic p.bytes env.topic = none := by
        rw [p.takeTopic_eq]
        split
        · rename_i h2
          rw [put_none, Option.map_none]
          rw [List.length_append, p.topic_length h2, List.length_singleton]
          omega
        · rfl
      unfold Checked.mqttDispatchPublishPacket
      rw [hnone]
      simp
    · unfold PublishPacket.topicAt
      omega

/-- **Publications in bounds**: every access stays inside exactly when the declared
lengths agree, and the topic and the command fit. -/
theorem publish_bounds_iff (dIdLen : Nat) : PublishInBounds p dIdLen ↔ PublishFits p dIdLen := by
  constructor
  · intro h
    -- nothing in the array but the topic ends a scan
    have hz := h
      { topic := List.Vector.replicate 128 0, didBuffer := List.Vector.replicate 32 0
        clientid := List.Vector.replicate 32 0, memMalloc := true }
      { dIdLen, did := List.Vector.replicate 24 0, cloudDId := List.Vector.replicate 24 0
        phoneClientId := List.Vector.replicate 32 0 } rfl
    obtain ⟨ht, hm, hc, happ⟩ := (dispatch_isSome p rfl).mp hz
    refine ⟨ht, hm, hc, fun ha => ?_⟩
    obtain ⟨hs, hctl⟩ := happ ha
    refine ⟨?_, hctl⟩
    by_cases h0 : 0x2f ∈ p.topic.drop 8
    · exact (appTopic_iff h0 _).mp hs
    · rw [appTopic_none] at hs
      · cases hs
      · intro hmem
        rcases List.mem_append.mp hmem with hmem | hmem
        · exact h0 hmem
        · rcases List.mem_cons.mp hmem with hmem | hmem
          · exact absurd hmem (by decide)
          · exact absurd (List.eq_of_mem_replicate (List.mem_of_mem_drop hmem)) (by decide)
  · intro h env ids hid
    cases hmem : env.memMalloc with
    | true =>
      refine (dispatch_isSome p hmem).mpr ⟨h.topic, h.message, h.command, fun ha => ?_⟩
      obtain ⟨hs, hctl⟩ := h.app ha
      exact ⟨(appTopic_iff hs.slash _).mpr (hid ▸ hs), hctl⟩
    | false =>
      have hrem := p.remLen_le
      have hm := h.message
      have ht := h.topic
      have hfit : p.topicAt + p.topicLen ≤ p.bytes.length := by
        unfold PublishPacket.topicAt
        omega
      obtain ⟨topic, hp⟩ := put_of_le (i := 0) env.topic (p.topic ++ [0])
        (by rw [List.length_append, p.topic_length hfit, List.length_singleton]; omega)
      unfold Checked.mqttDispatchPublishPacket
      rw [p.takeTopic_eq, if_pos hfit, hp, hmem]
      rfl

end

/-- Topic `a` and no message: there is a block of four bytes, and a command is read behind it. -/
def emptyPublish : PublishPacket where
  bytes := [0x30, 3, 0, 1, 0x61]
  fits := by decide
  accepted := ⟨5, [0x30, 3, 0, 1, 0x61] ++ List.replicate 2043 0, rfl, by decide⟩
  publish := rfl

theorem empty_publish_out_of_bounds : ¬ ∀ (p : PublishPacket) (dIdLen : Nat), PublishInBounds p dIdLen := by
  intro h
  have hz := h emptyPublish 22
    { topic := List.Vector.replicate 128 0, didBuffer := List.Vector.replicate 32 0
      clientid := List.Vector.replicate 32 0, memMalloc := true }
    { dIdLen := 22, did := List.Vector.replicate 24 0, cloudDId := List.Vector.replicate 24 0
      phoneClientId := List.Vector.replicate 32 0 } rfl
  revert hz
  decide +kernel

end GizwitsSdk
