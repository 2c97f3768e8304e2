import GizwitsSdk.Lib.Buffer
import GizwitsSdk.MqttSend
import Mathlib.Data.List.GetD

/-!
# Reading a publication back

The topic is found with 16-bit lengths. The place of the message behind it is
computed in eight bits: it is right when the message starts in the first 256
bytes of the packet, and otherwise the message is taken from too far in front.
-/

namespace GizwitsSdk

open Lib

/-! ## Parsers -/

def mqttParseMessageQos (buf : List UInt8) : UInt8 := (buf.getD 0 0 &&& 0x06) >>> 1

/-- The length of the topic and where it lies, if the packet has one. -/
def mqttParsePubTopicPtr (buf : List UInt8) : UInt16 × Option Nat :=
  if mqttParseMessageType buf = 0x30 then
    let rlb := mqttNumRemLenBytes buf
    (((buf.getD (1 + rlb) 0).toUInt16 <<< 8) ||| (buf.getD (1 + rlb + 1) 0).toUInt16, some (1 + rlb + 2))
  else (0, none)

/-- The length that is returned and the bytes that are copied out. -/
def mqttParsePubTopic (buf : List UInt8) : UInt16 × List UInt8 :=
  match mqttParsePubTopicPtr buf with
  | (len, some ptr) => (len, if len ≠ 0 then (buf.drop ptr).take len.toNat else [])
  | (len, none) => (len, [])

/-- The length of the message and where it lies. `offset` is a `uint8_t`, so the
high byte of the topic length is shifted out of it. -/
def mqttParsePubMsgPtr (buf : List UInt8) : Option (UInt16 × Option Nat) :=
  if mqttParseMessageType buf = 0x30 then
    let rlb := mqttNumRemLenBytes buf
    let offset : UInt8 := ((buf.getD (1 + rlb) 0).toUInt16 <<< 8).toUInt8
    let offset := offset ||| buf.getD (1 + rlb + 1) 0
    let offset := offset + .ofNat (1 + rlb + 2)
    let offset := if mqttParseMessageQos buf ≠ 0 then offset + 2 else offset
    (mqttParseRemLen buf).map fun remLen =>
      (remLen - (offset.toUInt16 - .ofNat (rlb + 1)), some offset.toNat)
  else some (0, none)

/-- The length that is returned and the bytes that are copied out. -/
def mqttParsePublishMsg (buf : List UInt8) : Option (UInt16 × List UInt8) :=
  (mqttParsePubMsgPtr buf).map fun
    | (len, some ptr) => (len, if len ≠ 0 then (buf.drop ptr).take len.toNat else [])
    | (len, none) => (len, [])

/-- The block that `Mqtt_DispatchPublishPacket` clears and copies the message to. -/
def messageBlock (size : Nat) (buf : List UInt8) : Option (List UInt8) :=
  (mqttParsePublishMsg buf).map fun m => m.2 ++ List.replicate (size - m.2.length) 0

/-! ## A packet in a buffer -/

section
variable (first : UInt8) (n : Nat) (body : List UInt8)

theorem buf_get (k : Nat) : (first :: (varint n ++ body)).getD (1 + (varint n).length + k) 0 = body.getD k 0 := by
  rw [Nat.add_assoc, Nat.add_comm 1, List.getD_cons_succ, List.getD_append_right _ _ _ _ (by omega),
    Nat.add_sub_cancel_left]

theorem buf_drop (k : Nat) : (first :: (varint n ++ body)).drop (1 + (varint n).length + k) = body.drop k := by
  rw [Nat.add_assoc, Nat.add_comm 1, List.drop_succ_cons, List.drop_append, List.drop_eq_nil_of_le (by omega),
    List.nil_append, Nat.add_sub_cancel_left]

theorem u16Bytes_high (t : UInt16) : (t >>> 8).toUInt8.toNat = t.toNat / 256 := by
  have h8 : (8 : UInt16).toNat % 16 = 8 := rfl
  have ht := t.toNat_lt
  rw [UInt16.toNat_toUInt8, UInt16.toNat_shiftRight, h8, Nat.shiftRight_eq_div_pow]
  omega

theorem u16Bytes_low (t : UInt16) : (t &&& 0xff).toUInt8.toNat = t.toNat % 256 := by
  have hm : (0xff : UInt16).toNat = 2 ^ 8 - 1 := rfl
  rw [UInt16.toNat_toUInt8, UInt16.toNat_and, hm, Nat.and_two_pow_sub_one_eq_mod]
  omega

theorem u16Bytes_join (t : UInt16) :
    ((t >>> 8).toUInt8.toUInt16 <<< 8) ||| (t &&& 0xff).toUInt8.toUInt16 = t := by
  have ht := t.toNat_lt
  apply UInt16.toNat_inj.mp
  rw [be16_toNat, u16Bytes_high, u16Bytes_low]
  omega

end

theorem messageLen_toNat {n L : Nat} (offset : UInt8) (hn : n < 16384) (hL : L ≤ 2) :
    (UInt16.ofNat n - (offset.toUInt16 - .ofNat (L + 1))).toNat =
      (n + L + 1 + 65536 - offset.toNat) % 65536 := by
  have ho := offset.toNat_lt
  rw [UInt16.toNat_sub, UInt16.toNat_sub, UInt8.toNat_toUInt16, u16_toNat (by omega), u16_toNat (by omega)]
  omega

/-! ## The parsers on a publication -/

def publishFirst (retain qos : UInt8) : UInt8 := (0x30 : UInt8) ||| qosFlag qos ||| if retain ≠ 0 then 0x01 else 0x00

theorem publishFirst_spec (retain qos : UInt8) : publishFirst retain qos &&& 0xf0 = 0x30 ∧
    ((publishFirst retain qos &&& 0x06) >>> 1 ≠ 0 ↔ qosSize qos ≠ 0) := by
  unfold publishFirst qosFlag qosSize
  by_cases h1 : qos = 1
  · by_cases hr : retain ≠ 0 <;> simp [h1, hr] <;> decide
  by_cases h2 : qos = 2
  · by_cases hr : retain ≠ 0 <;> simp [h2, hr] <;> decide
  · by_cases hr : retain ≠ 0 <;> simp [h1, h2, hr] <;> decide

section
variable (retain : UInt8) {qos : UInt8} {n : Nat} {t : UInt16} {topic ids : List UInt8} (msg : List UInt8)

theorem parsePubTopic_publish (hn : n < 16384) (ht : t.toNat = topic.length) :
    mqttParsePubTopic (publishFirst retain qos :: (varint n ++ (u16Bytes t ++ (topic ++ (ids ++ msg))))) =
      (t, topic) := by
  have hfirst := (publishFirst_spec retain qos).1
  have hptr : mqttParsePubTopicPtr (publishFirst retain qos ::
      (varint n ++ (u16Bytes t ++ (topic ++ (ids ++ msg))))) = (t, some (1 + (varint n).length + 2)) := by
    unfold mqttParsePubTopicPtr mqttParseMessageType
    rw [List.getD_cons_zero, if_pos hfirst]
    simp only [numRemLen_varint hn]
    have h0 := buf_get (publishFirst retain qos) n (u16Bytes t ++ (topic ++ (ids ++ msg))) 0
    rw [Nat.add_zero] at h0
    rw [h0, buf_get _ n _ 1]
    simp only [u16Bytes, List.cons_append, List.getD_cons_zero, List.getD_cons_succ, u16Bytes_join]
  unfold mqttParsePubTopic
  rw [hptr]
  simp only [buf_drop]
  have hd : (u16Bytes t ++ (topic ++ (ids ++ msg))).drop 2 = topic ++ (ids ++ msg) := rfl
  rw [hd, ht, List.take_left]
  by_cases h0 : t ≠ 0
  · rw [if_pos h0]
  · have hz : t.toNat = 0 := by rw [not_not.mp h0]; rfl
    rw [if_neg h0, List.eq_nil_of_length_eq_zero (ht.symm.trans hz)]

/-- Where the message begins, and the place the code computes for it. -/
theorem parsePubMsgPtr_publish (hn : n < 16384) (ht : t.toNat = topic.length) (hi : ids.length = qosSize qos) :
    ∃ offset : UInt8, mqttParsePubMsgPtr (publishFirst retain qos ::
        (varint n ++ (u16Bytes t ++ (topic ++ (ids ++ msg))))) =
      some (.ofNat n - (offset.toUInt16 - .ofNat ((varint n).length + 1)), some offset.toNat) ∧
      offset.toNat = (1 + (varint n).length + 2 + topic.length + ids.length) % 256 := by
  obtain ⟨hfirst, hqos⟩ := publishFirst_spec retain qos
  have hrem : mqttParseRemLen (publishFirst retain qos ::
      (varint n ++ (u16Bytes t ++ (topic ++ (ids ++ msg))))) = some (.ofNat n) := by
    unfold mqttParseRemLen
    exact remLenLoop_varint hn
  unfold mqttParsePubMsgPtr mqttParseMessageType mqttParseMessageQos
  rw [List.getD_cons_zero, if_pos hfirst]
  have h0 := buf_get (publishFirst retain qos) n (u16Bytes t ++ (topic ++ (ids ++ msg))) 0
  rw [Nat.add_zero] at h0
  simp only [numRemLen_varint hn, h0, buf_get, hrem, Option.map_some]
  refine ⟨_, rfl, ?_⟩
  have hhigh : (((t >>> 8).toUInt8.toUInt16 <<< 8).toUInt8 ||| (t &&& 0xff).toUInt8).toNat = t.toNat % 256 := by
    have h8 : (8 : UInt16).toNat % 16 = 8 := rfl
    have hz : ((t >>> 8).toUInt8.toUInt16 <<< 8).toUInt8 = 0 := by
      apply UInt8.toNat_inj.mp
      have h00 : (0 : UInt8).toNat = 0 := rfl
      rw [UInt16.toNat_toUInt8, UInt16.toNat_shiftLeft, h8, Nat.shiftLeft_eq, h00]
      omega
    rw [hz, UInt8.zero_or, u16Bytes_low]
  have h2 : (2 : UInt8).toNat = 2 := rfl
  simp only [u16Bytes, List.cons_append, List.getD_cons_zero, List.getD_cons_succ]
  rw [hi]
  unfold qosSize at hqos ⊢
  by_cases hq : qos = 1 ∨ qos = 2
  · rw [if_pos hq] at hqos ⊢
    rw [if_pos (hqos.mpr (by decide))]
    simp only [UInt8.toNat_add, hhigh, h2, UInt8.toNat_ofNat']
    omega
  · rw [if_neg hq] at hqos ⊢
    rw [if_neg (fun h => hqos.mp h rfl)]
    simp only [UInt8.toNat_add, hhigh, UInt8.toNat_ofNat']
    omega

variable {msg}

/-- A message that begins in the first 256 bytes is found. -/
theorem parsePublishMsg_publish (rest : List UInt8) (hn : topic.length + 2 + ids.length + msg.length = n)
    (hlt : n < 16384) (ht : t.toNat = topic.length) (hi : ids.length = qosSize qos)
    (hoff : 1 + (varint n).length + 2 + topic.length + ids.length < 256) :
    mqttParsePublishMsg (publishFirst retain qos ::
        (varint n ++ (u16Bytes t ++ (topic ++ (ids ++ (msg ++ rest)))))) =
      some (.ofNat msg.length, msg) := by
  obtain ⟨offset, hptr, ho⟩ := parsePubMsgPtr_publish retain (msg ++ rest) hlt ht hi
  have ho' : offset.toNat = 1 + (varint n).length + (2 + (topic.length + ids.length)) := by omega
  have hmsg := u16_toNat (n := msg.length) (by omega)
  have hlen : UInt16.ofNat n - (offset.toUInt16 - .ofNat ((varint n).length + 1)) = .ofNat msg.length := by
    apply UInt16.toNat_inj.mp
    rw [messageLen_toNat offset hlt (varint_length_le hlt), hmsg]
    omega
  have hdrop : (u16Bytes t ++ (topic ++ (ids ++ (msg ++ rest)))).drop
      (2 + (topic.length + ids.length)) = msg ++ rest := by
    rw [← List.append_assoc topic, ← List.append_assoc (u16Bytes _)]
    apply List.drop_left'
    rw [List.length_append, List.length_append]
    rfl
  unfold mqttParsePublishMsg
  rw [hptr, Option.map_some]
  simp only [hlen]
  rw [ho', buf_drop, hdrop, hmsg, List.take_left]
  by_cases h0 : UInt16.ofNat msg.length ≠ 0
  · rw [if_pos h0]
  · have hz : (UInt16.ofNat msg.length).toNat = 0 := by rw [not_not.mp h0]; rfl
    rw [if_neg h0, List.eq_nil_of_length_eq_zero (hmsg.symm.trans hz)]

/-- A message that begins later has its length read too large. -/
theorem offset_of_parsePublishMsg (hn : topic.length + 2 + ids.length + msg.length = n)
    (hlt : n < 16384) (ht : t.toNat = topic.length) (hi : ids.length = qosSize qos)
    (h : mqttParsePublishMsg (publishFirst retain qos ::
        (varint n ++ (u16Bytes t ++ (topic ++ (ids ++ msg))))) = some (.ofNat msg.length, msg)) :
    1 + (varint n).length + 2 + topic.length + ids.length < 256 := by
  obtain ⟨offset, hptr, ho⟩ := parsePubMsgPtr_publish retain msg hlt ht hi
  unfold mqttParsePublishMsg at h
  rw [hptr, Option.map_some, Option.some_inj] at h
  have hlen := congrArg UInt16.toNat (congrArg Prod.fst h)
  have hL := varint_length_le hlt
  rw [messageLen_toNat offset hlt hL, u16_toNat (by omega)] at hlen
  omega

end

/-! ## Publishing and reading back -/

section
variable (b : MqttBroker) (topic : CString) (msg : List UInt8) (retain qos : UInt8)

def publishIds : List UInt8 := if qosSize qos ≠ 0 then u16Bytes b.seq else []

theorem publishIds_length : (publishIds b qos).length = qosSize qos := by
  unfold publishIds qosSize
  by_cases hq : qos = 1 ∨ qos = 2
  · simp only [if_pos hq]; rfl
  · simp only [if_neg hq]; rfl

theorem xpgPublish_append (rest : List UInt8)
    (h : topic.bytes.length + 2 + (publishIds b qos).length + msg.length ≤ 16383) :
    (xpgMqttPublishWithQos b topic msg retain qos).1 ++ rest =
      publishFirst retain qos :: (varint (topic.bytes.length + 2 + (publishIds b qos).length + msg.length) ++
        (u16Bytes (.ofNat topic.bytes.length) ++ (topic.bytes ++ (publishIds b qos ++ (msg ++ rest))))) := by
  rw [publishIds_length] at h ⊢
  have ht := u16_toNat (n := topic.bytes.length) (by omega)
  unfold xpgMqttPublishWithQos publishPacket
  simp only [ht]
  rw [u16_toNat (by omega), fixedHeader_varint (by omega), utfField, ht, List.take_length]
  simp only [List.cons_append, List.append_assoc]
  rfl

end

/-- Both parsers give back what was published, whatever lies behind the packet. -/
def RoundTrip (p topic msg : List UInt8) : Prop := ∀ rest,
  mqttParsePubTopic (p ++ rest) = (.ofNat topic.length, topic) ∧
    mqttParsePublishMsg (p ++ rest) = some (.ofNat msg.length, msg)

def messageOffset (topic : CString) (msg : List UInt8) (qos : UInt8) : Nat :=
  1 + (if topic.bytes.length + 2 + qosSize qos + msg.length ≤ 127 then 1 else 2) + 2 + topic.bytes.length +
    qosSize qos

/-- **Reading a publication back.** A publication with a remaining length up to
16383 is read back exactly when its message begins in the first 256 bytes. -/
theorem publish_round_trip_iff (b : MqttBroker) (topic : CString) (msg : List UInt8) (retain qos : UInt8)
    (h : topic.bytes.length + 2 + qosSize qos + msg.length ≤ 16383) :
    RoundTrip (xpgMqttPublishWithQos b topic msg retain qos).1 topic.bytes msg ↔
      messageOffset topic msg qos < 256 := by
  have ht := u16_toNat (n := topic.bytes.length) (by omega)
  have hi := publishIds_length b qos
  unfold RoundTrip messageOffset
  rw [← varint_length (by omega)]
  rw [← hi] at h ⊢
  simp only [xpgPublish_append b topic msg retain qos _ h]
  constructor
  · intro hr
    have hmsg := (hr []).2
    rw [List.append_nil] at hmsg
    exact offset_of_parsePublishMsg retain rfl (by omega) ht hi hmsg
  · intro hlt rest
    refine ⟨?_, parsePublishMsg_publish retain rest rfl (by omega) ht hi hlt⟩
    rw [parsePubTopic_publish retain (msg ++ rest) (by omega) ht]

/-- A short topic and 200 bytes of message. -/
theorem publish_round_trip_short :
    RoundTrip (xpgMqttPublishWithQos (mqttInit none) ⟨[97, 98], by decide⟩ (List.replicate 200 7) 0 1).1
        [97, 98] (List.replicate 200 7) ↔
      messageOffset ⟨[97, 98], by decide⟩ (List.replicate 200 7) 1 < 256 :=
  publish_round_trip_iff (mqttInit none) ⟨[97, 98], by decide⟩ (List.replicate 200 7) 0 1 (by decide +kernel)

/-- A topic of 251 bytes and an empty message, which is read back with 256 bytes. -/
theorem publish_round_trip_long :
    (mqttParsePublishMsg (xpgMqttPublishWithQos (mqttInit none)
        ⟨List.replicate 251 97, by decide +kernel⟩ [] 0 0).1).map Prod.fst = some 256 ∧
      ¬ RoundTrip (xpgMqttPublishWithQos (mqttInit none) ⟨List.replicate 251 97, by decide +kernel⟩ [] 0 0).1
        (List.replicate 251 97) [] := by
  have hp : (mqttParsePublishMsg (xpgMqttPublishWithQos (mqttInit none)
      ⟨List.replicate 251 97, by decide +kernel⟩ [] 0 0).1).map Prod.fst = some 256 := by decide +kernel
  refine ⟨hp, fun h => ?_⟩
  have hr := (h []).2
  rw [List.append_nil] at hr
  rw [hr] at hp
  exact absurd hp (by decide)

end GizwitsSdk
