import GizwitsSdk.CloudLogin
import GizwitsSdk.MqttSend

/-!
# Message ids that are read: `mqtt_parse_msg_id`

The id, and before it the place of the id in a `PUBLISH`, are computed in
variables of eight bits. The high byte of the id is lost, and so is the high
byte of the length of a topic.
-/

namespace GizwitsSdk

open Lib

/-- Two bytes put together in a `uint8_t`. -/
def narrowU16 (buf : List UInt8) (i : Nat) : UInt8 :=
  ((buf.getD i 0).toUInt16 <<< 8).toUInt8 ||| buf.getD (i + 1) 0

/-- `mqtt_parse_msg_id`, of which `mqttParseMsgId` is the case of a `SUBACK`. -/
def mqttParseMsgIdAny (buf : List UInt8) : UInt8 :=
  let type := mqttParseMessageType buf
  let rlb := mqttNumRemLenBytes buf
  if 0x30 ≤ type ∧ type ≤ 0xb0 then
    if type = 0x30 then
      if mqttParseMessageQos buf ≠ 0 then
        let offset := narrowU16 buf (1 + rlb) + (1 + .ofNat rlb + 2)
        narrowU16 buf offset.toNat
      else 0
    else narrowU16 buf (1 + rlb)
  else 0

/-! ## Packets with an id -/

/-- A packet that carries a message id: a `PUBLISH` of QoS 1 or 2, with a topic
before the id, or one of the packets from `PUBACK` to `UNSUBACK`. -/
structure IdPacket where
  header : UInt8
  topic : List UInt8
  id : UInt16
  rest : List UInt8
  type_ge : 0x30 ≤ header &&& 0xf0
  type_le : header &&& 0xf0 ≤ 0xb0
  qos : header &&& 0xf0 = 0x30 → (header &&& 0x06) >>> 1 = 1 ∨ (header &&& 0x06) >>> 1 = 2
  topic_length : topic.length < 65536
  length : topic.length + rest.length + 4 < 268435456

namespace IdPacket

def front (p : IdPacket) : List UInt8 :=
  if p.header &&& 0xf0 = 0x30 then u16Bytes (.ofNat p.topic.length) ++ p.topic else []

def body (p : IdPacket) : List UInt8 := p.front ++ u16Bytes p.id ++ p.rest

def bytes (p : IdPacket) : List UInt8 := p.header :: (varint p.body.length ++ p.body)

def place (p : IdPacket) : Nat := 1 + (varint p.body.length).length + p.front.length

end IdPacket

/-! ## The length field -/

theorem varint_step {n : Nat} (h : 128 ≤ n) : varint n = .ofNat (n % 128 + 128) :: varint (n / 128) := by
  rw [varint, if_neg (Nat.not_lt.mpr h)]

theorem goes_on (n : Nat) : UInt8.ofNat (n % 128 + 128) &&& 0x80 = 0x80 := by
  rw [top_bit_eq, ofNat_toNat_of_lt (by omega)]
  omega

theorem ends {n : Nat} (h : n < 128) : ¬ UInt8.ofNat n &&& 0x80 = 0x80 := by
  rw [top_bit_eq, ofNat_toNat_of_lt (by omega)]
  omega

theorem numRemLen_of_lt {header : UInt8} {n : Nat} (h : n < 268435456) (rest : List UInt8) :
    mqttNumRemLenBytes (header :: (varint n ++ rest)) = (varint n).length := by
  unfold mqttNumRemLenBytes
  by_cases h1 : n < 128
  · simp [varint_one h1, ends h1]
  · rw [varint_step (by omega)]
    by_cases h2 : n / 128 < 128
    · simp [varint_one h2, goes_on, ends h2, -UInt8.ofNat_add]
    · rw [varint_step (n := n / 128) (by omega)]
      by_cases h3 : n / 128 / 128 < 128
      · simp [varint_one h3, goes_on, ends h3, -UInt8.ofNat_add]
      · rw [varint_step (n := n / 128 / 128) (by omega), varint_one (by omega)]
        simp [goes_on, -UInt8.ofNat_add]

/-! ## What is read -/

theorem narrowU16_eq (buf : List UInt8) (i : Nat) : narrowU16 buf i = buf.getD (i + 1) 0 := by
  have h0 : ((buf.getD i 0).toUInt16 <<< 8).toUInt8 = 0 := by
    rw [← UInt8.toNat_inj, UInt16.toNat_toUInt8, UInt16.toNat_shiftLeft]
    show _ <<< 8 % _ % _ = 0
    rw [Nat.shiftLeft_eq]
    omega
  rw [narrowU16, h0, UInt8.zero_or]

theorem toUInt16_eq_iff {b : UInt8} {id : UInt16} : b.toUInt16 = id ↔ id.toNat < 256 ∧ b = id.toUInt8 := by
  have hb := b.toNat_lt
  rw [← UInt16.toNat_inj, ← UInt8.toNat_inj, UInt8.toNat_toUInt16, UInt16.toNat_toUInt8]
  omega

theorem low_byte (n : UInt16) : (n &&& 0xff).toUInt8 = n.toUInt8 := by
  rw [← UInt8.toNat_inj, UInt16.toNat_toUInt8, UInt16.toNat_toUInt8, UInt16.toNat_and]
  show (n.toNat &&& (2 ^ 8 - 1)) % 2 ^ 8 = n.toNat % 2 ^ 8
  rw [Nat.and_two_pow_sub_one_eq_mod, Nat.mod_mod]

section
variable (p : IdPacket) (tail : List UInt8)

theorem front_length : p.front.length = if p.header &&& 0xf0 = 0x30 then 2 + p.topic.length else 0 := by
  rw [IdPacket.front]
  split
  · rw [List.length_append]
    rfl
  · rfl

theorem body_length : p.body.length = p.front.length + 2 + p.rest.length := by
  rw [IdPacket.body, List.length_append, List.length_append]
  rfl

theorem body_lt : p.body.length < 268435456 := by
  have hl := p.length
  rw [body_length, front_length]
  split <;> omega

/-- Behind the header and the length field stands the body. -/
theorem getD_body (j : Nat) :
    (p.bytes ++ tail).getD (1 + (varint p.body.length).length + j) 0 = (p.body ++ tail).getD j 0 := by
  rw [IdPacket.bytes, List.cons_append, List.append_assoc, Nat.add_assoc, Nat.add_comm 1, List.getD_cons_succ,
    List.getD_append_right _ _ _ _ (Nat.le_add_right _ _), Nat.add_sub_cancel_left]

theorem getD_id : (p.bytes ++ tail).getD (p.place + 1) 0 = p.id.toUInt8 := by
  rw [IdPacket.place, Nat.add_assoc, getD_body, IdPacket.body, List.append_assoc, List.append_assoc,
    List.getD_append_right _ _ _ _ (Nat.le_add_right _ 1), Nat.add_sub_cancel_left]
  exact low_byte p.id

theorem numRemLen_bytes : mqttNumRemLenBytes (p.bytes ++ tail) = (varint p.body.length).length := by
  rw [IdPacket.bytes, List.cons_append, List.append_assoc]
  exact numRemLen_of_lt (body_lt p) _

/-- The byte that is returned: of a `PUBLISH` the one behind the place cut to eight bits. -/
theorem parseMsgId_eq : mqttParseMsgIdAny (p.bytes ++ tail) =
    (p.bytes ++ tail).getD ((if p.header &&& 0xf0 = 0x30 then p.place % 256 else p.place) + 1) 0 := by
  have htype : mqttParseMessageType (p.bytes ++ tail) = p.header &&& 0xf0 := rfl
  have hqos : mqttParseMessageQos (p.bytes ++ tail) = (p.header &&& 0x06) >>> 1 := rfl
  rw [mqttParseMsgIdAny]
  simp only [htype, hqos, numRemLen_bytes, if_pos (And.intro p.type_ge p.type_le)]
  by_cases hp : p.header &&& 0xf0 = 0x30
  · have hne : (p.header &&& 0x06) >>> 1 ≠ 0 := by
      rcases p.qos hp with h | h <;> rw [h] <;> decide
    have hlow : (p.body ++ tail).getD 1 0 = (UInt16.ofNat p.topic.length).toUInt8 := by
      rw [IdPacket.body, IdPacket.front, if_pos hp]
      exact low_byte _
    have hplace : p.place = 1 + (varint p.body.length).length + (2 + p.topic.length) := by
      rw [IdPacket.place, front_length, if_pos hp]
    have hoffset : ((UInt16.ofNat p.topic.length).toUInt8 +
        (1 + UInt8.ofNat (varint p.body.length).length + 2)).toNat = p.place % 256 := by
      have ht := p.topic_length
      simp only [UInt8.toNat_add, UInt16.toNat_toUInt8, UInt16.toNat_ofNat', UInt8.toNat_ofNat',
        UInt8.reduceToNat, hplace]
      omega
    rw [if_pos hp, if_pos hne, if_pos hp, narrowU16_eq, narrowU16_eq, getD_body, hlow, hoffset]
  · have hplace : p.place = 1 + (varint p.body.length).length := by
      rw [IdPacket.place, front_length, if_neg hp, Nat.add_zero]
    rw [if_neg hp, if_neg hp, narrowU16_eq, hplace]

/-- The id is read, and `MQTT_handlePacket` goes on with the login when a `SUBACK`
has the id that `mqtt_subscribe` stored last. -/
structure IdDecoded : Prop where
  parsed : (mqttParseMsgIdAny (p.bytes ++ tail)).toUInt16 = p.id
  suback : p.header &&& 0xf0 = 0x90 → ∀ (send send' : Bool) (next : MqttStatus) (s : CloudSt), s.seq = p.id →
    let s' := subscribeTopic send next s
    dispatchPacket send' (p.bytes ++ tail) s' =
      mqttSubLoginTopic send' { s' with obs := s'.obs ++ [.suback (subackId (p.bytes ++ tail))] }

variable {p tail}

theorem dispatch_suback {buf : List UInt8} (ht : mqttParseMessageType buf = 0x90) {s : CloudSt}
    (hid : s.gMsgsubId = (mqttParseMsgId buf).toUInt16) (send : Bool) :
    dispatchPacket send buf s = mqttSubLoginTopic send { s with obs := s.obs ++ [.suback (subackId buf)] } := by
  rw [dispatchPacket, ht]
  exact if_pos hid

theorem subscribeTopic_id (send : Bool) (next : MqttStatus) (s : CloudSt) :
    (subscribeTopic send next s).gMsgsubId = s.seq := by
  cases send <;> rfl

theorem parseMsgId_suback (h : p.header &&& 0xf0 = 0x90) :
    mqttParseMsgIdAny (p.bytes ++ tail) = mqttParseMsgId (p.bytes ++ tail) := by
  have htype : mqttParseMessageType (p.bytes ++ tail) = 0x90 := h
  rw [mqttParseMsgIdAny, htype]
  rfl

/-- **A message id is read right** exactly when it is below 256 and, in a
`PUBLISH`, stands within the first 256 bytes, or the byte that is read in its
place happens to be the same. -/
theorem msg_id_decoded_iff (p : IdPacket) (tail : List UInt8) :
    IdDecoded p tail ↔ p.id.toNat < 256 ∧ (p.header &&& 0xf0 = 0x30 →
      p.place < 256 ∨ (p.bytes ++ tail).getD (p.place % 256 + 1) 0 = p.id.toUInt8) := by
  have hparsed : (mqttParseMsgIdAny (p.bytes ++ tail)).toUInt16 = p.id ↔ p.id.toNat < 256 ∧
      (p.header &&& 0xf0 = 0x30 →
        p.place < 256 ∨ (p.bytes ++ tail).getD (p.place % 256 + 1) 0 = p.id.toUInt8) := by
    rw [toUInt16_eq_iff, parseMsgId_eq]
    apply and_congr_right
    intro _
    by_cases hp : p.header &&& 0xf0 = 0x30
    · rw [if_pos hp]
      simp only [hp, true_imp_iff]
      refine ⟨.inr, fun h => h.elim (fun hlt => ?_) id⟩
      rw [Nat.mod_eq_of_lt hlt]
      exact getD_id p tail
    · rw [if_neg hp, getD_id]
      simp [hp]
  rw [← hparsed]
  refine ⟨IdDecoded.parsed, fun h => ⟨h, fun hs send send' next s hseq => ?_⟩⟩
  have htype : mqttParseMessageType (p.bytes ++ tail) = 0x90 := hs
  apply dispatch_suback htype
  rw [subscribeTopic_id, hseq, ← parseMsgId_suback hs]
  exact h.symm

end

def lateSuback : IdPacket where
  header := 0x90
  topic := []
  id := 256
  rest := [0]
  type_ge := by decide
  type_le := by decide
  qos := by decide
  topic_length := by decide
  length := by decide

theorem late_suback_missed : ¬ ∀ (p : IdPacket) (tail : List UInt8), IdDecoded p tail := by
  intro hall
  have h := toUInt16_eq_iff.mp (hall lateSuback []).parsed
  exact absurd h.1 (by decide)

end GizwitsSdk
