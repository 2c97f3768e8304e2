import GizwitsSdk.MqttLib
import Mathlib.Data.List.TakeWhile

/-!
# What `mqttlib.c` sends

Each function builds one packet. `mqtt_connect` and the publishers write the
remaining length in one or two bytes; `mqtt_subscribe` and `mqtt_unsubscribe`
always write one, whatever the topic. A C string is the list of its bytes
before the NUL, a `char` array the list of all its bytes.
-/

namespace GizwitsSdk

open Lib

structure CString where
  bytes : List UInt8
  nulFree : (0 : UInt8) ∉ bytes

def strlen (mem : List UInt8) : UInt16 := .ofNat (mem.takeWhile (· ≠ 0)).length

/-- `strncpy(dst, src, n)` over the first `n` bytes of `dst`. -/
def strncpy (dst src : List UInt8) (n : Nat) : List UInt8 :=
  src.take n ++ List.replicate (n - src.length) 0 ++ dst.drop n

/-! ## The broker -/

/-- `mqtt_broker_handle_t`, less the socket and the will. `username` and
`password` end in a NUL at the latest at their last byte, `clientid` need not. -/
structure MqttBroker where
  clientid : List UInt8
  username : List UInt8
  password : List UInt8
  cleanSession : Bool
  seq : UInt16
  alive : UInt16
  clientid_length : clientid.length = 50
  username_length : username.length = 24
  username_nul : username.getLast? = some 0
  password_length : password.length = 24
  password_nul : password.getLast? = some 0

def cloutMqttAlive : UInt16 := 120

theorem strncpy_length {dst src : List UInt8} {n : Nat} (h : n ≤ dst.length) :
    (strncpy dst src n).length = dst.length := by
  simp only [strncpy, List.length_append, List.length_take, List.length_replicate, List.length_drop]
  omega

theorem strncpy_getLast? {dst src : List UInt8} {n : Nat} (h : n < dst.length) :
    (strncpy dst src n).getLast? = dst.getLast? := by
  have hl : (dst.drop n).getLast? = dst.getLast? := by
    rw [List.getLast?_drop, if_neg (by omega)]
  have hd : dst ≠ [] := List.ne_nil_of_length_pos (by omega)
  rw [strncpy, List.getLast?_append, hl, List.getLast?_eq_some_getLast hd, Option.some_or]

/-- `mqtt_init`; without a client id it is `emqtt`. -/
def mqttInit (clientid : Option CString) : MqttBroker where
  clientid := strncpy (List.replicate 50 0) (clientid.elim [0x65, 0x6d, 0x71, 0x74, 0x74] CString.bytes) 50
  username := List.replicate 24 0
  password := List.replicate 24 0
  cleanSession := true
  seq := 1
  alive := cloutMqttAlive
  clientid_length := strncpy_length (by decide)
  username_length := rfl
  username_nul := rfl
  password_length := rfl
  password_nul := rfl

/-- `mqtt_init_auth`; an empty argument leaves the field alone. -/
def mqttInitAuth (b : MqttBroker) (username password : CString) : MqttBroker :=
  { b with
    username := if username.bytes = [] then b.username else strncpy b.username username.bytes 23
    password := if password.bytes = [] then b.password else strncpy b.password password.bytes 23
    username_length := by
      split
      · exact b.username_length
      · rw [strncpy_length (by rw [b.username_length]; decide), b.username_length]
    username_nul := by
      split
      · exact b.username_nul
      · rw [strncpy_getLast? (by rw [b.username_length]; decide), b.username_nul]
    password_length := by
      split
      · exact b.password_length
      · rw [strncpy_length (by rw [b.password_length]; decide), b.password_length]
    password_nul := by
      split
      · exact b.password_nul
      · rw [strncpy_getLast? (by rw [b.password_length]; decide), b.password_nul] }

def MqttBroker.nextSeq (b : MqttBroker) : MqttBroker := { b with seq := b.seq + 1 }

/-! ## Packets -/

def u16Bytes (n : UInt16) : List UInt8 := [(n >>> 8).toUInt8, (n &&& 0xff).toUInt8]

/-- A field with its length in front: `len` bytes from the head of `src`. -/
def utfField (len : UInt16) (src : List UInt8) : List UInt8 := u16Bytes len ++ src.take len.toNat

def fixedHeader (first : UInt8) (remainLen : Nat) : List UInt8 :=
  if remainLen ≤ 127 then [first, .ofNat remainLen]
  else [first, .ofNat (remainLen % 128) ||| 0x80, .ofNat (remainLen / 128)]

/-- The `strlen` of `clientid` runs on into `username` if it has no NUL. -/
def mqttConnect (b : MqttBroker) : List UInt8 :=
  let clientidlen := strlen (b.clientid ++ b.username)
  let usernamelen := strlen b.username
  let passwordlen := strlen b.password
  let payloadLen := clientidlen + 2 + (if usernamelen ≠ 0 then usernamelen + 2 else 0) +
    (if passwordlen ≠ 0 then passwordlen + 2 else 0)
  let flags : UInt8 := (if usernamelen ≠ 0 then 0x80 else 0) ||| (if passwordlen ≠ 0 then 0x40 else 0) |||
    (if b.cleanSession then 0x02 else 0)
  let remainLen := (12 + payloadLen).toUInt8
  fixedHeader 0x10 remainLen.toNat ++
    ([0x00, 0x06, 0x4d, 0x51, 0x49, 0x73, 0x64, 0x70, 0x03, flags] ++ u16Bytes b.alive ++
      utfField clientidlen (b.clientid ++ b.username) ++
      (if usernamelen ≠ 0 then utfField usernamelen b.username else []) ++
      (if passwordlen ≠ 0 then utfField passwordlen b.password else []))

def mqttDisconnect : List UInt8 := [0xe0, 0x00]

def mqttPing : List UInt8 := [0xc0, 0x00]

def qosFlag (qos : UInt8) : UInt8 := if qos = 1 then 0x02 else if qos = 2 then 0x04 else 0x00

def qosSize (qos : UInt8) : Nat := if qos = 1 ∨ qos = 2 then 2 else 0

/-- What both publishers send, and the broker after it; they take `msg` in
different forms. -/
def publishPacket (b : MqttBroker) (topic : CString) (msg : List UInt8) (retain qos : UInt8) :
    List UInt8 × MqttBroker :=
  let topiclen : UInt16 := .ofNat topic.bytes.length
  let varHeader := utfField topiclen topic.bytes ++ if qosSize qos ≠ 0 then u16Bytes b.seq else []
  let remainLen : UInt16 := .ofNat (topiclen.toNat + 2 + qosSize qos + msg.length)
  let first := (0x30 : UInt8) ||| qosFlag qos ||| if retain ≠ 0 then 0x01 else 0x00
  (fixedHeader first remainLen.toNat ++ (varHeader ++ msg), if qosSize qos ≠ 0 then b.nextSeq else b)

def mqttPublishWithQos (b : MqttBroker) (topic msg : CString) (retain qos : UInt8) :
    List UInt8 × MqttBroker :=
  publishPacket b topic (msg.bytes.take (UInt16.ofNat msg.bytes.length).toNat) retain qos

def xpgMqttPublishWithQos (b : MqttBroker) (topic : CString) (msg : List UInt8) (retain qos : UInt8) :
    List UInt8 × MqttBroker := publishPacket b topic msg retain qos

def mqttPubrel (messageId : UInt16) : List UInt8 := [0x62, 0x02] ++ u16Bytes messageId

/-- `mqtt_subscribe` and `mqtt_unsubscribe`, the one with a byte of QoS behind the topic. -/
def topicRequest (first : UInt8) (b : MqttBroker) (topic : CString) (qos : List UInt8) :
    List UInt8 × MqttBroker :=
  let topiclen : UInt16 := .ofNat topic.bytes.length
  let utfTopic := utfField topiclen topic.bytes ++ qos
  ([first, .ofNat (2 + (topiclen.toNat + 2 + qos.length))] ++ (u16Bytes b.seq ++ utfTopic), b.nextSeq)

/-- `mqtt_subscribe`; the message id is the broker's `seq`. -/
def mqttSubscribe (b : MqttBroker) (topic : CString) : List UInt8 × MqttBroker :=
  topicRequest 0x82 b topic [0]

def mqttUnsubscribe (b : MqttBroker) (topic : CString) : List UInt8 × MqttBroker :=
  topicRequest 0xa2 b topic []

/-! ## Framing -/

/-- The packet is as long as its own length field says. -/
def Framed (p : List UInt8) : Prop :=
  ∃ v, mqttParseRemLen p = some v ∧ p.length = 1 + mqttNumRemLenBytes p + v.toNat

theorem fixedHeader_varint {first : UInt8} {n : Nat} (h : n < 16384) :
    fixedHeader first n = first :: varint n := by
  unfold fixedHeader
  by_cases h1 : n < 128
  · rw [if_pos (by omega), varint_one h1]
  · have hlt : (UInt8.ofNat (n % 128)).toNat < 128 := by rw [ofNat_toNat_of_lt (by omega)]; omega
    rw [if_neg (by omega), varint_two (by omega) h, or_80 _ hlt, ofNat_toNat_of_lt (by omega)]

theorem framed_varint {first : UInt8} {n : Nat} {body : List UInt8} (h : n < 16384) (hb : body.length = n) :
    Framed (fixedHeader first n ++ body) := by
  rw [fixedHeader_varint h, List.cons_append]
  refine ⟨.ofNat n, ?_, ?_⟩
  · unfold mqttParseRemLen
    exact remLenLoop_varint h
  · have hv : (UInt16.ofNat n).toNat = n := UInt16.toNat_ofNat_of_lt' (by
      have : UInt16.size = 65536 := rfl
      omega)
    rw [numRemLen_varint h, hv, List.length_cons, List.length_append, hb]
    omega

section
variable {mem : List UInt8}

theorem strlen_lt (h : (0 : UInt8) ∈ mem) (hl : mem.length ≤ 65536) : (strlen mem).toNat < mem.length := by
  have hle : (mem.takeWhile (· ≠ 0)).length ≤ mem.length := (List.takeWhile_sublist _).length_le
  have hne : (mem.takeWhile (· ≠ 0)).length ≠ mem.length := by
    intro he
    have heq := (List.takeWhile_sublist (p := (· ≠ (0 : UInt8)))).eq_of_length he
    rw [← heq] at h
    have := List.mem_takeWhile_imp h
    exact absurd this (by decide)
  unfold strlen
  rw [UInt16.toNat_ofNat_of_lt' (by have : UInt16.size = 65536 := rfl; omega)]
  omega

theorem utfField_length (len : UInt16) (src : List UInt8) (h : len.toNat ≤ src.length) :
    (utfField len src).length = 2 + len.toNat := by
  simp only [utfField, u16Bytes, List.length_append, List.length_cons, List.length_nil, List.length_take]
  omega

theorem nul_mem (h : mem.getLast? = some 0) : (0 : UInt8) ∈ mem := List.mem_of_getLast? h

/-- A field that is left out for an empty string, and its share of the length. -/
theorem optionalField_length (mem : List UInt8) {w : UInt16} (hw : w.toNat < 24) (h : w.toNat ≤ mem.length) :
    (if w ≠ 0 then utfField w mem else []).length = (if w ≠ 0 then w + 2 else 0 : UInt16).toNat ∧
      (if w ≠ 0 then utfField w mem else []).length ≤ 25 := by
  by_cases hz : w ≠ 0
  · have h2 : (2 : UInt16).toNat = 2 := rfl
    rw [if_pos hz, if_pos hz, utfField_length w mem h, UInt16.toNat_add, h2]
    omega
  · rw [if_neg hz, if_neg hz]
    exact ⟨rfl, by decide⟩

end

def connectFlags (b : MqttBroker) : UInt8 :=
  (if strlen b.username ≠ 0 then 0x80 else 0) ||| (if strlen b.password ≠ 0 then 0x40 else 0) |||
    (if b.cleanSession then 0x02 else 0)

/-- What `mqtt_connect` puts behind the fixed header. -/
def connectBody (b : MqttBroker) : List UInt8 :=
  [0x00, 0x06, 0x4d, 0x51, 0x49, 0x73, 0x64, 0x70, 0x03, connectFlags b] ++ u16Bytes b.alive ++
    utfField (strlen (b.clientid ++ b.username)) (b.clientid ++ b.username) ++
    (if strlen b.username ≠ 0 then utfField (strlen b.username) b.username else []) ++
    (if strlen b.password ≠ 0 then utfField (strlen b.password) b.password else [])

/-- The byte that `mqtt_connect` has for the remaining length is wide enough. -/
theorem connect_shape (b : MqttBroker) :
    (connectBody b).length < 256 ∧ mqttConnect b = fixedHeader 0x10 (connectBody b).length ++ connectBody b := by
  have hc : (strlen (b.clientid ++ b.username)).toNat < 74 := by
    have := strlen_lt (List.mem_append_right b.clientid (nul_mem b.username_nul))
      (by rw [List.length_append, b.clientid_length, b.username_length]; decide)
    rwa [List.length_append, b.clientid_length, b.username_length] at this
  have hu : (strlen b.username).toNat < 24 := by
    have := strlen_lt (nul_mem b.username_nul) (by rw [b.username_length]; decide)
    rwa [b.username_length] at this
  have hp : (strlen b.password).toNat < 24 := by
    have := strlen_lt (nul_mem b.password_nul) (by rw [b.password_length]; decide)
    rwa [b.password_length] at this
  have hlc := utfField_length (strlen (b.clientid ++ b.username)) (b.clientid ++ b.username)
    (by rw [List.length_append, b.clientid_length, b.username_length]; omega)
  obtain ⟨hlu, hbu⟩ := optionalField_length b.username hu (by rw [b.username_length]; omega)
  obtain ⟨hlw, hbw⟩ := optionalField_length b.password hp (by rw [b.password_length]; omega)
  simp only [mqttConnect, connectBody, connectFlags]
  generalize strlen (b.clientid ++ b.username) = c at *
  generalize strlen b.username = u at *
  generalize strlen b.password = w at *
  generalize (if u ≠ 0 then u + 2 else 0 : UInt16) = lu at *
  generalize (if w ≠ 0 then w + 2 else 0 : UInt16) = lw at *
  generalize (if u ≠ 0 then utfField u b.username else []) = fu at *
  generalize (if w ≠ 0 then utfField w b.password else []) = fw at *
  have h12 : (12 : UInt16).toNat = 12 := rfl
  have h2 : (2 : UInt16).toNat = 2 := rfl
  have hrem : (12 + (c + 2 + lu + lw)).toUInt8.toNat = 14 + c.toNat + fu.length + fw.length := by
    simp only [UInt16.toNat_toUInt8, UInt16.toNat_add, h12, h2]
    omega
  have hbody : ∀ flags : UInt8, ([0x00, 0x06, 0x4d, 0x51, 0x49, 0x73, 0x64, 0x70, 0x03, flags] ++ u16Bytes b.alive ++
      utfField c (b.clientid ++ b.username) ++ fu ++ fw).length = 14 + c.toNat + fu.length + fw.length := by
    intro flags
    simp only [List.length_append, hlc, u16Bytes, List.length_cons, List.length_nil]
    omega
  rw [hbody, hrem]
  exact ⟨by omega, rfl⟩

theorem connect_framed (b : MqttBroker) : Framed (mqttConnect b) := by
  obtain ⟨hlt, hshape⟩ := connect_shape b
  rw [hshape]
  exact framed_varint (by omega) rfl

section
variable {b : MqttBroker} {topic : CString}

theorem u16_toNat {n : Nat} (h : n < 65536) : (UInt16.ofNat n).toNat = n :=
  UInt16.toNat_ofNat_of_lt' h

theorem publish_framed {msg : List UInt8} {retain qos : UInt8}
    (h : topic.bytes.length + 2 + qosSize qos + msg.length ≤ 16383) :
    Framed (publishPacket b topic msg retain qos).1 := by
  have ht := u16_toNat (n := topic.bytes.length) (by omega)
  have hv : (if qosSize qos ≠ 0 then u16Bytes b.seq else []).length = qosSize qos := by
    unfold qosSize
    by_cases hq : qos = 1 ∨ qos = 2
    · simp only [if_pos hq]; rfl
    · simp only [if_neg hq]; rfl
  unfold publishPacket
  simp only [ht]
  rw [u16_toNat (by omega)]
  apply framed_varint (by omega)
  rw [List.length_append, List.length_append, hv, utfField_length _ _ (by omega), ht]
  omega

theorem remLenLoop_mod (bs : List UInt8) {multiplier value v : UInt16} (hm : multiplier.toNat % 128 = 0)
    (h : remLenLoop bs multiplier value = some v) : v.toNat % 128 = value.toNat % 128 := by
  induction bs generalizing multiplier value with
  | nil => cases h
  | cons digit bs ih =>
    have hv : (value + (digit &&& 127).toUInt16 * multiplier).toNat % 128 = value.toNat % 128 := by
      obtain ⟨k, hk⟩ : ∃ k, multiplier.toNat = 128 * k := ⟨multiplier.toNat / 128, by omega⟩
      have hmul : (digit &&& 127).toUInt16.toNat * multiplier.toNat =
          128 * ((digit &&& 127).toUInt16.toNat * k) := by
        rw [hk]; exact Nat.mul_left_comm _ _ _
      simp only [UInt16.toNat_add, UInt16.toNat_mul]
      omega
    have hm' : (multiplier * 128).toNat % 128 = 0 := by
      have h128 : (128 : UInt16).toNat = 128 := rfl
      rw [UInt16.toNat_mul, h128]
      omega
    rw [remLenLoop] at h
    split at h
    · rw [ih hm' h, hv]
    · obtain rfl := Option.some.inj h
      exact hv

theorem not_framed {first : UInt8} {n : Nat} {body : List UInt8} (h : 127 < n) (hn : n ≤ 16383)
    (hb : body.length = n) : ¬ Framed ([first, .ofNat n] ++ body) := by
  rintro ⟨v, hv, hl⟩
  unfold mqttParseRemLen at hv
  rw [List.cons_append, List.drop_one, List.tail_cons, List.singleton_append, remLenLoop] at hv
  have hlow := low7_toNat (.ofNat n)
  rw [UInt8.toNat_ofNat'] at hlow
  have h0 : (0 : UInt16).toNat = 0 := rfl
  have h1 : (1 : UInt16).toNat = 1 := rfl
  have hval : (0 + (UInt8.ofNat n &&& 127).toUInt16 * 1).toNat = n % 128 := by
    simp only [UInt16.toNat_add, UInt16.toNat_mul, UInt8.toNat_toUInt16, hlow, h0, h1]
    omega
  have hlen : ([first, UInt8.ofNat n] ++ body).length = n + 2 := by
    rw [List.length_append, hb, List.length_cons, List.length_cons, List.length_nil]; omega
  rw [hlen] at hl
  have hget : ([first, UInt8.ofNat n] ++ body).getD 1 0 = UInt8.ofNat n := rfl
  by_cases htop : UInt8.ofNat n &&& 128 ≠ 0
  · rw [if_pos htop] at hv
    -- the decoder takes more bytes for digits: the value is still `n` modulo 128
    have hmod := remLenLoop_mod body (by decide) hv
    rw [hval] at hmod
    have hbytes : mqttNumRemLenBytes ([first, UInt8.ofNat n] ++ body) = 2 ∨
        mqttNumRemLenBytes ([first, UInt8.ofNat n] ++ body) = 3 ∨
        mqttNumRemLenBytes ([first, UInt8.ofNat n] ++ body) = 4 := by
      have htop' : UInt8.ofNat n &&& 0x80 = 0x80 := (top_bit_eq _).mpr ((top_bit_ne _).mp htop)
      unfold mqttNumRemLenBytes
      rw [hget, if_pos htop']
      split_ifs
      · exact .inr (.inr rfl)
      · exact .inr (.inl rfl)
      · exact .inl rfl
    omega
  · rw [if_neg htop] at hv
    have hv := congrArg UInt16.toNat (Option.some.inj hv)
    rw [hval] at hv
    have hbytes : mqttNumRemLenBytes ([first, UInt8.ofNat n] ++ body) = 1 := by
      have htop' : ¬ UInt8.ofNat n &&& 0x80 = 0x80 := fun he => htop ((top_bit_ne _).mpr ((top_bit_eq _).mp he))
      unfold mqttNumRemLenBytes
      rw [hget, if_neg htop']
    rw [hbytes] at hl
    omega

theorem topicRequest_framed {first : UInt8} {q : List UInt8}
    (h : 2 + (topic.bytes.length + 2 + q.length) ≤ 16383) :
    Framed (topicRequest first b topic q).1 ↔ 2 + (topic.bytes.length + 2 + q.length) ≤ 127 := by
  have ht := u16_toNat (n := topic.bytes.length) (by omega)
  have hbody : (u16Bytes b.seq ++ (utfField (.ofNat topic.bytes.length) topic.bytes ++ q)).length =
      2 + (topic.bytes.length + 2 + q.length) := by
    rw [List.length_append, List.length_append, utfField_length _ _ (by omega), ht]
    simp only [u16Bytes, List.length_cons, List.length_nil]
    omega
  unfold topicRequest
  simp only [ht]
  generalize u16Bytes b.seq ++ (utfField (.ofNat topic.bytes.length) topic.bytes ++ q) = body at *
  generalize 2 + (topic.bytes.length + 2 + q.length) = n at *
  by_cases hn : n ≤ 127
  · have hf : Framed (fixedHeader first n ++ body) := framed_varint (by omega) hbody
    rw [fixedHeader, if_pos hn] at hf
    exact iff_of_true hf hn
  · exact iff_of_false (not_framed (by omega) h hbody) hn

end

/-! ## Everything that is sent -/

/-- A call that hands a packet to `mqttsend`. -/
inductive Outbound
  | connect (b : MqttBroker)
  | publish (b : MqttBroker) (topic msg : CString) (retain qos : UInt8)
  | xpgPublish (b : MqttBroker) (topic : CString) (msg : List UInt8) (retain qos : UInt8)
  | subscribe (b : MqttBroker) (topic : CString)
  | unsubscribe (b : MqttBroker) (topic : CString)
  | pubrel (messageId : UInt16)
  | ping
  | disconnect

namespace Outbound

def packet : Outbound → List UInt8
  | connect b => mqttConnect b
  | publish b topic msg retain qos => (mqttPublishWithQos b topic msg retain qos).1
  | xpgPublish b topic msg retain qos => (xpgMqttPublishWithQos b topic msg retain qos).1
  | subscribe b topic => (mqttSubscribe b topic).1
  | unsubscribe b topic => (mqttUnsubscribe b topic).1
  | pubrel messageId => mqttPubrel messageId
  | ping => mqttPing
  | disconnect => mqttDisconnect

def remaining : Outbound → Nat
  | connect b =>
    12 + (2 + (strlen (b.clientid ++ b.username)).toNat) +
      (if strlen b.username ≠ 0 then 2 + (strlen b.username).toNat else 0) +
      (if strlen b.password ≠ 0 then 2 + (strlen b.password).toNat else 0)
  | publish _ topic msg _ qos => topic.bytes.length + 2 + qosSize qos + msg.bytes.length
  | xpgPublish _ topic msg _ qos => topic.bytes.length + 2 + qosSize qos + msg.length
  | subscribe _ topic => 2 + (topic.bytes.length + 2 + 1)
  | unsubscribe _ topic => 2 + (topic.bytes.length + 2)
  | pubrel _ => 2
  | ping | disconnect => 0

/-- The packet is a `SUBSCRIBE` or an `UNSUBSCRIBE`. -/
def OneByteLength : Outbound → Prop
  | subscribe _ _ | unsubscribe _ _ => True
  | _ => False

end Outbound

/-- **Outbound framing.** Every packet with a remaining length up to 16383 is as
long as it says, but a `SUBSCRIBE` or an `UNSUBSCRIBE` only up to 127. -/
theorem outbound_framed_iff (o : Outbound) (h : o.remaining ≤ 16383) :
    Framed o.packet ↔ (o.OneByteLength → o.remaining ≤ 127) := by
  cases o with
  | connect b => exact iff_of_true (connect_framed b) fun hc => hc.elim
  | publish b topic msg retain qos =>
    refine iff_of_true ?_ fun hc => hc.elim
    have hm : (UInt16.ofNat msg.bytes.length).toNat = msg.bytes.length := by
      apply u16_toNat
      simp only [Outbound.remaining] at h
      omega
    simp only [Outbound.packet, mqttPublishWithQos, hm, List.take_length]
    exact publish_framed h
  | xpgPublish b topic msg retain qos => exact iff_of_true (publish_framed h) fun hc => hc.elim
  | subscribe b topic => exact (topicRequest_framed (q := [0]) h).trans (true_imp_iff).symm
  | unsubscribe b topic => exact (topicRequest_framed (q := []) h).trans (true_imp_iff).symm
  | pubrel messageId =>
    have hf : Framed (fixedHeader 0x62 2 ++ u16Bytes messageId) := framed_varint (by decide) rfl
    exact iff_of_true hf fun hc => hc.elim
  | ping => exact iff_of_true ⟨0, rfl, rfl⟩ fun hc => hc.elim
  | disconnect => exact iff_of_true ⟨0, rfl, rfl⟩ fun hc => hc.elim

/-- A publication of 200 bytes takes two bytes of length. -/
theorem outbound_framed_publish :
    Framed (Outbound.xpgPublish (mqttInit none) ⟨[97], by decide⟩ (List.replicate 200 1) 0 0).packet ↔
      ((Outbound.xpgPublish (mqttInit none) ⟨[97], by decide⟩ (List.replicate 200 1) 0 0).OneByteLength →
        (Outbound.xpgPublish (mqttInit none) ⟨[97], by decide⟩ (List.replicate 200 1) 0 0).remaining ≤ 127) :=
  outbound_framed_iff _ (by decide +kernel)

/-- A subscription to a topic of 123 bytes says 0, with the top bit for a second
byte that is the message id. -/
theorem outbound_subscribe_long :
    (Outbound.subscribe (mqttInit none) ⟨List.replicate 123 97, by decide +kernel⟩).remaining = 128 ∧
      ¬ Framed (Outbound.subscribe (mqttInit none) ⟨List.replicate 123 97, by decide +kernel⟩).packet := by
  refine ⟨by decide +kernel, ?_⟩
  rintro ⟨v, hv, hl⟩
  have hp : mqttParseRemLen (Outbound.subscribe (mqttInit none) ⟨List.replicate 123 97, by decide +kernel⟩).packet =
      some 0 := by decide +kernel
  rw [hp] at hv
  obtain rfl := Option.some.inj hv
  exact absurd hl (by decide +kernel)

end GizwitsSdk
