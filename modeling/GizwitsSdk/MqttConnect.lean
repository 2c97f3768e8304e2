import GizwitsSdk.Lib.Buffer
import GizwitsSdk.MqttPublish
import GizwitsSdk.MqttSend

/-!
# Reading a `CONNECT` back

The server reads the packet by the layout of MQTT 3.1. It finds the strings of
the broker up to their NUL; `clientid` is the one of the three that can be full,
and then `username` is read as its end.
-/

namespace GizwitsSdk

open Lib

structure Connect where
  protocol : List UInt8
  level : UInt8
  cleanSession : Bool
  keepAlive : UInt16
  clientid : List UInt8
  username : Option (List UInt8)
  password : Option (List UInt8)
  deriving DecidableEq

/-! ## The layout -/

/-- A field that is there if its flag is set. -/
def readOptional (flag : Bool) (l : List UInt8) : Option (Option (List UInt8) × List UInt8) :=
  if flag then (readField l).map fun r => (some r.1, r.2) else some (none, l)

/-- Behind the fixed header: the protocol, four bytes, the fields, and no more. The
flags of a will are not set. -/
def decodeConnectBody (body : List UInt8) : Option Connect :=
  (readField body).bind fun protocol =>
    let flags := protocol.2.getD 1 0
    if protocol.2.length < 4 ∨ flags &&& 0x3d ≠ 0 then none
    else
      (readField (protocol.2.drop 4)).bind fun clientid =>
      (readOptional (flags &&& 0x80 ≠ 0) clientid.2).bind fun username =>
      (readOptional (flags &&& 0x40 ≠ 0) username.2).bind fun password =>
        if password.2 = [] then
          some
            { protocol := protocol.1
              level := protocol.2.getD 0 0
              cleanSession := flags &&& 0x02 ≠ 0
              keepAlive := ((protocol.2.getD 2 0).toUInt16 <<< 8) ||| (protocol.2.getD 3 0).toUInt16
              clientid := clientid.1
              username := username.1
              password := password.1 }
        else none

/-- The remaining length is the number of bytes behind it. -/
def decodeConnect (p : List UInt8) : Option Connect :=
  if p.head? = some 0x10 then
    (readVarint p.tail).bind fun r => if r.1 = r.2.length then decodeConnectBody r.2 else none
  else none

/-! ## The packet of a broker -/

/-- A `char` array as a C string. -/
def cstr (mem : List UInt8) : List UInt8 := mem.takeWhile (· ≠ 0)

def stored (mem : List UInt8) : Option (List UInt8) := if cstr mem = [] then none else some (cstr mem)

def mqisdp : List UInt8 := [0x4d, 0x51, 0x49, 0x73, 0x64, 0x70]

def connectOf (b : MqttBroker) : Connect where
  protocol := mqisdp
  level := 3
  cleanSession := b.cleanSession
  keepAlive := b.alive
  clientid := cstr (b.clientid ++ b.username)
  username := stored b.username
  password := stored b.password

theorem cstr_length_lt {mem : List UInt8} (h : mem.length < 65536) : (cstr mem).length < 65536 :=
  Nat.lt_of_le_of_lt (List.takeWhile_sublist _).length_le h

theorem strlen_toNat {mem : List UInt8} (h : mem.length < 65536) : (strlen mem).toNat = (cstr mem).length :=
  u16_toNat (cstr_length_lt h)

theorem strlen_eq_zero {mem : List UInt8} (h : mem.length < 65536) : strlen mem = 0 ↔ cstr mem = [] := by
  rw [← UInt16.toNat_inj, strlen_toNat h, ← List.length_eq_zero_iff]
  rfl

theorem u16Bytes_eq (n : UInt16) : u16Bytes n = [.ofNat (n.toNat / 256), .ofNat (n.toNat % 256)] := by
  have h1 : (n >>> 8).toUInt8 = .ofNat (n.toNat / 256) := by
    rw [← UInt8.toNat_inj, u16Bytes_high, ofNat_toNat_of_lt]
    have hn := n.toNat_lt
    omega
  have h2 : (n &&& 0xff).toUInt8 = .ofNat (n.toNat % 256) := by
    rw [← UInt8.toNat_inj, u16Bytes_low, ofNat_toNat_of_lt (Nat.mod_lt _ (by decide))]
  rw [u16Bytes, h1, h2]

theorem utfField_cstr {mem : List UInt8} (h : mem.length < 65536) : utfField (strlen mem) mem = field (cstr mem) := by
  have htake : mem.take (cstr mem).length = cstr mem := (List.prefix_iff_eq_take.mp (List.takeWhile_prefix _)).symm
  rw [utfField, u16Bytes_eq, strlen_toNat h, htake]
  rfl

theorem readOptional_stored {mem : List UInt8} (h : mem.length < 65536) (rest : List UInt8) :
    readOptional (strlen mem ≠ 0) ((if strlen mem ≠ 0 then utfField (strlen mem) mem else []) ++ rest) =
      some (stored mem, rest) := by
  by_cases hz : cstr mem = []
  · have hs : strlen mem = 0 := (strlen_eq_zero h).mpr hz
    simp [readOptional, stored, hs, hz]
  · have hs : strlen mem ≠ 0 := fun he => hz ((strlen_eq_zero h).mp he)
    simp [readOptional, stored, hs, hz, utfField_cstr h, readField_field (cstr_length_lt h)]

def flagsOf (username password cleanSession : Bool) : UInt8 :=
  (if username then 0x80 else 0) ||| (if password then 0x40 else 0) ||| (if cleanSession then 0x02 else 0)

/-- Each flag tells of its field, and none of a will. -/
theorem flagsOf_bits : ∀ u w c : Bool, flagsOf u w c &&& 0x3d = 0 ∧ decide (flagsOf u w c &&& 0x80 ≠ 0) = u ∧
    decide (flagsOf u w c &&& 0x40 ≠ 0) = w ∧ decide (flagsOf u w c &&& 0x02 ≠ 0) = c := by
  decide

theorem connectFlags_eq (b : MqttBroker) : connectFlags b =
    flagsOf (decide (strlen b.username ≠ 0)) (decide (strlen b.password ≠ 0)) b.cleanSession := by
  simp [connectFlags, flagsOf]

theorem connectBody_fields (b : MqttBroker) : connectBody b =
    field mqisdp ++ (0x03 :: connectFlags b :: (b.alive >>> 8).toUInt8 :: (b.alive &&& 0xff).toUInt8 ::
      (utfField (strlen (b.clientid ++ b.username)) (b.clientid ++ b.username) ++
        ((if strlen b.username ≠ 0 then utfField (strlen b.username) b.username else []) ++
          ((if strlen b.password ≠ 0 then utfField (strlen b.password) b.password else []) ++ [])))) := by
  simp only [connectBody, List.append_assoc, List.append_nil]
  rfl

theorem decodeConnectBody_connect (b : MqttBroker) : decodeConnectBody (connectBody b) = some (connectOf b) := by
  obtain ⟨hwill, hu, hw, hc⟩ :=
    flagsOf_bits (decide (strlen b.username ≠ 0)) (decide (strlen b.password ≠ 0)) b.cleanSession
  rw [← connectFlags_eq] at hwill hu hw hc
  have hlc : (b.clientid ++ b.username).length < 65536 := by
    rw [List.length_append, b.clientid_length, b.username_length]
    decide
  have hlu : b.username.length < 65536 := by rw [b.username_length]; decide
  have hlp : b.password.length < 65536 := by rw [b.password_length]; decide
  rw [connectBody_fields, decodeConnectBody, readField_field (by decide), Option.bind_some]
  simp only [List.getD_cons_succ, List.getD_cons_zero, List.length_cons, List.drop_succ_cons, List.drop_zero]
  rw [if_neg (by rw [hwill]; simp), utfField_cstr hlc, readField_field (cstr_length_lt hlc), Option.bind_some]
  simp only [hu, readOptional_stored hlu, Option.bind_some, hw, readOptional_stored hlp, hc, u16Bytes_join, if_true]
  rfl

/-- **The server reads the strings of the broker** from the packet, whatever they are. -/
theorem decodeConnect_connect (b : MqttBroker) : decodeConnect (mqttConnect b) = some (connectOf b) := by
  obtain ⟨hlt, hshape⟩ := connect_shape b
  rw [hshape, fixedHeader_varint (by omega)]
  simp only [decodeConnect, List.cons_append, List.head?_cons, List.tail_cons, readVarint_varint,
    Option.bind_some, if_true]
  exact decodeConnectBody_connect b

/-! ## What the application gave -/

def mqttSetAlive (b : MqttBroker) (alive : UInt16) : MqttBroker := { b with alive }

theorem cstr_stop {w : List UInt8} (h : (0 : UInt8) ∉ w) (k : Nat) (rest : List UInt8) :
    cstr (w ++ (List.replicate (k + 1) 0 ++ rest)) = w := by
  rw [List.replicate_succ, List.cons_append]
  exact takeWhile_append_stop h (List.replicate k 0 ++ rest)

theorem take_nulFree (s : CString) (n : Nat) : (0 : UInt8) ∉ s.bytes.take n :=
  fun h => s.nulFree (List.take_subset n _ h)

/-- A copy that leaves the last byte of a cleared array. -/
theorem cstr_strncpy (s : CString) {n k : Nat} (h : n < k) :
    cstr (strncpy (List.replicate k 0) s.bytes n) = s.bytes.take n := by
  obtain ⟨j, hj⟩ := Nat.exists_eq_add_of_lt h
  have hzeros : List.replicate (n - s.bytes.length) (0 : UInt8) ++ (List.replicate k 0).drop n =
      List.replicate (n - s.bytes.length + j + 1) 0 ++ [] := by
    rw [List.drop_replicate, List.append_nil, List.replicate_append_replicate]
    congr 1
    omega
  rw [strncpy, List.append_assoc, hzeros]
  exact cstr_stop (take_nulFree s n) _ _

/-- A copy over the whole array, with what stands behind the array. -/
theorem cstr_clientid (s : CString) (behind : List UInt8) :
    cstr (strncpy (List.replicate 50 0) s.bytes 50 ++ behind) =
      if s.bytes.length < 50 then s.bytes else s.bytes.take 50 ++ cstr behind := by
  have hdrop : (List.replicate 50 (0 : UInt8)).drop 50 = [] := rfl
  rw [strncpy, hdrop, List.append_nil, List.append_assoc]
  split
  · obtain ⟨k, hk⟩ : ∃ k, 50 - s.bytes.length = k + 1 := ⟨49 - s.bytes.length, by omega⟩
    rw [hk, List.take_of_length_le (by omega)]
    exact cstr_stop s.nulFree k behind
  · have h0 : 50 - s.bytes.length = 0 := by omega
    rw [h0]
    exact takeWhile_append_clear (take_nulFree s 50) behind

theorem stored_auth (s : CString) :
    stored (if s.bytes = [] then List.replicate 24 0 else strncpy (List.replicate 24 0) s.bytes 23) =
      if s.bytes = [] then none else some (s.bytes.take 23) := by
  by_cases h : s.bytes = []
  · rw [if_pos h, if_pos h]
    decide
  · have hne : s.bytes.take 23 ≠ [] := by simp [h]
    rw [if_neg h, if_neg h, stored, cstr_strncpy s (by decide), if_neg hne]

/-- The broker after `mqtt_init` and `mqtt_init_auth`. -/
def givenBroker (clientid username password : CString) (alive : UInt16) : MqttBroker :=
  mqttSetAlive (mqttInitAuth (mqttInit (some clientid)) username password) alive

/-- What is to be read back: each string up to the length that its array holds with a NUL. -/
def givenConnect (clientid username password : CString) (alive : UInt16) : Connect where
  protocol := mqisdp
  level := 3
  cleanSession := true
  keepAlive := alive
  clientid := clientid.bytes.take 49
  username := if username.bytes = [] then none else some (username.bytes.take 23)
  password := if password.bytes = [] then none else some (password.bytes.take 23)

theorem connectOf_given (clientid username password : CString) (alive : UInt16) :
    connectOf (givenBroker clientid username password alive) =
      { givenConnect clientid username password alive with
        clientid := if clientid.bytes.length < 50 then clientid.bytes
          else clientid.bytes.take 50 ++ cstr (givenBroker clientid username password alive).username } := by
  have hc := cstr_clientid clientid (givenBroker clientid username password alive).username
  have hu := stored_auth username
  have hp := stored_auth password
  simp only [connectOf, givenConnect, ← hc, ← hu, ← hp]
  rfl

/-- **The `CONNECT` says what was given** exactly when the client id has less
than the 50 bytes of its array. -/
theorem connect_round_trip_iff (clientid username password : CString) (alive : UInt16) :
    decodeConnect (mqttConnect (givenBroker clientid username password alive)) =
      some (givenConnect clientid username password alive) ↔ clientid.bytes.length < 50 := by
  rw [decodeConnect_connect, Option.some_inj, connectOf_given]
  constructor
  · intro h
    have hid := congrArg (fun c => c.clientid.length) h
    by_contra hn
    simp only [if_neg hn, givenConnect, List.length_append, List.length_take] at hid
    omega
  · intro h
    rw [if_pos h, givenConnect, List.take_of_length_le (by omega)]

theorem connect_runs_on : ¬ ∀ (clientid username password : CString) (alive : UInt16),
    decodeConnect (mqttConnect (givenBroker clientid username password alive)) =
      some (givenConnect clientid username password alive) := by
  intro hall
  have h := hall ⟨List.replicate 50 97, by decide⟩ ⟨[98], by decide⟩ ⟨[], by decide⟩ 120
  rw [decodeConnect_connect, Option.some_inj] at h
  exact absurd (congrArg (fun c => c.clientid.length) h) (by decide +kernel)

end GizwitsSdk
