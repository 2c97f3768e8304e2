import GizwitsSdk.LanDispatch

/-!
# P0 frames

The device frames a payload as four bytes of version, a length of one or two
bytes, a flag, a command of two bytes and the payload. Both decoders count the
width of the length field one byte too far on, where a long frame has the
second byte of that field and a short one has the flag: they always find one
byte, so they decode the frames whose length takes one.
-/

namespace GizwitsSdk

open Lib

/-! ## Encoders -/

def toShort (n : Int) : Int := Int.bmod n 65536

def toU8 (n : Int) : UInt8 := .ofNat (n % 256).toNat

/-- `Tran2varc`: the bytes `var[0 .. varcbty)`. -/
def tran2varc (remainLen : Int) : List UInt8 :=
  if remainLen ≤ 127 then [toU8 remainLen]
  else [toU8 (remainLen % 128) ||| 0x80, toU8 (remainLen / 128)]

def addW2PHead (uLen : Int) (cmd : UInt8) : List UInt8 :=
  [0, 0, 0, 3] ++ tran2varc uLen ++ [0, 0, cmd]

/-- `SendPack` of `Dev_SendPacket2Phone` for the payload `pload`. -/
def phoneSendPack (pload : List UInt8) (cmd : UInt8) : List UInt8 :=
  addW2PHead (toShort (pload.length + 3)) cmd ++ pload

/-- What `MCU_SendPublishPacket` publishes, if it does, when memory can be had. -/
def mcuSendPublishPacket (running : Bool) (uartbuf : List UInt8) : Option (List UInt8) :=
  if !running then none
  else if uartbuf.getD 0 0 = 0xff ∧ uartbuf.getD 1 0 = 0xff then
    let p0 := uartbuf.drop 8
    some ([0, 0, 0, 3] ++ tran2varc (toShort (1 + 2 + p0.length)) ++ [0, 0, 0x91] ++ p0)
  else none

/-! ## The cloud's decoder -/

/-- The offset and the length that `MQTT_DoCloudMCUCmd` hands on; `none` when
the length field runs out of the buffer. -/
def mqttDoCloudMCUCmd (pHiP0Data : List UInt8) : Option (Nat × UInt16) :=
  (mqttParseRemLen (pHiP0Data.drop 3)).map fun datalen =>
    (7 + mqttNumRemLenBytes (pHiP0Data.drop 4), datalen - 3)

/-! ## Agreement -/

/-- Frame `f` of command `cmd`, whose last `n` bytes are the payload, is decoded
back by both decoders, whatever lies after it. -/
def DecodedBack (f : List UInt8) (cmd : UInt8) (n : Nat) : Prop :=
  ∀ rest, lanCmd (f ++ rest) = cmd ∧
    (cmd = 0x90 → ∀ login enable nSocket, loggedIn login nSocket = true →
      dispatchTCPData login enable nSocket (f ++ rest) =
        some (.mcuData (f.length - n) (.ofNat n))) ∧
    mqttDoCloudMCUCmd (f ++ rest) = some (f.length - n, .ofNat n)

section
variable {n : Nat}

theorem toShort_small {m : Int} (h0 : 0 ≤ m) (h : m < 32768) : toShort m = m := by
  unfold toShort
  rw [Int.bmod_eq_of_le] <;> omega

theorem toU8_natCast {k : Nat} (h : k < 256) : toU8 k = .ofNat k := by
  unfold toU8
  congr 1
  omega

theorem tran2varc_varint (h : n < 16384) : tran2varc n = varint n := by
  unfold tran2varc
  by_cases h1 : n < 128
  · rw [if_pos (by omega), varint_one h1, toU8_natCast (by omega)]
  · have e1 : ((n : Int) % 128) = ((n % 128 : Nat) : Int) := by omega
    have e2 : ((n : Int) / 128) = ((n / 128 : Nat) : Int) := by omega
    rw [if_neg (by omega), varint_two (by omega) h, e1, e2, toU8_natCast (by omega),
      toU8_natCast (by omega), or_80 _ (by rw [ofNat_toNat_of_lt (by omega)]; omega),
      ofNat_toNat_of_lt (by omega)]

theorem phoneSendPack_eq {pload : List UInt8} {cmd : UInt8} (h : pload.length + 3 < 16384) :
    phoneSendPack pload cmd =
      [0, 0, 0, 3] ++ (varint (pload.length + 3) ++ ([0, 0, cmd] ++ pload)) := by
  unfold phoneSendPack addW2PHead
  rw [toShort_small (by omega) (by omega)]
  have := tran2varc_varint h
  rw [show ((pload.length + 3 : Nat) : Int) = (pload.length : Int) + 3 by omega] at this
  rw [this]
  simp only [List.append_assoc]

theorem mcuSendPublishPacket_eq {uartbuf : List UInt8} (h0 : uartbuf.getD 0 0 = 0xff)
    (h1 : uartbuf.getD 1 0 = 0xff) :
    mcuSendPublishPacket true uartbuf = some (phoneSendPack (uartbuf.drop 8) 0x91) := by
  unfold mcuSendPublishPacket phoneSendPack addW2PHead
  rw [if_neg (by decide), if_pos ⟨h0, h1⟩]
  simp only [List.append_assoc]
  congr 5
  omega

theorem lanVarlen_frame {rest : List UInt8} (h : n < 16384) :
    mqttNumRemLenBytes (([0, 0, 0, 3] ++ (varint n ++ 0 :: rest)).drop 4) = 1 := by
  have h0 : ¬ (0 : UInt8) &&& 0x80 = 0x80 := by decide
  unfold mqttNumRemLenBytes
  by_cases h1 : n < 128
  · simp only [varint_one h1, List.cons_append, List.nil_append, List.drop_succ_cons, List.drop_zero,
      List.getD_cons_succ, List.getD_cons_zero]
    rw [if_neg h0]
  · have h2 : ¬ UInt8.ofNat (n / 128) &&& 0x80 = 0x80 := by
      rw [top_bit_eq, ofNat_toNat_of_lt (by omega)]; omega
    simp only [varint_two (show 128 ≤ n by omega) h, List.cons_append, List.nil_append,
      List.drop_succ_cons, List.drop_zero, List.getD_cons_succ, List.getD_cons_zero]
    rw [if_neg h2]

theorem datalen_frame {rest : List UInt8} (h : n < 16384) :
    mqttParseRemLen (([0, 0, 0, 3] ++ (varint n ++ rest)).drop 3) = some (.ofNat n) := by
  unfold mqttParseRemLen
  rw [List.drop_drop]
  exact remLenLoop_varint h

theorem ofNat_sub_three : UInt16.ofNat (n + 3) - 3 = UInt16.ofNat n := by
  rw [UInt16.ofNat_add]
  exact UInt16.add_sub_cancel _ _

theorem mqttDoCloudMCUCmd_frame {rest : List UInt8} (h : n + 3 < 16384) :
    mqttDoCloudMCUCmd ([0, 0, 0, 3] ++ (varint (n + 3) ++ 0 :: rest)) = some (8, .ofNat n) := by
  unfold mqttDoCloudMCUCmd
  rw [lanVarlen_frame h, datalen_frame h, Option.map_some, ofNat_sub_three]

theorem phoneSendPack_decoded {pload : List UInt8} {cmd : UInt8} (h : pload.length + 3 < 16384) :
    DecodedBack (phoneSendPack pload cmd) cmd pload.length ↔ pload.length ≤ 124 := by
  have hlen : (phoneSendPack pload cmd).length - pload.length =
      4 + (varint (pload.length + 3)).length + 3 := by
    rw [phoneSendPack_eq h]
    simp only [List.length_append, List.length_cons, List.length_nil]
    omega
  have happ : ∀ rest, phoneSendPack pload cmd ++ rest =
      [0, 0, 0, 3] ++ (varint (pload.length + 3) ++ 0 :: ([0, cmd] ++ pload ++ rest)) := by
    intro rest
    rw [phoneSendPack_eq h]
    simp only [List.append_assoc, List.cons_append, List.nil_append]
  constructor
  · intro hd
    have hc := (hd []).2.2
    rw [happ, mqttDoCloudMCUCmd_frame h, hlen, Option.some_inj, Prod.mk.injEq] at hc
    by_contra hgt
    rw [varint_two (by omega) h] at hc
    simp at hc
  · intro hle rest
    have h1 : varint (pload.length + 3) = [.ofNat (pload.length + 3)] := varint_one (by omega)
    have hcmd : lanCmd (phoneSendPack pload cmd ++ rest) = cmd := by
      unfold lanCmd lanVarlen
      rw [happ, lanVarlen_frame h, h1]
      rfl
    rw [hlen]
    refine ⟨hcmd, ?_, ?_⟩
    · intro h90 login enable nSocket hl
      unfold dispatchTCPData lanSwitch
      simp only [hcmd]
      rw [happ, if_pos (by rfl), datalen_frame h, Option.map_some]
      unfold lanVarlen
      rw [lanVarlen_frame h, ofNat_sub_three, h1, h90, if_neg (by decide), if_neg (by decide),
        if_pos rfl, if_pos hl]
      rfl
    · rw [happ, mqttDoCloudMCUCmd_frame h, h1]
      rfl

end

/-- **P0 frames.** Of the frames that the device lays out for phones and for
the cloud, those with at most 124 bytes of payload are decoded back. -/
theorem p0_frame_iff {pload : List UInt8} (h : pload.length + 3 ≤ 16383) (cmd : UInt8)
    (b₂ b₃ b₄ b₅ b₆ b₇ : UInt8) :
    (DecodedBack (phoneSendPack pload cmd) cmd pload.length ↔ pload.length ≤ 124) ∧
    ∃ f, mcuSendPublishPacket true ([0xff, 0xff, b₂, b₃, b₄, b₅, b₆, b₇] ++ pload) = some f ∧
      (DecodedBack f 0x91 pload.length ↔ pload.length ≤ 124) :=
  have h : pload.length + 3 < 16384 := by omega
  ⟨phoneSendPack_decoded h, _, mcuSendPublishPacket_eq rfl rfl, phoneSendPack_decoded h⟩

/-- A control frame with two bytes of payload. -/
theorem p0_frame_short :
    (DecodedBack (phoneSendPack [1, 3] 0x90) 0x90 2 ↔ 2 ≤ 124) ∧
    ∃ f, mcuSendPublishPacket true ([0xff, 0xff, 0, 7, 0, 0x91, 0, 0] ++ [1, 3]) = some f ∧
      (DecodedBack f 0x91 2 ↔ 2 ≤ 124) :=
  @p0_frame_iff [1, 3] (by decide) 0x90 0 7 0 0x91 0 0

/-- With 125 bytes of payload the length takes two bytes, and the payload is found too early. -/
theorem p0_frame_long :
    ¬ ∀ (pload : List UInt8) (cmd : UInt8), pload.length + 3 ≤ 16383 →
      DecodedBack (phoneSendPack pload cmd) cmd pload.length := by
  intro h
  have hd := h (List.replicate 125 0) 0x90 (by rw [List.length_replicate]; decide)
  rw [phoneSendPack_decoded (by rw [List.length_replicate]; decide), List.length_replicate] at hd
  exact absurd hd (by decide)

end GizwitsSdk
