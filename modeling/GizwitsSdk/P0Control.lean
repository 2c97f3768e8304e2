import GizwitsSdk.PublishBounds

/-!
# The bytes of a control frame

A control frame says by its flags which of the bytes behind them count, and
nobody compares them with the length that it declares. So the device depends on
the memory behind a frame that is too short for its flags. A list stands for
memory that goes on with 0.
-/

namespace GizwitsSdk

open Lib

/-! ## The control path -/

def deviceControl (attrFlags : UInt8) (ctrlData : List UInt8) (ticks : UInt32) (s : StripSt) : StripSt :=
  stripDataParse attrFlags (fun k => ctrlData.getD k 0) ticks s

/-- The device after a control command, no result for -1. -/
def gAgentV4CtlDevWithP0 (data : List UInt8) (dataLen : UInt16) (ticks : UInt32) (s : StripSt) : Option StripSt :=
  if 4 * 1024 < dataLen.toNat then none
  else if data.getD 1 0 ≠ 0 then some (deviceControl (data.getD 1 0) (data.drop 2) ticks s)
  else some s

def responded (s : StripSt) : StripSt := { s with mcu := reportStatus REPORT_STATUS 0 s.mcu }

/-- `low` as in `ctlAckFrame`. -/
def lanHandleMCUData (low : UInt8 × UInt8) (p0data : List UInt8) (p0len : UInt16) (ticks : UInt32)
    (s : StripSt) : StripSt :=
  ((gAgentV4CtlDevWithP0 p0data p0len ticks s).map fun s =>
    responded { s with mcu := sendCtlAckCmd low 0x04 1 s.mcu }).getD s

def LanCall.control (low : UInt8 × UInt8) (pData : List UInt8) (ticks : UInt32) (s : StripSt) : LanCall → StripSt
  | .mcuData offset len => lanHandleMCUData low (pData.drop offset) len ticks s
  | _ => s

def lanControl (gSocketLogin : SocketLogin) (gPasscodeEnable : Bool) (nSocket : Int) (low : UInt8 × UInt8)
    (ticks : UInt32) (pData : List UInt8) (s : StripSt) : Option StripSt :=
  (dispatchTCPData gSocketLogin gPasscodeEnable nSocket pData).map (LanCall.control low pData ticks s)

def cloudControl (ticks : UInt32) (pHiP0Data : List UInt8) (s : StripSt) : Option StripSt :=
  (mqttDoCloudMCUCmd pHiP0Data).map fun p0 =>
    ((gAgentV4CtlDevWithP0 (pHiP0Data.drop p0.1) p0.2 ticks s).map responded).getD s

/-! ## Messages -/

/-- The end of a frame by its length field, which ends at a byte without the top bit. -/
def declaredLength (f : List UInt8) : Option Nat :=
  (mqttParseRemLen (f.drop 3)).map fun len =>
    4 + (((f.drop 4).takeWhile fun d => d &&& 128 ≠ 0).length + 1) + len.toNat

structure LanFrame where
  bytes : List UInt8
  declared : declaredLength bytes = some bytes.length

/-- A frame on a socket, or the message of a PUBLISH. -/
inductive ControlMsg
  | lan (gSocketLogin : SocketLogin) (gPasscodeEnable : Bool) (nSocket : Int) (frame : LanFrame)
  | cloud (pHiP0Data : List UInt8)

def ControlMsg.bytes : ControlMsg → List UInt8
  | .lan _ _ _ frame => frame.bytes
  | .cloud pHiP0Data => pHiP0Data

def ControlMsg.control (low : UInt8 × UInt8) (ticks : UInt32) (pData : List UInt8) (s : StripSt) :
    ControlMsg → Option StripSt
  | .lan gSocketLogin gPasscodeEnable nSocket _ => lanControl gSocketLogin gPasscodeEnable nSocket low ticks pData s
  | .cloud _ => cloudControl ticks pData s

/-- The control bytes that flags make `strip_data_parse` take. -/
def usesCtrl (attrFlags : UInt8) (k : Nat) : Prop :=
  k = 0 ∧ (isSet attrFlags 0x01 ∨ isSet attrFlags 0x02 ∨ isSet attrFlags 0x04) ∨
    k = 1 ∧ isSet attrFlags 0x08 ∨ (k = 2 ∨ k = 3) ∧ isSet attrFlags 0x10 ∨
      (k = 4 ∨ k = 5) ∧ isSet attrFlags 0x20 ∨ (k = 6 ∨ k = 7) ∧ isSet attrFlags 0x40

def p0At (f : List UInt8) : Nat := 7 + mqttNumRemLenBytes (f.drop 4)

/-- The flags of the payload, and all that they use, are in the frame. -/
def P0Inside (f : List UInt8) (p0 : Nat) : Prop :=
  p0 + 1 < f.length ∧ ∀ k, usesCtrl (f.getD (p0 + 1) 0) k → p0 + 2 + k < f.length

/-- The payload is too long by the length field, whatever the memory behind makes of that. -/
def P0TooLong (f : List UInt8) : Prop :=
  ∀ rest len, mqttParseRemLen ((f ++ rest).drop 3) = some len → 4 * 1024 < (len - 3).toNat

/-- The frame is not one that controls the device, or what counts of it is inside. -/
def ControlMsg.Clear : ControlMsg → Prop
  | .lan gSocketLogin _ nSocket frame =>
    frame.bytes.take 4 ≠ [0, 0, 0, 3] ∨ loggedIn gSocketLogin nSocket = false ∨ P0TooLong frame.bytes ∨
      (∃ cmd, frame.bytes[p0At frame.bytes - 1]? = some cmd ∧ cmd ≠ 0x90) ∨ P0Inside frame.bytes (p0At frame.bytes)
  | .cloud pHiP0Data => P0TooLong pHiP0Data ∨ P0Inside pHiP0Data (p0At pHiP0Data)

/-! ## One payload -/

section
variable {attrFlags : UInt8} {ctrl ctrl' : Nat → UInt8} {ticks : UInt32} {s : StripSt}

theorem parse_congr (h : ∀ k, usesCtrl attrFlags k → ctrl k = ctrl' k) :
    stripDataParse attrFlags ctrl ticks s = stripDataParse attrFlags ctrl' ticks s := by
  have h1 (hf : isSet attrFlags 0x01 = true) : ctrl 0 = ctrl' 0 := h 0 (.inl ⟨rfl, .inl hf⟩)
  have h2 (hf : isSet attrFlags 0x02 = true) : ctrl 0 = ctrl' 0 := h 0 (.inl ⟨rfl, .inr (.inl hf)⟩)
  have h4 (hf : isSet attrFlags 0x04 = true) : ctrl 0 = ctrl' 0 := h 0 (.inl ⟨rfl, .inr (.inr hf)⟩)
  have h8 (hf : isSet attrFlags 0x08 = true) : ctrl 1 = ctrl' 1 := h 1 (.inr (.inl ⟨rfl, hf⟩))
  have h10 (k : Nat) (hk : k = 2 ∨ k = 3) (hf : isSet attrFlags 0x10 = true) : ctrl k = ctrl' k :=
    h k (.inr (.inr (.inl ⟨hk, hf⟩)))
  have h20 (k : Nat) (hk : k = 4 ∨ k = 5) (hf : isSet attrFlags 0x20 = true) : ctrl k = ctrl' k :=
    h k (.inr (.inr (.inr (.inl ⟨hk, hf⟩))))
  have h40 (k : Nat) (hk : k = 6 ∨ k = 7) (hf : isSet attrFlags 0x40 = true) : ctrl k = ctrl' k :=
    h k (.inr (.inr (.inr (.inr ⟨hk, hf⟩))))
  have hset (m : UInt8) (g g' : StripSt → StripSt) (hg : isSet attrFlags m = true → g = g') (s : StripSt) :
      (if isSet attrFlags m then g s else s) = if isSet attrFlags m then g' s else s :=
    ite_congr rfl (fun hf => congrFun (hg hf) s) fun _ => rfl
  have e1 := hset 0x01 (switchSocket (isSet (ctrl 0) 0x01)) _ fun hf => by rw [h1 hf]
  have e2 := hset 0x02 (setTimeOnOff (isSet (ctrl 0) 0x02) ticks) _ fun hf => by rw [h2 hf]
  have e4 := hset 0x04 (setCountDown (isSet (ctrl 0) 0x04)) _ fun hf => by rw [h4 hf]
  have e8 := hset 0x08 (setWeekRepeat (ctrl 1)) _ fun hf => by rw [h8 hf]
  have e10 := hset 0x10 (setTimeOnMinute (decodeInt16 (ctrl 2, ctrl 3)) ticks) _ fun hf => by
    rw [h10 2 (.inl rfl) hf, h10 3 (.inr rfl) hf]
  have e20 := hset 0x20 (setTimeOffMinute (decodeInt16 (ctrl 4, ctrl 5)) ticks) _ fun hf => by
    rw [h20 4 (.inl rfl) hf, h20 5 (.inr rfl) hf]
  have e40 := hset 0x40 (setCountdownMinute (decodeInt16 (ctrl 6, ctrl 7))) _ fun hf => by
    rw [h40 6 (.inl rfl) hf, h40 7 (.inr rfl) hf]
  unfold stripDataParse
  simp -zeta only [e1, e2, e4, e8, e10, e20, e40]

/-- A byte with its top bit alone, and with its low bits as well. -/
theorem lowBits (b : UInt8) :
    (b &&& 0x80) &&& 128 = b &&& 128 ∧ (b &&& 0x80 ||| 0x0f) &&& 128 = b &&& 128 ∧
      b &&& 0x80 ≠ b &&& 0x80 ||| 0x0f ∧ ∀ m ∈ [0x01, 0x02, 0x04, 0x08],
        isSet (b &&& 0x80) m = false ∧ isSet (b &&& 0x80 ||| 0x0f) m = true := by
  have hall : ∀ n : Fin 256, (UInt8.ofNat n &&& 0x80) &&& 128 = UInt8.ofNat n &&& 128 ∧
      (UInt8.ofNat n &&& 0x80 ||| 0x0f) &&& 128 = UInt8.ofNat n &&& 128 ∧
      UInt8.ofNat n &&& 0x80 ≠ UInt8.ofNat n &&& 0x80 ||| 0x0f ∧ ∀ m ∈ [0x01, 0x02, 0x04, 0x08],
        isSet (UInt8.ofNat n &&& 0x80) m = false ∧ isSet (UInt8.ofNat n &&& 0x80 ||| 0x0f) m = true := by
    decide +kernel
  have := hall ⟨b.toNat, b.toNat_lt⟩
  rwa [UInt8.ofNat_toNat] at this

theorem decodeInt16_inj {a b a' b' : UInt8} (h : decodeInt16 (a, b) = decodeInt16 (a', b')) : a = a' ∧ b = b' := by
  have h := congrArg UInt16.toNat h
  unfold decodeInt16 at h
  rw [be16_toNat, be16_toNat] at h
  dsimp only at h
  have := b.toNat_lt
  have := b'.toNat_lt
  exact ⟨UInt8.toNat_inj.mp (by omega), UInt8.toNat_inj.mp (by omega)⟩

/-- A control byte that is used makes a difference. -/
theorem parse_differs {k : Nat} (hk : usesCtrl attrFlags k) {b : UInt8} (hc : ctrl k = b &&& 0x80)
    (hc' : ctrl' k = b &&& 0x80 ||| 0x0f) :
    (stripDataParse attrFlags ctrl ticks {}).status ≠ (stripDataParse attrFlags ctrl' ticks {}).status := by
  obtain ⟨-, -, hne, hbits⟩ := lowBits b
  rw [← hc', ← hc] at hne
  intro h
  rcases hk with ⟨rfl, hf⟩ | ⟨rfl, hf⟩ | ⟨hk, hf⟩ | ⟨hk, hf⟩ | ⟨hk, hf⟩
  · have h := congrArg SocketStatus.onoff h
    rw [parse_onoff, parse_onoff] at h
    unfold frameOnoff at h
    rw [hc, hc', (hbits 0x01 (by decide)).1, (hbits 0x02 (by decide)).1, (hbits 0x04 (by decide)).1,
      (hbits 0x01 (by decide)).2, (hbits 0x02 (by decide)).2, (hbits 0x04 (by decide)).2] at h
    revert h hf
    generalize isSet attrFlags 0x01 = f1
    generalize isSet attrFlags 0x02 = f2
    generalize isSet attrFlags 0x04 = f4
    revert f1 f2 f4
    decide
  · have h := congrArg SocketStatus.weekRepeat h
    rw [parse_weekRepeat, parse_weekRepeat, if_pos hf, if_pos hf] at h
    exact hne h
  · have h := congrArg SocketStatus.timeOnMinute h
    rw [parse_timeOnMinute, parse_timeOnMinute, if_pos hf, if_pos hf] at h
    obtain ⟨h2, h3⟩ := decodeInt16_inj h
    rcases hk with rfl | rfl
    · exact hne h2
    · exact hne h3
  · have h := congrArg SocketStatus.timeOffMinute h
    rw [parse_timeOffMinute, parse_timeOffMinute, if_pos hf, if_pos hf] at h
    obtain ⟨h4, h5⟩ := decodeInt16_inj h
    rcases hk with rfl | rfl
    · exact hne h4
    · exact hne h5
  · have h := congrArg SocketStatus.countdownMinute h
    rw [parse_countdownMinute, parse_countdownMinute, if_pos hf, if_pos hf] at h
    obtain ⟨h6, h7⟩ := decodeInt16_inj h
    rcases hk with rfl | rfl
    · exact hne h6
    · exact hne h7

/-- So do the flags. -/
theorem flags_differ (b : UInt8) : ∃ s : StripSt,
    (stripDataParse (b &&& 0x80) ctrl ticks s).status ≠ (stripDataParse (b &&& 0x80 ||| 0x0f) ctrl ticks s).status := by
  obtain ⟨-, -, -, hbits⟩ := lowBits b
  obtain ⟨h8, h8'⟩ := hbits 0x08 (by decide)
  refine ⟨StripSt.setStatus { weekRepeat := ctrl 1 + 1 } {}, fun h => ?_⟩
  have h := congrArg SocketStatus.weekRepeat h
  rw [parse_weekRepeat, parse_weekRepeat, if_neg (by rw [h8]; decide), if_pos h8'] at h
  have h1 : ctrl 1 + 1 = ctrl 1 := h
  have hn := congrArg UInt8.toNat h1
  rw [UInt8.toNat_add] at hn
  change ((ctrl 1).toNat + 1) % 256 = (ctrl 1).toNat at hn
  omega

theorem ctlDev_eq {data : List UInt8} {dataLen : UInt16} (h : dataLen.toNat ≤ 4 * 1024) :
    gAgentV4CtlDevWithP0 data dataLen ticks s =
      some (stripDataParse (data.getD 1 0) (fun k => data.getD (2 + k) 0) ticks s) := by
  unfold gAgentV4CtlDevWithP0 deviceControl
  rw [if_neg (by omega)]
  split
  · simp only [getD_drop]
  · rename_i h0
    rw [not_not.mp h0]
    rfl

theorem ctlDev_long {data : List UInt8} {dataLen : UInt16} (h : 4 * 1024 < dataLen.toNat) :
    gAgentV4CtlDevWithP0 data dataLen ticks s = none := if_pos h

theorem responded_status (s : StripSt) : (responded s).status = s.status := by
  unfold responded reportStatus StripSt.status
  rw [if_pos (.inl rfl)]

end

/-! ## The length field -/

theorem times_128 {m : UInt16} {k : Nat} (h : m.toNat * 128 ^ (k + 1) % 65536 = 0) :
    (m * 128).toNat * 128 ^ k % 65536 = 0 := by
  rw [UInt16.toNat_mul, show (128 : UInt16).toNat = 128 from rfl, show 2 ^ 16 = 65536 from rfl, Nat.mul_mod,
    Nat.mod_mod, ← Nat.mul_mod, Nat.mul_assoc, ← Nat.pow_succ', h]

/-- Only the first three bytes and the top bits count. -/
theorem remLenLoop_set {l : List UInt8} {k : Nat} {x : UInt8} {m v : UInt16} (hm : m.toNat * 128 ^ k % 65536 = 0)
    (hx : x &&& 128 = l.getD k 0 &&& 128) : remLenLoop (l.set k x) m v = remLenLoop l m v := by
  induction l generalizing k m v with
  | nil => rfl
  | cons b l ih =>
    cases k with
    | zero =>
      rw [Nat.pow_zero, Nat.mul_one, Nat.mod_eq_of_lt m.toNat_lt] at hm
      obtain rfl : m = 0 := UInt16.toNat_inj.mp hm
      rw [List.getD_cons_zero] at hx
      rw [List.set_cons_zero, remLenLoop, remLenLoop, hx, UInt16.mul_zero, UInt16.mul_zero]
    | succ k =>
      rw [List.getD_cons_succ] at hx
      rw [List.set_cons_succ, remLenLoop, remLenLoop, ih (times_128 hm) hx]

theorem remLenLoop_more {xs : List UInt8} (ys : List UInt8) {m v r : UInt16} (h : remLenLoop xs m v = some r) :
    remLenLoop (xs ++ ys) m v = some r := by
  induction xs generalizing m v with
  | nil => cases h
  | cons x xs ih =>
    rw [List.cons_append]
    rw [remLenLoop] at h ⊢
    split
    · rename_i hx
      rw [if_pos hx] at h
      exact ih h
    · rename_i hx
      rw [if_neg hx] at h
      exact h

theorem remLenLoop_done {ys : List UInt8} {v r : UInt16} (h : remLenLoop ys 0 v = some r) : r = v := by
  induction ys generalizing v with
  | nil => cases h
  | cons y ys ih =>
    rw [remLenLoop, UInt16.mul_zero, UInt16.add_zero, UInt16.zero_mul] at h
    split at h
    · exact ih h
    · exact (Option.some.inj h).symm

/-- What lies behind the third byte can only end the field. -/
theorem remLenLoop_same {xs ys ys' : List UInt8} {m v r r' : UInt16} (hm : m.toNat * 128 ^ xs.length % 65536 = 0)
    (h : remLenLoop (xs ++ ys) m v = some r) (h' : remLenLoop (xs ++ ys') m v = some r') : r = r' := by
  induction xs generalizing m v with
  | nil =>
    rw [List.length_nil, Nat.pow_zero, Nat.mul_one, Nat.mod_eq_of_lt m.toNat_lt] at hm
    obtain rfl : m = 0 := UInt16.toNat_inj.mp hm
    rw [remLenLoop_done h, remLenLoop_done h']
  | cons x xs ih =>
    rw [List.cons_append, remLenLoop] at h h'
    split at h
    · rename_i hx
      rw [if_pos hx] at h'
      exact ih (times_128 hm) h h'
    · rename_i hx
      rw [if_neg hx] at h'
      exact Option.some.inj (h.symm.trans h')

theorem third_digit {k : Nat} (h : 3 ≤ k) : (1 : UInt16).toNat * 128 ^ k % 65536 = 0 := by
  obtain ⟨j, rfl⟩ := Nat.exists_eq_add_of_le h
  rw [Nat.pow_add, show (1 : UInt16).toNat * (128 ^ 3 * 128 ^ j) = 65536 * (32 * 128 ^ j) by
    rw [← Nat.mul_assoc 65536]
    exact Nat.one_mul _]
  exact Nat.mul_mod_right _ _

section
variable {f rest pData : List UInt8} {len : UInt16}

/-- The decoders do not look behind the length field. -/
theorem parseRemLen_more (h : mqttParseRemLen (f.drop 3) = some len) (rest : List UInt8) :
    mqttParseRemLen ((f ++ rest).drop 3) = some len := by
  unfold mqttParseRemLen at h ⊢
  rw [List.drop_drop] at h ⊢
  have hlen : 4 ≤ f.length := by
    by_contra hlt
    rw [List.drop_eq_nil_of_le (by omega)] at h
    cases h
  rw [List.drop_append_of_le_length hlen]
  exact remLenLoop_more rest h

theorem parseRemLen_same {rest' : List UInt8} {len' : UInt16} (hf : 7 ≤ f.length)
    (h : mqttParseRemLen ((f ++ rest).drop 3) = some len) (h' : mqttParseRemLen ((f ++ rest').drop 3) = some len') :
    len = len' := by
  unfold mqttParseRemLen at h h'
  rw [List.drop_drop, List.drop_append_of_le_length (by omega)] at h h'
  exact remLenLoop_same (third_digit (by rw [List.length_drop]; omega)) h h'

theorem p0At_front (h : 8 ≤ f.length) (rest : List UInt8) : p0At (f ++ rest) = p0At f := by
  have hd : (f ++ rest).drop 4 = f.drop 4 ++ rest := List.drop_append_of_le_length (by omega)
  have h4 : 4 ≤ (f.drop 4).length := by
    rw [List.length_drop]
    omega
  unfold p0At mqttNumRemLenBytes
  rw [hd, getD_front (by omega), getD_front (by omega), getD_front (by omega)]

theorem p0At_ge (f : List UInt8) : 8 ≤ p0At f := Nat.add_le_add_left (numRemLen_end (f.drop 4)).1 7

theorem p0At_le (f : List UInt8) : p0At f ≤ 11 := Nat.add_le_add_left (numRemLen_le (f.drop 4)) 7

/-- A byte behind the eighth that keeps its top bit. -/
theorem set_behind {p : Nat} {x : UInt8} (hp : 8 ≤ p) (hx : x &&& 128 = pData.getD p 0 &&& 128) :
    mqttParseRemLen ((pData.set p x).drop 3) = mqttParseRemLen (pData.drop 3) ∧
      p0At (pData.set p x) = p0At pData := by
  have h4 : (pData.set p x).drop 4 = (pData.drop 4).set (p - 4) x := by
    rw [List.drop_set, if_neg (by omega)]
  constructor
  · unfold mqttParseRemLen
    rw [List.drop_drop, List.drop_drop, h4]
    refine remLenLoop_set (third_digit (by omega)) ?_
    rw [getD_drop, show 4 + (p - 4) = p by omega]
    exact hx
  · unfold p0At mqttNumRemLenBytes
    rw [h4, getD_set_ne (by omega), getD_set_ne (by omega), getD_set_ne (by omega)]

end

/-! ## What lies behind -/

/-- The payload is run on memory. -/
def p0Run (pData : List UInt8) (len : UInt16) (ticks : UInt32) (s : StripSt) : Option StripSt :=
  gAgentV4CtlDevWithP0 (pData.drop (p0At pData)) (len - 3) ticks s

section
variable {f rest : List UInt8} {len : UInt16} {ticks : UInt32} {s : StripSt}

theorem p0Run_eq (h : (len - 3).toNat ≤ 4 * 1024) (pData : List UInt8) : p0Run pData len ticks s =
    some (stripDataParse (pData.getD (p0At pData + 1) 0) (fun k => pData.getD (p0At pData + 2 + k) 0) ticks s) := by
  unfold p0Run
  rw [ctlDev_eq h]
  simp only [getD_drop, Nat.add_assoc]

/-- The frame decides if the payload is inside. -/
theorem p0Run_inside (h : P0Inside f (p0At f)) (rest : List UInt8) :
    p0Run (f ++ rest) len ticks s = p0Run f len ticks s := by
  obtain ⟨hflags, hctrl⟩ := h
  have h8 := p0At_ge f
  have hat := p0At_front (show 8 ≤ f.length by omega) rest
  rcases Nat.lt_or_ge (4 * 1024) (len - 3).toNat with hlen | hlen
  · unfold p0Run
    rw [ctlDev_long hlen, ctlDev_long hlen]
  · rw [p0Run_eq hlen, p0Run_eq hlen, hat, getD_front hflags, Option.some_inj]
    apply parse_congr
    intro k hk
    exact getD_front (hctrl k hk) rest

theorem usesCtrl_le {attrFlags : UInt8} {k : Nat} (h : usesCtrl attrFlags k) : k ≤ 7 := by
  unfold usesCtrl at h
  omega

/-- If it is not, one byte behind the frame makes a difference: two of its values
leave the length field and the command as they are. -/
theorem p0Run_outside (h : ¬ P0Inside f (p0At (f ++ rest))) (hlen : (len - 3).toNat ≤ 4 * 1024)
    (hrest : 24 ≤ rest.length) (ticks : UInt32) : ∃ p x₁ x₂, f.length ≤ p ∧ p0At (f ++ rest) < p ∧
      x₁ &&& 128 = (f ++ rest).getD p 0 &&& 128 ∧ x₂ &&& 128 = (f ++ rest).getD p 0 &&& 128 ∧
      ∃ s s₁ s₂, p0Run ((f ++ rest).set p x₁) len ticks s = some s₁ ∧
        p0Run ((f ++ rest).set p x₂) len ticks s = some s₂ ∧ s₁.status ≠ s₂.status := by
  have h8 := p0At_ge (f ++ rest)
  have h11 := p0At_le (f ++ rest)
  have hsize : 24 ≤ (f ++ rest).length := by
    rw [List.length_append]
    omega
  generalize hM : f ++ rest = M at *
  have hrun (p : Nat) (x : UInt8) (hp : p0At M < p) (hx : x &&& 128 = M.getD p 0 &&& 128) (s : StripSt) :
      p0Run (M.set p x) len ticks s = some (stripDataParse ((M.set p x).getD (p0At M + 1) 0)
        (fun k => (M.set p x).getD (p0At M + 2 + k) 0) ticks s) := by
    rw [p0Run_eq hlen, (set_behind (by omega) hx).2]
  by_cases hflags : p0At M + 1 < f.length
  · obtain ⟨k, hk, hout⟩ : ∃ k, usesCtrl (f.getD (p0At M + 1) 0) k ∧ f.length ≤ p0At M + 2 + k := by
      by_contra hno
      refine h ⟨hflags, fun k hk => ?_⟩
      by_contra hout
      exact hno ⟨k, hk, Nat.not_lt.mp hout⟩
    have hk7 := usesCtrl_le hk
    obtain ⟨h1, h2, -⟩ := lowBits (M.getD (p0At M + 2 + k) 0)
    refine ⟨p0At M + 2 + k, _, _, hout, by omega, h1, h2, {}, _, _, hrun _ _ (by omega) h1 _,
      hrun _ _ (by omega) h2 _, ?_⟩
    rw [getD_set_ne (by omega), getD_set_ne (by omega)]
    refine parse_differs (k := k) ?_ (getD_set_self (by omega) _) (getD_set_self (by omega) _)
    rw [← hM, getD_front (by rw [hM]; exact hflags), hM]
    exact hk
  · obtain ⟨h1, h2, -⟩ := lowBits (M.getD (p0At M + 1) 0)
    obtain ⟨s, hs⟩ := @flags_differ (fun k => M.getD (p0At M + 2 + k) 0) ticks (M.getD (p0At M + 1) 0)
    refine ⟨p0At M + 1, _, _, Nat.not_lt.mp hflags, by omega, h1, h2, s, _, _, hrun _ _ (by omega) h1 _,
      hrun _ _ (by omega) h2 _, ?_⟩
    rw [getD_set_self (by omega), getD_set_self (by omega)]
    have hctrl (x : UInt8) (k : Nat) : (M.set (p0At M + 1) x).getD (p0At M + 2 + k) 0 = M.getD (p0At M + 2 + k) 0 :=
      getD_set_ne (by omega) x
    simp only [hctrl]
    exact hs

end

/-! ## Both paths -/

section
variable {pData : List UInt8} {len : UInt16} {ticks : UInt32} {s : StripSt}

theorem cloudControl_eq (h : mqttParseRemLen (pData.drop 3) = some len) :
    cloudControl ticks pData s = some (((p0Run pData len ticks s).map responded).getD s) := by
  unfold cloudControl mqttDoCloudMCUCmd
  rw [h]
  rfl

variable {gSocketLogin : SocketLogin} {gPasscodeEnable : Bool} {nSocket : Int} {low : UInt8 × UInt8}

theorem lanControl_run (hhead : pData.take 4 = [0, 0, 0, 3]) (h : mqttParseRemLen (pData.drop 3) = some len)
    (hcmd : lanCmd pData = 0x90) (hlog : loggedIn gSocketLogin nSocket = true) :
    lanControl gSocketLogin gPasscodeEnable nSocket low ticks pData s =
      some (((p0Run pData len ticks s).map fun s =>
        responded { s with mcu := sendCtlAckCmd low 0x04 1 s.mcu }).getD s) := by
  unfold lanControl dispatchTCPData lanSwitch
  dsimp only
  rw [if_pos hhead, h, hcmd, Option.map_some, if_neg (by decide), if_neg (by decide), if_pos rfl, if_pos hlog]
  rfl

/-- No other frame has to do with the device. -/
theorem lanControl_rest
    (h : ¬ (pData.take 4 = [0, 0, 0, 3] ∧ lanCmd pData = 0x90 ∧ loggedIn gSocketLogin nSocket = true))
    {s' : StripSt} (hs : lanControl gSocketLogin gPasscodeEnable nSocket low ticks pData s = some s') : s' = s := by
  unfold lanControl dispatchTCPData at hs
  split at hs
  · rename_i hhead
    obtain ⟨call, hcall, rfl⟩ := Option.map_eq_some_iff.mp hs
    obtain ⟨datalen, -, rfl⟩ := Option.map_eq_some_iff.mp hcall
    unfold lanSwitch
    dsimp only
    split
    · split <;> rfl
    split
    · rfl
    split
    · rename_i h90
      rw [if_neg fun hlog => h ⟨hhead, h90, hlog⟩]
      rfl
    split
    · rfl
    split
    · rfl
    split
    · rfl
    split <;> rfl
  · exact (Option.some.inj hs).symm

end

/-! ## The frame alone -/

/-- No other bytes than those of the message count for the device. -/
def ControlMsg.Own (m : ControlMsg) : Prop :=
  ∀ low ticks s, OwnBytes m.bytes fun pData => m.control low ticks pData s

theorem LanFrame.parsed (frame : LanFrame) : 5 ≤ frame.bytes.length ∧
    ∃ len, ∀ rest, mqttParseRemLen ((frame.bytes ++ rest).drop 3) = some len := by
  obtain ⟨len, hlen, hdecl⟩ := Option.map_eq_some_iff.mp frame.declared
  exact ⟨by omega, len, parseRemLen_more hlen⟩

section
variable {f : List UInt8}

theorem take_four (h : 5 ≤ f.length) (rest : List UInt8) : (f ++ rest).take 4 = f.take 4 :=
  List.take_append_of_le_length (by omega)

theorem lanCmd_eq (pData : List UInt8) : lanCmd pData = pData.getD (p0At pData - 1) 0 := rfl

/-- The payload is not inside wherever the memory behind puts it. -/
theorem outside_front (h : ¬ P0Inside f (p0At f)) (rest : List UInt8) : ¬ P0Inside f (p0At (f ++ rest)) := by
  rcases Nat.lt_or_ge f.length 8 with h8 | h8
  · rintro ⟨hlt, -⟩
    have := p0At_ge (f ++ rest)
    omega
  · rwa [p0At_front h8]

theorem set_append {p : Nat} (h : f.length ≤ p) (rest : List UInt8) (x : UInt8) :
    (f ++ rest).set p x = f ++ rest.set (p - f.length) x := List.set_append_right _ _ h

/-- A path that runs a payload which is not inside is not the frame's own. -/
theorem not_own (rest : List UInt8) (respond : StripSt → StripSt) (run : List UInt8 → StripSt → Option StripSt)
    (ticks : UInt32) {len : UInt16} (hin : ¬ P0Inside f (p0At f)) (hlen : (len - 3).toNat ≤ 4 * 1024)
    (hrest : 24 ≤ rest.length) (hresp : ∀ s, (respond s).status = s.status)
    (hrun : ∀ p x s, p0At (f ++ rest) < p → x &&& 128 = (f ++ rest).getD p 0 &&& 128 →
      run ((f ++ rest).set p x) s = some (((p0Run ((f ++ rest).set p x) len ticks s).map respond).getD s)) :
    ¬ ∀ s, OwnBytes f fun pData => run pData s := by
  intro hown
  obtain ⟨p, x₁, x₂, hp, hp0, h1, h2, s, s₁, s₂, hs₁, hs₂, hne⟩ :=
    p0Run_outside (outside_front hin rest) hlen hrest ticks
  have hr₁ := hrun p x₁ s hp0 h1
  have hr₂ := hrun p x₂ s hp0 h2
  rw [hs₁, set_append hp] at hr₁
  rw [hs₂, set_append hp] at hr₂
  have heq := congrArg StripSt.status (hown s _ _ _ _ hr₁ hr₂)
  rw [Option.map_some, Option.map_some, Option.getD_some, Option.getD_some, hresp, hresp] at heq
  exact hne heq

/-- Behind the frame stands a command, wherever it is looked for. -/
theorem lanCmd_behind (hcmd : ¬ ∃ cmd, f[p0At f - 1]? = some cmd ∧ cmd ≠ 0x90) :
    lanCmd (f ++ List.replicate 24 0x90) = 0x90 := by
  rw [lanCmd_eq]
  have h8 := p0At_ge (f ++ List.replicate 24 0x90)
  have h11 := p0At_le (f ++ List.replicate 24 0x90)
  rcases Nat.lt_or_ge (p0At (f ++ List.replicate 24 0x90) - 1) f.length with h | h
  · rw [getD_front h, p0At_front (by omega)]
    rw [p0At_front (by omega)] at h
    by_contra hne
    refine hcmd ⟨_, List.getElem?_eq_getElem h, ?_⟩
    rwa [List.getD_eq_getElem _ _ h] at hne
  · rw [List.getD_append_right _ _ _ _ h]
    exact List.getD_replicate _ (by omega)

section
variable {gSocketLogin : SocketLogin} {gPasscodeEnable : Bool} {nSocket : Int} {frame : LanFrame}

theorem lan_clear_of_own (hown : (ControlMsg.lan gSocketLogin gPasscodeEnable nSocket frame).Own) :
    (ControlMsg.lan gSocketLogin gPasscodeEnable nSocket frame).Clear := by
  obtain ⟨h5, len, hparse⟩ := frame.parsed
  by_contra hno
  unfold ControlMsg.Clear at hno
  rw [not_or, not_or, not_or, not_or] at hno
  obtain ⟨hhead, hlog, hlong, hcmd, hin⟩ := hno
  have hlen : (len - 3).toNat ≤ 4 * 1024 := by
    by_contra hlt
    refine hlong fun rest len' h => ?_
    rw [Option.some.inj ((hparse rest).symm.trans h)] at hlt
    exact Nat.not_le.mp hlt
  refine not_own (List.replicate 24 0x90) (fun s => responded { s with mcu := sendCtlAckCmd (0, 0) 0x04 1 s.mcu })
    (lanControl gSocketLogin gPasscodeEnable nSocket (0, 0) 0) 0 hin hlen (List.length_replicate ▸ Nat.le_refl 24)
    (fun s => responded_status _) ?_ (hown (0, 0) 0)
  intro p x s hp hx
  have h8 := p0At_ge (frame.bytes ++ List.replicate 24 0x90)
  obtain ⟨hlenfield, hat⟩ := set_behind (by omega) hx
  apply lanControl_run
  · rw [List.take_set_of_le (by omega), take_four h5]
    exact not_not.mp hhead
  · rw [hlenfield, hparse]
  · rw [lanCmd_eq, hat, getD_set_ne (by omega)]
    exact lanCmd_behind hcmd
  · exact Bool.not_eq_false _ ▸ hlog

/-- A payload that is inside is run the same way, whatever lies behind. -/
theorem lan_own_inside (hin : P0Inside frame.bytes (p0At frame.bytes)) :
    (ControlMsg.lan gSocketLogin gPasscodeEnable nSocket frame).Own := by
  obtain ⟨h5, len, hparse⟩ := frame.parsed
  have h8 := p0At_ge frame.bytes
  have hlt := hin.1
  have hcmd (rest : List UInt8) : lanCmd (frame.bytes ++ rest) = lanCmd frame.bytes := by
    rw [lanCmd_eq, p0At_front (by omega), getD_front (by omega), ← lanCmd_eq]
  intro low ticks s rest₁ rest₂ b₁ b₂ h₁ h₂
  by_cases hr : frame.bytes.take 4 = [0, 0, 0, 3] ∧ lanCmd frame.bytes = 0x90 ∧ loggedIn gSocketLogin nSocket = true
  · have hrun (rest : List UInt8) (b : StripSt)
        (hb : lanControl gSocketLogin gPasscodeEnable nSocket low ticks (frame.bytes ++ rest) s = some b) :
        b = ((p0Run frame.bytes len ticks s).map fun s =>
          responded { s with mcu := sendCtlAckCmd low 0x04 1 s.mcu }).getD s := by
      rw [lanControl_run (take_four h5 rest ▸ hr.1) (hparse rest) ((hcmd rest).trans hr.2.1) hr.2.2,
        p0Run_inside hin rest] at hb
      exact (Option.some.inj hb).symm
    rw [hrun _ _ h₁, hrun _ _ h₂]
  · have hrest (rest : List UInt8) (b : StripSt)
        (hb : lanControl gSocketLogin gPasscodeEnable nSocket low ticks (frame.bytes ++ rest) s = some b) : b = s := by
      refine lanControl_rest (fun h => hr ?_) hb
      rwa [take_four h5, hcmd] at h
    rw [hrest _ _ h₁, hrest _ _ h₂]

theorem lan_own_of_clear (h : (ControlMsg.lan gSocketLogin gPasscodeEnable nSocket frame).Clear) :
    (ControlMsg.lan gSocketLogin gPasscodeEnable nSocket frame).Own := by
  obtain ⟨h5, len, hparse⟩ := frame.parsed
  have hsame (hb : ∀ low ticks s rest b,
      lanControl gSocketLogin gPasscodeEnable nSocket low ticks (frame.bytes ++ rest) s = some b → b = s) :
      (ControlMsg.lan gSocketLogin gPasscodeEnable nSocket frame).Own :=
    fun _ _ _ _ _ _ _ h₁ h₂ => (hb _ _ _ _ _ h₁).trans (hb _ _ _ _ _ h₂).symm
  rcases h with hhead | hlog | hlong | ⟨cmd, hc, hne⟩ | hin
  · exact hsame fun _ _ _ rest b hb => lanControl_rest (fun hr => hhead (take_four h5 rest ▸ hr.1)) hb
  · exact hsame fun _ _ _ rest b hb => lanControl_rest (fun hr => by rw [hlog] at hr; cases hr.2.2) hb
  · apply hsame
    intro low ticks s rest b hb
    by_cases hr : (frame.bytes ++ rest).take 4 = [0, 0, 0, 3] ∧ lanCmd (frame.bytes ++ rest) = 0x90 ∧
        loggedIn gSocketLogin nSocket = true
    · rw [lanControl_run hr.1 (hparse rest) hr.2.1 hr.2.2] at hb
      unfold p0Run at hb
      rw [ctlDev_long (hlong rest len (hparse rest))] at hb
      exact (Option.some.inj hb).symm
    · exact lanControl_rest hr hb
  · apply hsame
    intro low ticks s rest b hb
    obtain ⟨hlt, hc⟩ := List.getElem?_eq_some_iff.mp hc
    have h8 := p0At_ge frame.bytes
    refine lanControl_rest (fun hr => hne ?_) hb
    rw [← hc, ← List.getD_eq_getElem _ 0 hlt, ← getD_front hlt rest, ← p0At_front (by omega) rest]
    exact hr.2.1
  · exact lan_own_inside hin

end

theorem cloud_own_iff (pHiP0Data : List UInt8) :
    (ControlMsg.cloud pHiP0Data).Own ↔ (ControlMsg.cloud pHiP0Data).Clear := by
  constructor
  · intro hown
    by_contra hno
    obtain ⟨hlong, hin⟩ := not_or.mp hno
    unfold P0TooLong at hlong
    push Not at hlong
    obtain ⟨rest, len, hparse, hlen⟩ := hlong
    have hparse' := parseRemLen_more hparse (List.replicate 24 0)
    rw [List.append_assoc] at hparse'
    refine not_own (rest ++ List.replicate 24 0) responded (cloudControl 0) 0 hin hlen (by simp) responded_status ?_
      (hown (0, 0) 0)
    intro p x s hp hx
    apply cloudControl_eq
    rw [(set_behind (Nat.le_trans (p0At_ge _) hp.le) hx).1]
    exact hparse'
  · rintro h low ticks s rest₁ rest₂ b₁ b₂ h₁ h₂
    have hparsed {rest : List UInt8} {b : StripSt}
        (h : cloudControl ticks (pHiP0Data ++ rest) s = some b) :
        ∃ len, mqttParseRemLen ((pHiP0Data ++ rest).drop 3) = some len ∧
          b = ((p0Run (pHiP0Data ++ rest) len ticks s).map responded).getD s := by
      cases hp : mqttParseRemLen ((pHiP0Data ++ rest).drop 3) with
      | none =>
        unfold cloudControl mqttDoCloudMCUCmd at h
        rw [hp] at h
        cases h
      | some len =>
        rw [cloudControl_eq hp] at h
        exact ⟨len, rfl, (Option.some.inj h).symm⟩
    obtain ⟨len₁, hlen₁, rfl⟩ := hparsed h₁
    obtain ⟨len₂, hlen₂, rfl⟩ := hparsed h₂
    rcases h with hlong | hin
    · unfold p0Run
      rw [ctlDev_long (hlong _ _ hlen₁), ctlDev_long (hlong _ _ hlen₂)]
    · have h9 : 7 ≤ pHiP0Data.length := by
        have := p0At_ge pHiP0Data
        have := hin.1
        omega
      rw [parseRemLen_same h9 hlen₁ hlen₂, p0Run_inside hin rest₁, p0Run_inside hin rest₂]

end

/-- **P0**: a control message is all that counts for the device exactly when it
is no control message that is run, or what its flags use is inside. -/
theorem control_own_bytes_iff (m : ControlMsg) : m.Own ↔ m.Clear := by
  cases m with
  | lan gSocketLogin gPasscodeEnable nSocket frame => exact ⟨lan_clear_of_own, lan_own_of_clear⟩
  | cloud pHiP0Data => exact cloud_own_iff pHiP0Data

/-- A frame that ends with the command: the relay takes the bytes behind it. -/
theorem control_without_payload : ¬ ∀ m : ControlMsg, m.Own := by
  intro h
  have hown := h (.lan (fun i => if i = 0 then 1 else 0) false 1 ⟨[0, 0, 0, 3, 3, 0, 0, 0x90], by decide⟩) (0, 0) 0 {}
  have h₁ : (lanControl (fun i => if i = 0 then 1 else 0) false 1 (0, 0) 0 ([0, 0, 0, 3, 3, 0, 0, 0x90] ++ []) {}).map
      StripSt.socketGpio = some false := by decide +kernel
  have h₂ : (lanControl (fun i => if i = 0 then 1 else 0) false 1 (0, 0) 0
      ([0, 0, 0, 3, 3, 0, 0, 0x90] ++ [0, 1, 1]) {}).map StripSt.socketGpio = some true := by decide +kernel
  obtain ⟨s₁, hs₁, hg₁⟩ := Option.map_eq_some_iff.mp h₁
  obtain ⟨s₂, hs₂, hg₂⟩ := Option.map_eq_some_iff.mp h₂
  have heq := congrArg StripSt.socketGpio (hown _ _ _ _ hs₁ hs₂)
  rw [hg₁, hg₂] at heq
  cases heq

end GizwitsSdk
