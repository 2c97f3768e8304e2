import GizwitsSdk.Lib.Buffer
import GizwitsSdk.Lib.Machine
import GizwitsSdk.McuV4
import Mathlib.Algebra.Ring.Nat

/-!
# The device's frames over a run

The sum of a frame is taken over the whole structure, the old sum with it. The
acknowledgement is cleared first; the status frame is not, and after its first
sum every further one is off by the sum before. The frame that answers a request
announces a length of another build.
-/

namespace GizwitsSdk

/-! ## Sums -/

/-- The length counts what follows it, and the last byte is the sum of what lies between. -/
def SelfConsistent (f : List UInt8) : Prop :=
  (f.getD 2 0).toNat * 256 + (f.getD 3 0).toNat = f.length - 4 ∧
    (f.getLastD 0).toNat = ((f.dropLast.drop 2).map UInt8.toNat).sum % 256

theorem foldl_add_toNat (bs : List UInt8) (c : UInt8) :
    (bs.foldl (· + ·) c).toNat = (c.toNat + (bs.map UInt8.toNat).sum) % 256 := by
  induction bs generalizing c with
  | nil =>
    have := c.toNat_lt
    simp only [List.foldl_nil, List.map_nil, List.sum_nil, Nat.add_zero]
    omega
  | cons b bs ih =>
    rw [List.foldl_cons, ih, List.map_cons, List.sum_cons, UInt8.toNat_add]
    omega

theorem gAgentSetCheckSum_toNat (buf : List UInt8) :
    (gAgentSetCheckSum buf buf.length).toNat = ((buf.drop 2).map UInt8.toNat).sum % 256 := by
  unfold gAgentSetCheckSum
  rw [List.take_length, foldl_add_toNat, UInt8.toNat_zero, Nat.zero_add]

theorem gAgentSetCheckSum_append {body : List UInt8} (h : 2 ≤ body.length) (old : UInt8) :
    gAgentSetCheckSum (body ++ [old]) (body ++ [old]).length =
      gAgentSetCheckSum body body.length + old := by
  unfold gAgentSetCheckSum
  rw [List.take_length, List.take_length, List.drop_append_of_le_length h, List.foldl_append]
  rfl

/-- A structure whose sum is taken over itself is right when the old sum was zero. -/
theorem selfConsistent_iff {body : List UInt8} (h : 4 ≤ body.length) (old : UInt8) :
    SelfConsistent (body ++ [gAgentSetCheckSum (body ++ [old]) (body ++ [old]).length]) ↔
      (body.getD 2 0).toNat * 256 + (body.getD 3 0).toNat = body.length - 3 ∧ old = 0 := by
  unfold SelfConsistent
  have hg (k : Nat) (hk : k < body.length) (x : UInt8) :
      (body ++ [x]).getD k 0 = body.getD k 0 := by
    simp only [List.getD_eq_getElem?_getD, List.getElem?_append_left hk]
  rw [hg 2 (by omega), hg 3 (by omega), List.getLastD_concat, List.dropLast_concat,
    List.length_append, gAgentSetCheckSum_append (by omega)]
  refine and_congr ?_ ?_
  · rw [List.length_singleton]
    omega
  · rw [← gAgentSetCheckSum_toNat, UInt8.toNat_inj]
    exact UInt8.add_eq_left

/-! ## Frames -/

theorem statusBody_length (f : M2wMcuStatus) : f.body.length = 19 := rfl

theorem ctlAckBody_length (f : ProCommonCmd) : f.body.length = 8 := rfl

theorem headPart_lenField (h : ProHeadPart) (rest : List UInt8) :
    ((h.bytes ++ rest).getD 2 0).toNat * 256 + ((h.bytes ++ rest).getD 3 0).toNat =
      h.len.toUInt8.toNat * 256 + (h.len >>> 8).toUInt8.toNat := rfl

theorem decodeInt16_bytes (a b : UInt8) :
    (decodeInt16 (a, b)).toUInt8 = b ∧ (decodeInt16 (a, b) >>> 8).toUInt8 = a := by
  have ha := a.toNat_lt
  have hb := b.toNat_lt
  have e : (decodeInt16 (a, b)).toNat = 256 * a.toNat + b.toNat := Lib.be16_toNat a b
  constructor
  · rw [← UInt8.toNat_inj, UInt16.toNat_toUInt8, e]
    omega
  · rw [← UInt8.toNat_inj, UInt16.toNat_toUInt8, UInt16.toNat_shiftRight, e]
    show (_ >>> 8) % 256 = _
    rw [Nat.shiftRight_eq_div_pow]
    omega

theorem ctlAck_selfConsistent_iff (low : UInt8 × UInt8) (cmd sn : UInt8) :
    SelfConsistent (ctlAckFrame low cmd sn).bytes ↔ low = (5, 0) := by
  obtain ⟨a, b⟩ := low
  have key : b.toNat * 256 + a.toNat = 8 - 3 ↔ a.toNat = 5 ∧ b.toNat = 0 := by
    have := a.toNat_lt
    omega
  have ha : a = 5 ↔ a.toNat = 5 := UInt8.toNat_inj.symm
  have hb : b = 0 ↔ b.toNat = 0 := UInt8.toNat_inj.symm
  obtain ⟨h0, h1⟩ := decodeInt16_bytes a b
  let f : ProCommonCmd :=
    { headPart := { head := (0xff, 0xff), len := decodeInt16 (a, b), cmd, sn } }
  have hf : (ctlAckFrame (a, b) cmd sn).bytes =
      f.body ++ [gAgentSetCheckSum (f.body ++ [0]) (f.body ++ [0]).length] := rfl
  have hlen := headPart_lenField f.headPart []
  rw [List.append_nil] at hlen
  rw [hf, selfConsistent_iff (by rw [ctlAckBody_length]; decide), ctlAckBody_length, and_iff_left rfl,
    Prod.mk.injEq, ha, hb, ← key]
  refine Eq.congr (hlen.trans ?_) rfl
  rw [h0, h1]

theorem report_selfConsistent_iff (tag sn : UInt8) (st : SocketStatus) (old : UInt8) :
    let f := reportFrame tag sn st old
    SelfConsistent (f.body ++ [gAgentSetCheckSum f.bytes f.bytes.length]) ↔
      tag = REPORT_STATUS ∧ old = 0 := by
  intro f
  have hb : f.bytes = f.body ++ [old] := by
    simp only [f, reportFrame, M2wMcuStatus.bytes, M2wMcuStatus.body]
    split <;> rfl
  rw [hb, selfConsistent_iff (by rw [statusBody_length]; decide), statusBody_length]
  have hlen := headPart_lenField f.headPart (f.subCmd :: f.statusW.bytes)
  by_cases ht : tag = REPORT_STATUS
  · have hl : f.headPart.len = htons 16 := by simp only [f, reportFrame, if_pos ht]
    rw [hl] at hlen
    exact and_congr (iff_of_true (hlen.trans (by decide)) ht) Iff.rfl
  · have hl : f.headPart.len = htons 11 := by simp only [f, reportFrame, if_neg ht]
    rw [hl] at hlen
    exact and_congr (iff_of_false (fun h => absurd (hlen.symm.trans h) (by decide)) ht) Iff.rfl

/-! ## Runs -/

inductive McuCall
  | reportStatus (tag sn : UInt8)
  | sendCtlAckCmd (low : UInt8 × UInt8) (cmd sn : UInt8)
  | device (st : SocketStatus)

def mcuStep (s : McuSt) : McuCall → McuSt
  | .reportStatus tag sn => reportStatus tag sn s
  | .sendCtlAckCmd low cmd sn => sendCtlAckCmd low cmd sn s
  | .device st => { s with socketStatus := st }

def mcuRun (s : McuSt) (cs : List McuCall) : McuSt := Lib.run mcuStep s cs

/-- A structure holds a frame from the first call on that writes its head. -/
def FramesConsistent (s : McuSt) : Prop :=
  (s.mProCommonCmd.headPart.head = (0xff, 0xff) → SelfConsistent s.mProCommonCmd.bytes) ∧
    (s.mM2wMcuStatus.headPart.head = (0xff, 0xff) → SelfConsistent s.mM2wMcuStatus.bytes)

def McuCallOk (s : McuSt) : McuCall → Prop
  | .reportStatus tag _ => tag ≠ REQUEST_STATUS ∧ (tag = REPORT_STATUS → s.mM2wMcuStatus.sum = 0)
  | .sendCtlAckCmd low _ _ => low = (5, 0)
  | .device _ => True

theorem reportFrame_head (tag sn : UInt8) (st : SocketStatus) (sum : UInt8) :
    (reportFrame tag sn st sum).headPart.head = (0xff, 0xff) := by
  unfold reportFrame
  split <;> rfl

theorem mcuStep_consistent_iff {s : McuSt} (h : FramesConsistent s) (c : McuCall) :
    FramesConsistent (mcuStep s c) ↔ McuCallOk s c := by
  cases c with
  | reportStatus tag sn =>
    by_cases ht : tag = REPORT_STATUS ∨ tag = REQUEST_STATUS
    · have hs := report_selfConsistent_iff tag sn s.socketStatus s.mM2wMcuStatus.sum
      have hh := reportFrame_head tag sn s.socketStatus s.mM2wMcuStatus.sum
      simp only [mcuStep, reportStatus, if_pos ht, FramesConsistent, McuCallOk]
      rw [and_iff_right h.1]
      constructor
      · intro hc
        obtain ⟨rfl, h0⟩ := hs.mp (hc hh)
        exact ⟨by decide, fun _ => h0⟩
      · rintro ⟨hn, h0⟩ -
        have h1 := ht.resolve_right hn
        exact hs.mpr ⟨h1, h0 h1⟩
    · rw [not_or] at ht
      simp only [mcuStep, reportStatus, if_neg (not_or.mpr ht), McuCallOk]
      exact iff_of_true h ⟨ht.2, fun h1 => absurd h1 ht.1⟩
  | sendCtlAckCmd low cmd sn =>
    simp only [mcuStep, sendCtlAckCmd, FramesConsistent, McuCallOk]
    rw [and_iff_left h.2, ctlAck_selfConsistent_iff]
    exact ⟨fun hc => hc rfl, fun hl _ => hl⟩
  | device st => exact iff_of_true h trivial

theorem boot_consistent : FramesConsistent {} :=
  ⟨fun h => absurd h (by decide), fun h => absurd h (by decide)⟩

/-- **The device's frames.** The frames left after every call of a run are right
exactly when each call that reports is not for a request and finds the sum of
the frame before it zero, and each acknowledgement finds its length at the
address that it reads. -/
theorem mcu_frames_iff (cs : List McuCall) :
    (∀ pre, pre <+: cs → FramesConsistent (mcuRun {} pre)) ↔
      ∀ pre c, pre ++ [c] <+: cs → McuCallOk (mcuRun {} pre) c := by
  apply Lib.meets_iff boot_consistent (fun _ h => h)
  · exact fun s c h => (mcuStep_consistent_iff h c).mpr
  · exact fun s c h => (mcuStep_consistent_iff h c).mp

/-- The first report after power on leaves a frame that is right, the second does not. -/
theorem mcu_frames_second_report :
    ¬ ∀ cs : List McuCall, ∀ pre, pre <+: cs → FramesConsistent (mcuRun {} pre) := by
  intro h
  have hs := h [.reportStatus 0 0, .reportStatus 0 0] _ (List.prefix_refl _)
  exact absurd (hs.2 (by decide)).2 (by decide)

/-! ## One report, two ways -/

/-- What follows the length field of a frame. -/
def skipVarc : List UInt8 → List UInt8
  | [] => []
  | b :: bs => if b &&& 0x80 = 0x80 then skipVarc bs else bs

/-- The bytes after the command of a frame: version, length, flag, command, payload. -/
def p0Payload (f : List UInt8) : List UInt8 := (skipVarc (f.drop 4)).drop 3

theorem p0Payload_phoneSendPack {pload : List UInt8} (h : pload.length + 3 < 128) (cmd : UInt8) :
    p0Payload (phoneSendPack pload cmd) = pload := by
  have hb : ¬ UInt8.ofNat (pload.length + 3) &&& 0x80 = 0x80 := by
    rw [Lib.top_bit_eq, Lib.ofNat_toNat_of_lt (by omega)]
    omega
  rw [phoneSendPack_eq (by omega), Lib.varint_one h]
  show (skipVarc (UInt8.ofNat (pload.length + 3) :: _)).drop 3 = _
  rw [skipVarc, if_neg hb]
  rfl

section
variable (clients : Fin 8 → SocketClent) (gSocketLogin : SocketLogin) (after : List UInt8) (s : McuSt)

abbrev reported : M2wMcuStatus := (reportStatus REPORT_STATUS 0 s).mM2wMcuStatus

theorem reported_headPart : (reported s).headPart =
    { head := (0xff, 0xff), len := 0x1000, cmd := 0x05, sn := 1 } := by
  rw [reported, reportStatus, if_pos (Or.inl rfl), reportFrame, if_pos rfl]
  rfl

theorem reported_bytes : (reported s).bytes =
    [0xff, 0xff, 0, 16, 5, 1, 0, 0] ++ ((reported s).subCmd :: (reported s).statusW.bytes ++
      [(reported s).sum]) := by
  unfold M2wMcuStatus.bytes M2wMcuStatus.body
  rw [reported_headPart, List.append_assoc]
  rfl

theorem lan_reported (running : Bool) : (responseDevStatus running clients gSocketLogin after s).lan =
    socketSendData2Client clients gSocketLogin
      (phoneSendPack ((reported s).subCmd :: (reported s).statusW.bytes) 0x91) 0x91 := by
  have h2 : ((reported s).bytes ++ after).getD 2 0 = 0 := by
    rw [reported_bytes]
    rfl
  have h3 : ((reported s).bytes ++ after).getD 3 0 = 16 := by
    rw [reported_bytes]
    rfl
  have hp (n : Nat) : phonePLen ((reported s).bytes ++ after) n 0x91 = 11 := by
    unfold phonePLen
    rw [if_pos rfl, h2, h3]
    decide
  have hg : getUartPload ((reported s).bytes ++ after) 11 0x91 =
      (reported s).subCmd :: (reported s).statusW.bytes := by
    rw [reported_bytes]
    rfl
  unfold responseDevStatus devSendPacket2Phone
  simp only [hp]
  rw [if_neg (by decide), if_neg (by decide)]
  exact congrArg (fun p => socketSendData2Client clients gSocketLogin (phoneSendPack p 0x91) 0x91) hg

theorem cloud_reported : (responseDevStatus true clients gSocketLogin after s).cloud =
    some (phoneSendPack ((reported s).subCmd :: (reported s).statusW.bytes ++ [(reported s).sum])
      0x91) := by
  have hd : (reported s).bytes.drop 8 =
      (reported s).subCmd :: (reported s).statusW.bytes ++ [(reported s).sum] := by
    rw [reported_bytes]
    rfl
  have hh : (reported s).bytes.getD 0 0 = 0xff ∧ (reported s).bytes.getD 1 0 = 0xff := by
    rw [reported_bytes]
    exact ⟨rfl, rfl⟩
  rw [← hd]
  exact mcuSendPublishPacket_eq hh.1 hh.2

theorem mem_socketSendData2Client {pdata f : List UInt8} {fd : Int} :
    (fd, f) ∈ socketSendData2Client clients gSocketLogin pdata 0x91 ↔
      f = pdata ∧ 0 < fd ∧ loggedIn gSocketLogin fd = true ∧ ∃ j, (clients j).socketFD = fd := by
  unfold socketSendData2Client loggedIn
  simp only [List.mem_flatMap, List.mem_finRange, true_and, List.any_eq_true, decide_eq_true_eq]
  constructor
  · rintro ⟨j, hj⟩
    by_cases h0 : 0 < (clients j).socketFD
    · rw [if_pos h0, if_pos trivial, List.mem_map] at hj
      obtain ⟨i, hi, he⟩ := hj
      obtain ⟨rfl, rfl⟩ := Prod.mk.inj he
      exact ⟨rfl, h0, ⟨i, of_decide_eq_true (List.mem_filter.mp hi).2⟩, j, rfl⟩
    · rw [if_neg h0] at hj
      cases hj
  · rintro ⟨rfl, h0, ⟨i, hi⟩, j, rfl⟩
    refine ⟨j, ?_⟩
    rw [if_pos h0, if_pos trivial, List.mem_map]
    exact ⟨i, List.mem_filter.mpr ⟨List.mem_finRange i, decide_eq_true hi⟩, rfl⟩

end

/-- **Reports.** What goes to the local network and what goes to the cloud in one
report have the same payload only when nothing goes to the local network. -/
theorem reports_agree_iff (clients : Fin 8 → SocketClent) (gSocketLogin : SocketLogin)
    (after : List UInt8) (s : McuSt) :
    (∀ fd f g, (fd, f) ∈ (responseDevStatus true clients gSocketLogin after s).lan →
      (responseDevStatus true clients gSocketLogin after s).cloud = some g →
        p0Payload f = p0Payload g) ↔
      ∀ j, 0 < (clients j).socketFD → loggedIn gSocketLogin (clients j).socketFD = false := by
  rw [lan_reported, cloud_reported]
  constructor
  · intro h j h0
    apply Bool.eq_false_iff.mpr
    intro hl
    have he := h _ _ _ ((mem_socketSendData2Client clients gSocketLogin).mpr ⟨rfl, h0, hl, j, rfl⟩) rfl
    have hn : (reported s).statusW.bytes.length = 10 := rfl
    rw [p0Payload_phoneSendPack (by rw [List.length_cons, hn]; decide),
      p0Payload_phoneSendPack (by rw [List.length_append, List.length_cons, hn, List.length_singleton]; decide)] at he
    exact List.cons_ne_nil _ _ (List.append_cancel_left ((List.append_nil _).trans he)).symm
  · intro h fd f g hf
    obtain ⟨-, h0, hl, j, rfl⟩ := (mem_socketSendData2Client clients gSocketLogin).mp hf
    rw [h j h0] at hl
    cases hl

/-- One phone on socket 1 gets eleven bytes of payload, the cloud twelve. -/
theorem reports_disagree :
    ¬ ∀ (clients : Fin 8 → SocketClent) (gSocketLogin : SocketLogin) (after : List UInt8) (s : McuSt)
        (fd : Int) (f g : List UInt8),
      (fd, f) ∈ (responseDevStatus true clients gSocketLogin after s).lan →
      (responseDevStatus true clients gSocketLogin after s).cloud = some g →
        p0Payload f = p0Payload g := by
  intro h
  have hs := h (fun _ => { socketFD := 1 }) (fun _ => 1) [] {}
  exact absurd (hs 1 _ _ (by rw [lan_reported, mem_socketSendData2Client]; exact ⟨rfl, by decide, by decide, 0, rfl⟩)
    (cloud_reported _ _ _ _)) (by decide +kernel)

end GizwitsSdk
