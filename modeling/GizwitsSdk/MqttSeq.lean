import GizwitsSdk.Lib.Machine
import GizwitsSdk.MqttPublish

/-!
# Message ids that are given out: `broker->seq`

Four functions take the id of a packet from one counter and count it up before
they know whether the packet goes out. The counter has sixteen bits and is not
stopped from coming to 0, which MQTT reserves.
-/

namespace GizwitsSdk

open Lib

abbrev Qos := { qos : UInt8 // qos = 1 ∨ qos = 2 }

inductive SeqCall
  | subscribe (topic : CString)
  | unsubscribe (topic : CString)
  | publish (topic msg : CString) (retain : UInt8) (qos : Qos)
  | xpgPublish (topic : CString) (msg : List UInt8) (retain : UInt8) (qos : Qos)

/-- Which of its allocations a call is given, in their order, and whether
`mqttsend` takes the packet. -/
structure SeqEnv where
  first : Bool
  second : Bool
  third : Bool
  send : Bool

structure SeqEv where
  call : SeqCall
  env : SeqEnv

/-- A packet that `mqttsend` took. -/
structure SeqSent where
  /-- The number of calls before. -/
  index : Nat
  call : SeqCall
  packet : List UInt8

structure SeqSt where
  broker : MqttBroker
  /-- A null pointer was written through: the program is no more. -/
  faulted : Bool := false
  calls : Nat := 0
  /-- latest first -/
  sent : List SeqSent := []

/-- The end of a call, with the packet and the broker that has counted on. -/
def finishCall (c : SeqCall) (send : Bool) (r : List UInt8 × MqttBroker) (s : SeqSt) : SeqSt :=
  { s with broker := r.2, sent := if send then ⟨s.calls, c, r.1⟩ :: s.sent else s.sent }

/-- Without memory for the topic or the packet nothing is sent. -/
def topicCall (c : SeqCall) (r : List UInt8 × MqttBroker) (env : SeqEnv) (s : SeqSt) : SeqSt :=
  finishCall c (env.first && env.second && env.send) r s

def seqCall (s : SeqSt) (c : SeqCall) (env : SeqEnv) : SeqSt :=
  match c with
  | .subscribe topic => topicCall c (mqttSubscribe s.broker topic) env s
  | .unsubscribe topic => topicCall c (mqttUnsubscribe s.broker topic) env s
  | .publish topic msg retain qos =>
    -- the pointers are not looked at
    if env.first && env.second && env.third then
      finishCall c env.send (mqttPublishWithQos s.broker topic msg retain qos) s
    else { s with faulted := true }
  | .xpgPublish topic msg retain qos =>
    if env.first then
      finishCall c (env.second && env.third && env.send) (xpgMqttPublishWithQos s.broker topic msg retain qos) s
    else s

def seqStep (s : SeqSt) (e : SeqEv) : SeqSt :=
  if s.faulted then s
  else
    let s' := seqCall s e.call e.env
    { s' with calls := s.calls + 1 }

def seqBoot (clientid : Option CString) : SeqSt := { broker := mqttInit clientid }

/-! ## The id in a packet -/

/-- The bytes of a message behind the id. -/
def SeqCall.msgLength : SeqCall → Nat
  | publish _ msg _ _ => (UInt16.ofNat msg.bytes.length).toNat
  | xpgPublish _ msg _ _ => msg.length
  | subscribe _ | unsubscribe _ => 0

/-- The id stands behind two bytes, or in front of the message. -/
def SeqCall.place (packet : List UInt8) : SeqCall → Nat
  | subscribe _ | unsubscribe _ => 2
  | c => packet.length - c.msgLength - 2

def SeqSent.id (e : SeqSent) : UInt16 :=
  let i := e.call.place e.packet
  ((e.packet.getD i 0).toUInt16 <<< 8) ||| (e.packet.getD (i + 1) 0).toUInt16

theorem getD_u16Bytes (front rest : List UInt8) (id : UInt16) :
    ((((front ++ (u16Bytes id ++ rest)).getD front.length 0).toUInt16 <<< 8) |||
      ((front ++ (u16Bytes id ++ rest)).getD (front.length + 1) 0).toUInt16) = id := by
  rw [List.getD_append_right _ _ _ _ (Nat.le_refl _), List.getD_append_right _ _ _ _ (Nat.le_add_right _ 1),
    Nat.sub_self, Nat.add_sub_cancel_left]
  exact u16Bytes_join id

theorem subscribe_id (b : MqttBroker) (topic : CString) (index : Nat) :
    (SeqSent.mk index (.subscribe topic) (mqttSubscribe b topic).1).id = b.seq :=
  getD_u16Bytes [_, _] _ b.seq

theorem unsubscribe_id (b : MqttBroker) (topic : CString) (index : Nat) :
    (SeqSent.mk index (.unsubscribe topic) (mqttUnsubscribe b topic).1).id = b.seq :=
  getD_u16Bytes [_, _] _ b.seq

theorem qosSize_qos (qos : Qos) : qosSize qos.1 ≠ 0 := by
  rw [qosSize, if_pos qos.2]
  decide

theorem publishPacket_split (b : MqttBroker) (topic : CString) (msg : List UInt8) (retain : UInt8) (qos : Qos) :
    ∃ front, (publishPacket b topic msg retain qos.1).1 = front ++ (u16Bytes b.seq ++ msg) := by
  simp only [publishPacket, if_pos (qosSize_qos qos), List.append_assoc]
  exact ⟨_, (List.append_assoc _ _ _).symm⟩

theorem publishPacket_broker (b : MqttBroker) (topic : CString) (msg : List UInt8) (retain : UInt8) (qos : Qos) :
    (publishPacket b topic msg retain qos.1).2 = b.nextSeq := by
  simp only [publishPacket, if_pos (qosSize_qos qos)]

theorem publishPacket_id {b : MqttBroker} {topic : CString} {msg : List UInt8} {retain : UInt8} {qos : Qos}
    {c : SeqCall} (hc : ∀ packet, c.place packet = packet.length - msg.length - 2) (index : Nat) :
    (SeqSent.mk index c (publishPacket b topic msg retain qos.1).1).id = b.seq := by
  obtain ⟨front, hp⟩ := publishPacket_split b topic msg retain qos
  have hplace : c.place (front ++ (u16Bytes b.seq ++ msg)) = front.length := by
    rw [hc]
    simp only [u16Bytes, List.length_append, List.length_cons, List.length_nil]
    omega
  simp only [SeqSent.id, hp, hplace]
  exact getD_u16Bytes front msg b.seq

/-! ## One call -/

/-- The call is given what it asks for, and its packet is taken. -/
def SeqEv.sends (e : SeqEv) : Bool :=
  match e.call with
  | .subscribe _ | .unsubscribe _ => e.env.first && e.env.second && e.env.send
  | _ => e.env.first && e.env.second && e.env.third && e.env.send

theorem publish_finish {c : SeqCall} {msg : List UInt8}
    (hc : ∀ packet, c.place packet = packet.length - msg.length - 2) (send : Bool) (topic : CString)
    (retain : UInt8) (qos : Qos) (s : SeqSt) :
    ∃ packet, finishCall c send (publishPacket s.broker topic msg retain qos.1) s =
        finishCall c send (packet, s.broker.nextSeq) s ∧
      (SeqSent.mk s.calls c packet).id = s.broker.seq :=
  ⟨_, by rw [← publishPacket_broker s.broker topic msg retain qos], publishPacket_id hc s.calls⟩

/-- A call puts `seq` in a packet and counts on, or it has not begun with that. -/
theorem seqCall_cases (s : SeqSt) (e : SeqEv) :
    (∃ packet, seqCall s e.call e.env = finishCall e.call e.sends (packet, s.broker.nextSeq) s ∧
      (SeqSent.mk s.calls e.call packet).id = s.broker.seq) ∨
    e.sends = false ∧ (seqCall s e.call e.env = s ∨ seqCall s e.call e.env = { s with faulted := true }) := by
  obtain ⟨c, env⟩ := e
  cases c with
  | subscribe topic => exact .inl ⟨_, rfl, subscribe_id _ _ _⟩
  | unsubscribe topic => exact .inl ⟨_, rfl, unsubscribe_id _ _ _⟩
  | publish topic msg retain qos =>
    by_cases h : (env.first && env.second && env.third) = true
    · left
      simp only [seqCall, h, if_true, SeqEv.sends, Bool.true_and]
      refine publish_finish (fun packet => ?_) env.send topic retain qos s
      have hle : (UInt16.ofNat msg.bytes.length).toNat ≤ msg.bytes.length := by
        rw [UInt16.toNat_ofNat']
        exact Nat.mod_le _ _
      rw [List.length_take, Nat.min_eq_left hle]
      rfl
    · right
      simp [seqCall, h, SeqEv.sends]
  | xpgPublish topic msg retain qos =>
    by_cases h : env.first = true
    · left
      simp only [seqCall, h, if_true, SeqEv.sends, Bool.true_and]
      exact publish_finish (fun _ => rfl) (env.second && env.third && env.send) topic retain qos s
    · right
      simp [seqCall, h, SeqEv.sends]

/-! ## Runs -/

/-- The id `b` was given out after `a`, with the indices of the calls. -/
def After (i : Nat) (a : UInt16) (j : Nat) (b : UInt16) : Prop :=
  ∃ d, 0 < d ∧ i + d ≤ j ∧ b = a + .ofNat d

theorem After.ne {i j : Nat} {a b : UInt16} (h : After i a j b) (hj : j < i + 65536) : a ≠ b := by
  obtain ⟨d, hd, hle, rfl⟩ := h
  intro he
  have hn := congrArg UInt16.toNat he
  have ha := a.toNat_lt
  rw [UInt16.toNat_add, UInt16.toNat_ofNat'] at hn
  omega

theorem After.next {i j : Nat} {a b : UInt16} (h : After i a j b) : After i a (j + 1) (b + 1) := by
  obtain ⟨d, hd, hle, rfl⟩ := h
  refine ⟨d + 1, Nat.succ_pos d, Nat.succ_le_succ hle, ?_⟩
  rw [UInt16.ofNat_add, UInt16.add_assoc]
  rfl

theorem After.later {i j : Nat} {a b : UInt16} (h : After i a j b) : After i a (j + 1) b := by
  obtain ⟨d, hd, hle, rfl⟩ := h
  exact ⟨d, hd, Nat.le_succ_of_le hle, rfl⟩

/-- The ids of the packets sent, by the calls that they were sent in. -/
structure SeqInv (s : SeqSt) : Prop where
  ahead : ∀ p ∈ s.sent, After p.index p.id s.calls s.broker.seq
  ordered : s.sent.Pairwise fun q p => After p.index p.id q.index q.id

theorem seqStep_inv {s : SeqSt} (h : SeqInv s) (e : SeqEv) : SeqInv (seqStep s e) := by
  unfold seqStep
  split
  · exact h
  · rcases seqCall_cases s e with ⟨packet, hc, hid⟩ | ⟨-, hc | hc⟩
    · rw [hc]
      have hnew : After s.calls s.broker.seq (s.calls + 1) (s.broker.seq + 1) := ⟨1, Nat.one_pos, Nat.le_refl _, rfl⟩
      by_cases hs : e.sends = true
      · simp only [finishCall, hs, if_true]
        refine ⟨fun p hp => ?_, List.pairwise_cons.mpr ⟨fun p hp => ?_, h.ordered⟩⟩
        · rcases List.mem_cons.mp hp with rfl | hp
          · rw [hid]
            exact hnew
          · exact (h.ahead p hp).next
        · rw [hid]
          exact h.ahead p hp
      · simp only [finishCall, if_neg hs]
        exact ⟨fun p hp => (h.ahead p hp).next, h.ordered⟩
    · rw [hc]
      exact ⟨fun p hp => (h.ahead p hp).later, h.ordered⟩
    · rw [hc]
      exact ⟨fun p hp => (h.ahead p hp).later, h.ordered⟩

/-- No packet has the id 0, and packets of 65535 calls in a row have different ids. -/
structure IdsGood (s : SeqSt) : Prop where
  nonzero : ∀ p ∈ s.sent, p.id ≠ 0
  distinct : ∀ p ∈ s.sent, ∀ q ∈ s.sent, p.index < q.index → q.index < p.index + 65535 → p.id ≠ q.id

theorem distinct_of_inv {s : SeqSt} (h : SeqInv s) : ∀ p ∈ s.sent, ∀ q ∈ s.sent,
    p.index < q.index → q.index < p.index + 65535 → p.id ≠ q.id := by
  have hself : ∀ p ∈ s.sent, p.index < p.index → After p.index p.id p.index p.id :=
    fun p _ hlt => absurd hlt (Nat.lt_irrefl _)
  have hback : s.sent.Pairwise fun q p => q.index < p.index → After q.index q.id p.index p.id := by
    refine h.ordered.imp fun ha hlt => ?_
    obtain ⟨d, hd, hle, -⟩ := ha
    omega
  have hforth : s.sent.Pairwise fun q p => p.index < q.index → After p.index p.id q.index q.id := by
    refine h.ordered.imp fun ha _ => ?_
    exact ha
  intro p hp q hq hlt hnear
  exact (List.Pairwise.forall_of_forall_of_flip hself hback hforth hp hq hlt).ne (by omega)

/-- A call does not get its packet out while the counter is 0. -/
def ZeroUnsent (s : SeqSt) (e : SeqEv) : Prop := s.faulted = false → s.broker.seq = 0 → e.sends = false

theorem seqStep_nonzero {s : SeqSt} (h : ∀ p ∈ s.sent, p.id ≠ 0) (e : SeqEv) :
    (∀ p ∈ (seqStep s e).sent, p.id ≠ 0) ↔ ZeroUnsent s e := by
  unfold seqStep ZeroUnsent
  by_cases hf : s.faulted = true
  · simp only [hf, if_true]
    exact iff_of_true h nofun
  · rw [if_neg hf]
    rcases seqCall_cases s e with ⟨packet, hc, hid⟩ | ⟨hs, hc | hc⟩
    · rw [hc]
      by_cases hs : e.sends = true
      · simp only [finishCall, hs, if_true, List.forall_mem_cons, hid, and_iff_left h]
        simp [hf]
      · simp only [finishCall, if_neg hs]
        exact iff_of_true h fun _ _ => Bool.eq_false_of_not_eq_true hs
    · rw [hc]
      exact iff_of_true h fun _ _ => hs
    · rw [hc]
      exact iff_of_true h fun _ _ => hs

/-- **Message ids** are never 0, and differ among the packets of 65535 calls in
a row, in every state of a run exactly when no call gets its packet out while
the counter is 0. -/
theorem message_ids_iff (clientid : Option CString) (es : List SeqEv) :
    (∀ pre, pre <+: es → IdsGood (run seqStep (seqBoot clientid) pre)) ↔
      Meets seqStep ZeroUnsent (seqBoot clientid) es := by
  have h0 : SeqInv (seqBoot clientid) ∧ ∀ p ∈ (seqBoot clientid).sent, p.id ≠ 0 :=
    ⟨⟨by simp [seqBoot], by simp [seqBoot]⟩, by simp [seqBoot]⟩
  refine @meets_iff _ _ seqStep (seqBoot clientid) es ZeroUnsent
    (fun s => SeqInv s ∧ ∀ p ∈ s.sent, p.id ≠ 0) IdsGood h0 ?_ ?_ ?_
  · exact fun s h => ⟨h.2, distinct_of_inv h.1⟩
  · exact fun s e h hok => ⟨seqStep_inv h.1 e, (seqStep_nonzero h.2 e).mpr hok⟩
  · exact fun s e h hg => (seqStep_nonzero h.2 e).mp hg.nonzero

/-! ## A run to the wrap -/

def plainSubscribe : SeqEv :=
  ⟨.subscribe ⟨[97], by decide⟩, { first := true, second := true, third := true, send := true }⟩

theorem plain_run (n : Nat) : (run seqStep (seqBoot none) (List.replicate n plainSubscribe)).broker.seq = .ofNat (n + 1) ∧
    (run seqStep (seqBoot none) (List.replicate n plainSubscribe)).faulted = false := by
  induction n with
  | zero => exact ⟨rfl, rfl⟩
  | succ n ih =>
    rw [List.replicate_succ', run_snoc]
    obtain ⟨hseq, hf⟩ := ih
    generalize run seqStep (seqBoot none) (List.replicate n plainSubscribe) = s at hseq hf
    have hstep : seqStep s plainSubscribe = { finishCall plainSubscribe.call true
        (mqttSubscribe s.broker ⟨[97], by decide⟩) s with calls := s.calls + 1 } := by
      rw [seqStep, if_neg (by rw [hf]; decide)]
      rfl
    rw [hstep]
    refine ⟨?_, hf⟩
    show s.broker.seq + 1 = _
    rw [hseq]
    exact (UInt16.ofNat_add (n + 1) 1).symm

theorem message_id_zero : ¬ ∀ (clientid : Option CString) (es : List SeqEv),
    IdsGood (run seqStep (seqBoot clientid) es) := by
  intro hall
  have h0 := (hall none (List.replicate (65535 + 1) plainSubscribe)).nonzero
  obtain ⟨hseq, hf⟩ := plain_run 65535
  rw [List.replicate_succ', run_snoc] at h0
  generalize run seqStep (seqBoot none) (List.replicate 65535 plainSubscribe) = s at hseq hf h0
  have hfirst := h0 ⟨s.calls, plainSubscribe.call, (mqttSubscribe s.broker ⟨[97], by decide⟩).1⟩ (by
    rw [seqStep, if_neg (by rw [hf]; decide)]
    exact List.mem_cons_self)
  exact hfirst ((subscribe_id _ _ _).trans hseq)

end GizwitsSdk
