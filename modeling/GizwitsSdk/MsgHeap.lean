import GizwitsSdk.Lib.Heap
import GizwitsSdk.McuV4
import GizwitsSdk.CloudLogin
import GizwitsSdk.MqttSend

/-!
# The heap of the messages

Every message is built in blocks of the heap that its function takes and gives
back. The answers of the allocator and of `send` are the input; the packets are
those of the modules that build them. An answer of `NULL` is a test that the
function makes, or a store through `NULL` where it makes none.
-/

namespace GizwitsSdk

open Lib

structure MsgEnv where
  /-- what the allocator gives, by the number of the call and the size -/
  alloc : Nat → Int → Option Nat
  /-- what `send` returns, by the number of the call and the packet -/
  send : Nat → List UInt8 → Int
  /-- `g_stMQTTBroker` -/
  broker : MqttBroker
  /-- `g_MQTTStatus` is `MQTT_STATUS_RUNNING` -/
  running : Bool
  did : CString
  clients : Fin 8 → SocketClent
  gSocketLogin : SocketLogin
  /-- the frames, and what follows the status frame in memory -/
  mcu : McuSt
  after : List UInt8

namespace OnHeap

variable (env : MsgEnv)

/-- With the caller's `int`. A negative size is refused, as a size that large is.
(`mem_malloc` cuts it to its `u16_t` and may have a block for that; then the
caller's `memset` of the negative length does not come to its end.) -/
def memMalloc (size : Int) : HeapM (Option Nat) := mallocM env.alloc size

def send (packet : List UInt8) : HeapM Int := outsideM fun n => env.send n packet

def refuses (size : Int) (s : BlockHeap × Nat) : Prop :=
  (s.1.malloc (if size < 0 then none else env.alloc s.2 size)).1 = none

/-! ## `mqttlib.c` -/

def fixedHeaderSize (remainLen : Nat) : Int := if 127 < remainLen then 3 else 2

def connectRemainLen (b : MqttBroker) : UInt8 :=
  let usernamelen := strlen b.username
  let passwordlen := strlen b.password
  (12 + (strlen (b.clientid ++ b.username) + 2 + (if usernamelen ≠ 0 then usernamelen + 2 else 0) +
    (if passwordlen ≠ 0 then passwordlen + 2 else 0))).toUInt8

def mqttConnect (b : MqttBroker) : HeapM Int := do
  let some fixedHeader ← memMalloc env (fixedHeaderSize (connectRemainLen b).toNat) | do
    freeM none
    return -1
  let p := GizwitsSdk.mqttConnect b
  let some packet ← memMalloc env p.length | do
    freeM (some fixedHeader)
    freeM none
    return -2
  let ret ← send env p
  freeM (some fixedHeader)
  freeM (some packet)
  return if ret < p.length then -3 else 0

def varHeaderLen (topic : CString) (qos : UInt8) : Nat :=
  (UInt16.ofNat topic.bytes.length).toNat + 2 + qosSize qos

/-- `fixed_headerLen` of the publishers -/
def publishHeaderSize (topic : CString) (msglen : Nat) (qos : UInt8) : Int :=
  fixedHeaderSize (UInt16.ofNat (varHeaderLen topic qos + msglen)).toNat

def xpgMqttPublishWithQos (b : MqttBroker) (topic : CString) (msg : List UInt8) (retain qos : UInt8) :
    HeapM Int := do
  let some varHeader ← memMalloc env (varHeaderLen topic qos) | do
    freeM none
    return -1
  let some fixedHeader ← memMalloc env (publishHeaderSize topic msg.length qos) | do
    freeM (some varHeader)
    freeM none
    return -1
  let size := publishHeaderSize topic msg.length qos + varHeaderLen topic qos + msg.length
  let some packet ← memMalloc env size | do
    freeM (some varHeader)
    freeM (some fixedHeader)
    freeM none
    return -1
  let ret ← send env (GizwitsSdk.xpgMqttPublishWithQos b topic msg retain qos).1
  freeM (some varHeader)
  freeM (some fixedHeader)
  freeM (some packet)
  return if ret < size then -1 else 1

/-- No answer of the allocator is tested, and nothing is given back. -/
def mqttPublishWithQos (b : MqttBroker) (topic msg : CString) (retain qos : UInt8) : HeapM Int := do
  let msglen := (UInt16.ofNat msg.bytes.length).toNat
  let varHeader ← memMalloc env (varHeaderLen topic qos)
  storeM varHeader
  let fixedHeader ← memMalloc env (publishHeaderSize topic msglen qos)
  storeM fixedHeader
  let size := publishHeaderSize topic msglen qos + varHeaderLen topic qos + msglen
  let packet ← memMalloc env size
  storeM packet
  let ret ← send env (GizwitsSdk.mqttPublishWithQos b topic msg retain qos).1
  return if ret < size then -1 else 1

/-- `mqtt_subscribe` and `mqtt_unsubscribe`, for the packet `p`. -/
def topicRequest (utfTopicLen : Nat) (p : List UInt8) : HeapM Int := do
  let some utfTopic ← memMalloc env utfTopicLen | do
    freeM none
    return -1
  let some packet ← memMalloc env (4 + utfTopicLen) | do
    freeM (some utfTopic)
    freeM none
    return -1
  let ret ← send env p
  freeM (some utfTopic)
  freeM (some packet)
  return if ret < 4 + utfTopicLen then -1 else 1

def mqttSubscribe (b : MqttBroker) (topic : CString) : HeapM Int :=
  topicRequest env ((UInt16.ofNat topic.bytes.length).toNat + 3) (GizwitsSdk.mqttSubscribe b topic).1

def mqttUnsubscribe (b : MqttBroker) (topic : CString) : HeapM Int :=
  topicRequest env ((UInt16.ofNat topic.bytes.length).toNat + 2) (GizwitsSdk.mqttUnsubscribe b topic).1

/-! ## `mcu_v4.c` -/

def sendEach : List (Int × List UInt8) → HeapM Unit
  | [] => pure ()
  | (_, packet) :: rest => do
    let _ ← send env packet
    sendEach rest

def devSendPacket2Phone (uartbuf : List UInt8) (uartbufLen : Nat) (cmd : UInt8) (fd : Int) : HeapM Unit := do
  let plen := phonePLen uartbuf uartbufLen cmd
  let some pload ← memMalloc env plen | return ()
  let some sendPack ← memMalloc env ((addW2PHead (toShort (plen + 3)) cmd).length + plen) | do
    freeM (some pload)
    return ()
  sendEach env (GizwitsSdk.devSendPacket2Phone env.clients env.gSocketLogin uartbuf uartbufLen cmd fd)
  freeM (some sendPack)
  freeM (some pload)

/-- `dev2app/` and the DID -/
def mcuSendTopic (did : CString) : CString where
  bytes := [0x64, 0x65, 0x76, 0x32, 0x61, 0x70, 0x70, 0x2f] ++ did.bytes
  nulFree := by
    rw [List.mem_append, not_or]
    exact ⟨by decide, did.nulFree⟩

/-- `PubMsg` with the flag 0 -/
def pubMsg (topic : CString) (payload : List UInt8) : HeapM Int :=
  xpgMqttPublishWithQos env env.broker topic payload 0 0

def mcuSendPublishPacket (uartbuf : List UInt8) : HeapM Int := do
  let some p := GizwitsSdk.mcuSendPublishPacket env.running uartbuf | return 1
  let some sendPack ← memMalloc env p.length | return 1
  let _ ← pubMsg env (mcuSendTopic env.did) p
  freeM (some sendPack)
  return 0

def responseDevStatus : HeapM Unit := do
  let f := (reportStatus REPORT_STATUS 0 env.mcu).mM2wMcuStatus.bytes
  devSendPacket2Phone env (f ++ env.after) (f.length + 1) 0x91 0
  let _ ← mcuSendPublishPacket env f

/-! ## `mqttxpg.c` -/

def ser2cliRes : List UInt8 := [0x73, 0x65, 0x72, 0x32, 0x63, 0x6c, 0x69, 0x5f, 0x72, 0x65, 0x73, 0x2f]

/-- `MQTT_DoCloudMCUCmd` behind `GAgentV4_CtlDev_with_p0` -/
def mqttDoCloudMCUCmd (pHiP0Data : Option (List UInt8)) : HeapM Unit :=
  match pHiP0Data.bind GizwitsSdk.mqttDoCloudMCUCmd with
  | some (_, len) => if len.toNat ≤ 4 * 1024 then responseDevStatus env else return ()
  | none => return ()

/-- `Mqtt_DispatchPublishPacket`. The branch for the answers of the cloud frees
the block in the build with the upgrade only, and returns in both. -/
def mqttDispatchPublishPacket (packetBuffer : List UInt8) (packetLen : Int) : HeapM Int := do
  let topiclen := (mqttParsePubTopic packetBuffer).1
  let topic := (mqttParsePubTopic packetBuffer).2
  let some pHiP0Data ← memMalloc env (packetLen - topiclen.toNat) | do
    freeM none
    return -1
  if topic.take 8 = app2dev then do
    mqttDoCloudMCUCmd env (messageBlock (packetLen - topiclen.toNat).toNat packetBuffer)
    freeM (some pHiP0Data)
    return 0
  else if topic.take 12 = ser2cliRes then return -3
  else do
    freeM (some pHiP0Data)
    return 0

/-! ## Balance -/

section
variable {h0 : BlockHeap} {bs : List Nat} {b c d : Nat}

theorem memMalloc_triple (size : Int) :
    Triple (h0.Holds bs) (memMalloc env size) fun p => h0.Holds (p.toList ++ bs) := mallocM_triple

theorem send_triple {P : BlockHeap → Prop} (p : List UInt8) : Triple P (send env p) fun _ => P := outsideM_triple

theorem out_null {α : Type} (a : α) :
    Triple (h0.Holds bs) (do freeM none; return a) fun _ => h0.Holds bs :=
  freeM_null.bind fun _ => .pure fun _ h => h

theorem out_one {α : Type} (a : α) :
    Triple (h0.Holds [b]) (do freeM (some b); return a) fun _ => h0.Holds [] :=
  freeM_newest.bind fun _ => .pure fun _ h => h

theorem out_two {α : Type} (a : α) :
    Triple (h0.Holds [c, b]) (do freeM (some b); freeM (some c); return a) fun _ => h0.Holds [] :=
  (freeM_oldest [c]).bind fun _ => out_one a

theorem mqttConnect_triple (br : MqttBroker) :
    Triple (h0.Holds []) (mqttConnect env br) fun _ => h0.Holds [] := by
  unfold mqttConnect
  refine (memMalloc_triple env _).bind fun p => ?_
  cases p with
  | none => exact out_null _
  | some fixedHeader =>
    refine (memMalloc_triple env _).bind fun p => ?_
    cases p with
    | none => exact freeM_newest.bind fun _ => out_null _
    | some packet => exact (send_triple env _).bind fun ret => out_two _

theorem xpgMqttPublishWithQos_triple (br : MqttBroker) (topic : CString) (msg : List UInt8)
    (retain qos : UInt8) :
    Triple (h0.Holds []) (xpgMqttPublishWithQos env br topic msg retain qos) fun _ => h0.Holds [] := by
  unfold xpgMqttPublishWithQos
  refine (memMalloc_triple env _).bind fun p => ?_
  cases p with
  | none => exact out_null _
  | some varHeader =>
    refine (memMalloc_triple env _).bind fun p => ?_
    cases p with
    | none => exact freeM_newest.bind fun _ => out_null _
    | some fixedHeader =>
      refine (memMalloc_triple env _).bind fun p => ?_
      cases p with
      | none =>
        refine (freeM_oldest [fixedHeader]).bind fun _ => ?_
        exact freeM_newest.bind fun _ => out_null _
      | some packet =>
        refine (send_triple env _).bind fun ret => ?_
        exact (freeM_oldest [packet, fixedHeader]).bind fun _ => out_two _

theorem topicRequest_triple (len : Nat) (p : List UInt8) :
    Triple (h0.Holds []) (topicRequest env len p) fun _ => h0.Holds [] := by
  unfold topicRequest
  refine (memMalloc_triple env _).bind fun p => ?_
  cases p with
  | none => exact out_null _
  | some utfTopic =>
    refine (memMalloc_triple env _).bind fun p => ?_
    cases p with
    | none => exact freeM_newest.bind fun _ => out_null _
    | some packet => exact (send_triple env _).bind fun ret => out_two _

theorem sendEach_triple {P : BlockHeap → Prop} (l : List (Int × List UInt8)) :
    Triple P (sendEach env l) fun _ => P := by
  induction l with
  | nil => exact .pure fun _ h => h
  | cons p l ih => exact (send_triple env p.2).bind fun _ => ih

theorem devSendPacket2Phone_triple (uartbuf : List UInt8) (len : Nat) (cmd : UInt8) (fd : Int) :
    Triple (h0.Holds []) (devSendPacket2Phone env uartbuf len cmd fd) fun _ => h0.Holds [] := by
  unfold devSendPacket2Phone
  refine (memMalloc_triple env _).bind fun p => ?_
  cases p with
  | none => exact .pure fun _ h => h
  | some pload =>
    refine (memMalloc_triple env _).bind fun p => ?_
    cases p with
    | none => exact out_one _
    | some sendPack =>
      refine (sendEach_triple env _).bind fun _ => ?_
      exact freeM_newest.bind fun _ => freeM_newest

theorem mcuSendPublishPacket_triple (uartbuf : List UInt8) :
    Triple (h0.Holds []) (mcuSendPublishPacket env uartbuf) fun _ => h0.Holds [] := by
  unfold mcuSendPublishPacket
  cases GizwitsSdk.mcuSendPublishPacket env.running uartbuf with
  | none => exact .pure fun _ h => h
  | some p =>
    refine (memMalloc_triple env _).bind fun q => ?_
    cases q with
    | none => exact .pure fun _ h => h
    | some sendPack =>
      have hpub (s : BlockHeap × Nat) : Balances (pubMsg env (mcuSendTopic env.did) p) s :=
        balances_of_triple (fun _ => xpgMqttPublishWithQos_triple env _ _ _ _ _) s
      exact (triple_of_balances hpub).bind fun _ => out_one _

theorem responseDevStatus_triple : Triple (h0.Holds []) (responseDevStatus env) fun _ => h0.Holds [] :=
  (devSendPacket2Phone_triple env _ _ _ _).bind fun _ =>
    (mcuSendPublishPacket_triple env _).bind fun _ => .pure fun _ h => h

theorem mqttDoCloudMCUCmd_triple (pHiP0Data : Option (List UInt8)) :
    Triple (h0.Holds []) (mqttDoCloudMCUCmd env pHiP0Data) fun _ => h0.Holds [] := by
  unfold mqttDoCloudMCUCmd
  split
  · split
    · exact responseDevStatus_triple env
    · exact .pure fun _ h => h
  · exact .pure fun _ h => h

theorem mqttPublishWithQos_keeps (br : MqttBroker) (topic msg : CString) (retain qos : UInt8) :
    IfReturns (h0.Holds []) (mqttPublishWithQos env br topic msg retain qos) fun _ => h0.Keeps := by
  unfold mqttPublishWithQos
  refine (memMalloc_triple env _).ifReturns.bind fun v => storeM_taken.bind fun _ => ?_
  refine mallocM_keeps.ifReturns.bind fun f => storeM_ifReturns.bind fun _ => ?_
  refine mallocM_keeps.ifReturns.bind fun p => storeM_ifReturns.bind fun _ => ?_
  refine (send_triple env _).ifReturns.bind fun ret => ?_
  exact Triple.ifReturns (.pure fun _ h => h)

theorem mqttDispatchPublishPacket_triple {packetBuffer : List UInt8}
    (hr : (mqttParsePubTopic packetBuffer).2.take 12 ≠ ser2cliRes) (packetLen : Int) :
    Triple (h0.Holds []) (mqttDispatchPublishPacket env packetBuffer packetLen) fun _ => h0.Holds [] := by
  unfold mqttDispatchPublishPacket
  refine (memMalloc_triple env _).bind fun p => ?_
  cases p with
  | none => exact out_null _
  | some pHiP0Data =>
    by_cases ha : (mqttParsePubTopic packetBuffer).2.take 8 = app2dev
    · simp only [ha, if_true]
      have hcmd (block : Option (List UInt8)) (s : BlockHeap × Nat) : Balances (mqttDoCloudMCUCmd env block) s :=
        balances_of_triple (fun _ => mqttDoCloudMCUCmd_triple env block) s
      exact (triple_of_balances (hcmd _)).bind fun _ => out_one _
    · simp only [ha, hr, if_false]
      exact out_one _

/-- The answer of the cloud keeps its block, if there is one for it. -/
theorem mqttDispatchPublishPacket_res {packetBuffer : List UInt8}
    (hr : (mqttParsePubTopic packetBuffer).2.take 12 = ser2cliRes) (packetLen : Int) (s : BlockHeap × Nat) :
    Balances (mqttDispatchPublishPacket env packetBuffer packetLen) s ↔
      refuses env (packetLen - (mqttParsePubTopic packetBuffer).1.toNat) s := by
  have happ : (mqttParsePubTopic packetBuffer).2.take 8 ≠ app2dev := by
    intro ha
    have h8 : (ser2cliRes.take 8) = app2dev := by rw [← hr, List.take_take, ← ha]; rfl
    exact absurd h8 (by decide)
  unfold refuses
  cases hm : (s.1.malloc (if packetLen - (mqttParsePubTopic packetBuffer).1.toNat < 0 then none else
    env.alloc s.2 (packetLen - (mqttParsePubTopic packetBuffer).1.toNat))).1 with
  | none =>
    refine ⟨fun _ => rfl, fun _ => ⟨-1, (s.1, s.2 + 1), ?_, rfl, rfl⟩⟩
    unfold mqttDispatchPublishPacket memMalloc
    rw [mallocM_bind hm, BlockHeap.malloc_none hm]
    rfl
  | some b =>
    refine ⟨?_, fun h => nomatch h⟩
    rintro ⟨a, s', h, hl, -⟩
    unfold mqttDispatchPublishPacket memMalloc at h
    rw [mallocM_bind hm] at h
    simp only [if_neg happ, if_pos hr] at h
    cases h
    have hk : s.1.Keeps (s.1.malloc (if packetLen - (mqttParsePubTopic packetBuffer).1.toNat < 0 then none else
        env.alloc s.2 (packetLen - (mqttParsePubTopic packetBuffer).1.toNat))).2 :=
      ⟨b, [], (BlockHeap.Holds.refl s.1).malloc hm⟩
    exact absurd hl hk.leaks

end

/-! ## Calls -/

inductive MsgCall
  | mqttDispatchPublishPacket (packetBuffer : List UInt8) (packetLen : Int)
  | xpgMqttPublishWithQos (b : MqttBroker) (topic : CString) (msg : List UInt8) (retain qos : UInt8)
  | mqttPublishWithQos (b : MqttBroker) (topic msg : CString) (retain qos : UInt8)
  | mqttConnect (b : MqttBroker)
  | mqttSubscribe (b : MqttBroker) (topic : CString)
  | mqttUnsubscribe (b : MqttBroker) (topic : CString)
  | devSendPacket2Phone (uartbuf : List UInt8) (uartbufLen : Nat) (cmd : UInt8) (fd : Int)
  | mcuSendPublishPacket (uartbuf : List UInt8)

def exec : MsgCall → HeapM Unit
  | .mqttDispatchPublishPacket buf len => do let _ ← mqttDispatchPublishPacket env buf len
  | .xpgMqttPublishWithQos b topic msg retain qos => do let _ ← xpgMqttPublishWithQos env b topic msg retain qos
  | .mqttPublishWithQos b topic msg retain qos => do let _ ← mqttPublishWithQos env b topic msg retain qos
  | .mqttConnect b => do let _ ← mqttConnect env b
  | .mqttSubscribe b topic => do let _ ← mqttSubscribe env b topic
  | .mqttUnsubscribe b topic => do let _ ← mqttUnsubscribe env b topic
  | .devSendPacket2Phone uartbuf len cmd fd => devSendPacket2Phone env uartbuf len cmd fd
  | .mcuSendPublishPacket uartbuf => do let _ ← mcuSendPublishPacket env uartbuf

/-- The call keeps a block: one to the publisher without tests, or the dispatch of
an answer of the cloud for which there is memory. -/
def keepsBlock (s : BlockHeap × Nat) : MsgCall → Prop
  | .mqttPublishWithQos _ _ _ _ _ => True
  | .mqttDispatchPublishPacket packetBuffer packetLen =>
    (mqttParsePubTopic packetBuffer).2.take 12 = ser2cliRes ∧
      ¬ refuses env (packetLen - (mqttParsePubTopic packetBuffer).1.toNat) s
  | _ => False

/-- **Heap balance**: whatever the allocator and `send` answer, a call gives back
what it takes and frees nothing twice, but for the publisher without tests and
for the answers of the cloud. -/
theorem heap_balanced_iff (env : MsgEnv) (c : MsgCall) (s : BlockHeap × Nat) :
    Balances (exec env c) s ↔ ¬ keepsBlock env s c := by
  cases c with
  | mqttDispatchPublishPacket buf len =>
    refine balances_discard.trans ?_
    by_cases hr : (mqttParsePubTopic buf).2.take 12 = ser2cliRes
    · rw [mqttDispatchPublishPacket_res env hr]
      exact ⟨fun h hk => hk.2 h, fun h => not_not.mp fun hn => h ⟨hr, hn⟩⟩
    · exact ⟨fun _ hk => hr hk.1,
        fun _ => balances_of_triple (fun _ => mqttDispatchPublishPacket_triple env hr len) s⟩
  | xpgMqttPublishWithQos b topic msg retain qos =>
    have h := balances_of_triple (fun _ => xpgMqttPublishWithQos_triple env b topic msg retain qos) s
    exact ⟨fun _ => id, fun _ => balances_discard.mpr h⟩
  | mqttPublishWithQos b topic msg retain qos =>
    have h := not_balances_of_keeps (fun _ => mqttPublishWithQos_keeps env b topic msg retain qos) s
    exact ⟨fun hb => absurd (balances_discard.mp hb) h, fun hk => absurd trivial hk⟩
  | mqttConnect b =>
    have h := balances_of_triple (fun _ => mqttConnect_triple env b) s
    exact ⟨fun _ => id, fun _ => balances_discard.mpr h⟩
  | mqttSubscribe b topic =>
    exact ⟨fun _ => id,
      fun _ => balances_discard.mpr (balances_of_triple (fun _ => topicRequest_triple env _ _) s)⟩
  | mqttUnsubscribe b topic =>
    exact ⟨fun _ => id,
      fun _ => balances_discard.mpr (balances_of_triple (fun _ => topicRequest_triple env _ _) s)⟩
  | devSendPacket2Phone uartbuf len cmd fd =>
    exact ⟨fun _ => id,
      fun _ => balances_of_triple (fun _ => devSendPacket2Phone_triple env uartbuf len cmd fd) s⟩
  | mcuSendPublishPacket uartbuf =>
    have h := balances_of_triple (fun _ => mcuSendPublishPacket_triple env uartbuf) s
    exact ⟨fun _ => id, fun _ => balances_discard.mpr h⟩

/-- The answer of the cloud to `cli2ser_req`, with memory at hand: the block for its message stays. -/
theorem cloud_answer_leaks : ¬ ∀ (env : MsgEnv) (c : MsgCall) (s : BlockHeap × Nat), Balances (exec env c) s := by
  intro h
  let env : MsgEnv :=
    { alloc := fun n _ => some n
      send := fun _ p => p.length
      broker := mqttInit none
      running := true
      did := ⟨[], List.not_mem_nil⟩
      clients := fun _ => {}
      gSocketLogin := fun _ => 0
      mcu := {}
      after := [] }
  have hb := h env (.mqttDispatchPublishPacket ([0x30, 14, 0, 12] ++ ser2cliRes) 16)
    ({ live := ∅, doubleFree := false }, 0)
  have hr := (mqttDispatchPublishPacket_res env (by decide +kernel) 16 _).mp (balances_discard.mp hb)
  revert hr
  unfold refuses
  decide +kernel

end OnHeap

end GizwitsSdk
