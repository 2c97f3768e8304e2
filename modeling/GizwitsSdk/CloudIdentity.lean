import GizwitsSdk.CloudClock
import GizwitsSdk.FlashWrite
import GizwitsSdk.Onboarding

/-!
# Passcode and DID

The device invents a passcode, the cloud answers it with a DID, and both are
kept in one configuration that other modules write to and save as well. Here the
configuration is the bytes of `GAgent_CONFIG_S`, the flash keeps what was saved,
and power can go between any two steps.
-/

namespace GizwitsSdk

open Lib

/-! ## The configuration -/

def gAgentMagicNumber : Nat := 0x12345678

def xpgCfgFlagConnected : Nat := 1

-- `GAgent_CONFIG_S`: `magicNumber` at 0, `flag` at 4, `wifipasscode` at 8, `wifi_ssid`
-- at 24, `wifi_key` at 56, `FirmwareId` at 88, `Cloud_DId` at 96, the version behind it.

def magicNumber (cfg : Mem) : Nat := load32 cfg 0

def cfgFlag (cfg : Mem) : Nat := load32 cfg 4

def wifipasscode (cfg : Mem) : List UInt8 := fieldAt cfg 8 16

def cloudDId (cfg : Mem) : List UInt8 := fieldAt cfg 96 24

def memset0 (m : Mem) (p n : Nat) : Mem := blit m p (List.replicate n 0)

/-- The bytes of a configuration, over those of another memory. -/
def configCopy (src dst : Mem) : Mem := fun k => if k < gAgentConfigSize then src k else dst k

def makeRand (rnd : Nat → Nat) (cfg : Mem) : Mem :=
  blit cfg 8 ((List.range 10).map (fun i => .ofNat (65 + rnd i % (90 - 65))) ++ [0])

def setConnected (cfg : Mem) : Mem := store32 cfg 4 (cfgFlag cfg ||| xpgCfgFlagConnected)

def passwdLength (buf : Mem) : Nat := (buf (10 + (buf 9).toNat + 1)).toNat

/-- The common part of `Udp_Onboarding` and `GAgent_SaveSSIDAndKey`. What is
longer than its field goes on into the next. -/
def credentialsConfig (ssid key : List UInt8) (cfg : Mem) : Mem :=
  let cfg := memset0 (memset0 cfg 24 32) 56 32
  let cfg := blit cfg 24 ssid
  let cfg := blit cfg 56 key
  setConnected cfg

def onboardConfig (buf cfg : Mem) : Mem :=
  let n := (buf 9).toNat
  credentialsConfig (strncpy [] (fieldAt buf 10 n) n)
    (strncpy [] (fieldAt buf (10 + n + 2) (passwdLength buf)) (passwdLength buf)) cfg

def ssidAndKeyConfig (pSSID pKey cfg : Mem) : Mem :=
  credentialsConfig ((List.range 32).map pSSID) ((List.range 32).map pKey) cfg

/-- What the reset button does to it. -/
def buttonConfig (cfg : Mem) : Mem := memset0 (memset0 (memset0 cfg 24 32) 56 32) 4 4

def wifiResetConfig (rnd : Nat → Nat) (cfg : Mem) : Mem :=
  let cfg := memset0 (memset0 (memset0 (memset0 cfg 8 16) 24 32) 56 32) 96 24
  let cfg := makeRand rnd cfg
  store32 cfg 4 (cfgFlag cfg &&& 0xfffffffe)

/-! ## The device -/

structure DeviceRam where
  /-- `g_stGAgentConfigData` -/
  cfg : Mem
  /-- `g_Xpg_GlobalVar.DID`, as a C string -/
  did : List UInt8
  cloud : CloudSt
  /-- the passcode in the last registration request since the boot -/
  posted : Option (List UInt8)

structure IdSt where
  flash : Mem
  /-- none while there is no power -/
  ram : Option DeviceRam
  /-- since the flash was erased: a passcode that was posted, the DID that the
  reply to it brought -/
  delivered : List (List UInt8 × List UInt8)

def saveConfigData (r : DeviceRam) (s : IdSt) : IdSt :=
  { s with flash := configCopy r.cfg s.flash, ram := some r }

/-- `GAgent_Config_Status_Init`: whether there is a DID, and the configuration. -/
def gAgentConfigStatusInit (rnd : Nat → Nat) (flash : Mem) : Bool × Mem :=
  let cfg := configCopy flash fun _ => 0
  if magicNumber cfg = gAgentMagicNumber ∧ (cloudDId cfg).length = 22 then (true, cfg)
  else
    let cfg := if cfgFlag cfg ≠ xpgCfgFlagConnected then memset0 cfg 0 gAgentConfigSize else cfg
    (false, makeRand rnd (store32 cfg 0 gAgentMagicNumber))

/-- `GAgent_Init`. -/
def boot (rnd : Nat → Nat) (ticks : UInt32) (s : IdSt) : IdSt :=
  match gAgentConfigStatusInit rnd s.flash with
  | (true, cfg) =>
    { s with ram := some { cfg, did := cloudDId cfg, cloud := cloudBoot ticks true, posted := none } }
  | (false, cfg) => saveConfigData { cfg, did := [], cloud := cloudBoot ticks false, posted := none } s

/-- The reply with code 201 that `Http_Recive_Did` reads in this step. -/
def reciveDid (env : CloudEnv) (c : CloudSt) : Option HttpReply :=
  match env.http with
  | .reply rep =>
    if env.station = true ∧ c.gConCloudStatus = .reqDidAck ∧ ¬ waitOver c ∧ rep.code = 201 then some rep
    else none
  | _ => none

/-- The DID of a topic that `Mqtt_DispatchPublishPacket` takes for the device's own. -/
def topicDid (env : CloudEnv) (c : CloudSt) : Option (List UInt8) :=
  if env.station = true ∧ c.gConCloudStatus = .running ∧ c.gMQTTStatus = .running ∧ c.dIdLen = 0 then
    (packetTakenUp env.mqtt c).bind fun buf =>
      let topic := (mqttParsePubTopic buf).2
      if mqttParseMessageType buf = 0x30 ∧ topic.take 8 = app2dev then
        some ((topic.drop 8).takeWhile (· ≠ 0x2f))
      else none
  else none

def didDelivered (reply : Mem) (r : DeviceRam) (s : IdSt) : IdSt :=
  let did := fieldAt reply 0 22
  let cfg := store8 (blit r.cfg 96 ((List.range 22).map reply)) (96 + 22) 0
  saveConfigData { r with cfg, did }
    { s with delivered := (r.posted.map fun p => (p, did)).toList ++ s.delivered }

def topicDidTaken (did : List UInt8) (r : DeviceRam) (s : IdSt) : IdSt :=
  saveConfigData
    { r with cfg := store8 (blit (memset0 r.cfg 96 24) 96 did) (96 + did.length) 0, did } s

/-- A step of the cloud task, where `reply` is what stands behind `did=` in an
HTTP reply. -/
def loginTask (env : CloudEnv) (reply : Mem) (r : DeviceRam) (s : IdSt) : IdSt :=
  let r' := { r with cloud := gAgentLoginCloud env r.cloud }
  if r.cloud.gConCloudStatus = .reqDid ∧ r'.cloud.gConCloudStatus = .reqDidAck then
    { s with ram := some { r' with posted := some (wifipasscode r.cfg) } }
  else
    match reciveDid env r.cloud, topicDid env r.cloud with
    | some rep, _ => if rep.did then didDelivered reply r' s else { s with ram := some { r' with did := [] } }
    | none, some did => topicDidTaken did r' s
    | none, none => { s with ram := some r' }

inductive Task
  | loginCloud (env : CloudEnv) (reply : Mem)
  | hbTimer
  | report
  | elapse (ticks : UInt32)
  /-- an onboarding datagram has been let through -/
  | onboarding (buf : Mem)
  /-- the save of `AppEvtCallBack` -/
  | linkUp
  | saveSSIDAndKey (pSSID pKey : Mem)
  /-- the save of `GAgent_SetDevNetWork` after direct config -/
  | directConfig
  /-- its read where there was none -/
  | readConfig
  | resetButton
  | wifiReset (rnd : Nat → Nat)

def taskStep (r : DeviceRam) (s : IdSt) : Task → IdSt
  | .loginCloud env reply => loginTask env reply r s
  | .hbTimer => { s with ram := some { r with cloud := cloudMqttHBTimer r.cloud } }
  | .report => { s with ram := some { r with cloud := mcuSendPublish r.cloud } }
  | .elapse ticks => { s with ram := some { r with cloud := cloudStep r.cloud (.elapse ticks) } }
  | .onboarding buf => { s with ram := some { r with cfg := onboardConfig buf r.cfg } }
  | .linkUp => saveConfigData r s
  | .saveSSIDAndKey pSSID pKey => saveConfigData { r with cfg := ssidAndKeyConfig pSSID pKey r.cfg } s
  | .directConfig => saveConfigData { r with cfg := setConnected r.cfg } s
  | .readConfig => { s with ram := some { r with cfg := configCopy s.flash r.cfg } }
  | .resetButton => saveConfigData { r with cfg := buttonConfig r.cfg } s
  | .wifiReset rnd =>
    { saveConfigData { r with cfg := wifiResetConfig rnd r.cfg } s with ram := none }

inductive IdEv
  | boot (rnd : Nat → Nat) (ticks : UInt32)
  | powerOff
  | task (t : Task)

def idStep (s : IdSt) : IdEv → IdSt
  | .boot rnd ticks => boot rnd ticks s
  | .powerOff => { s with ram := none }
  | .task t =>
    match s.ram with
    | some r => taskStep r s t
    | none => s

def erased : IdSt where
  flash := fun _ => 0xff
  ram := none
  delivered := []

/-! ## The pairing -/

/-- A boot that finds a DID finds the passcode that it was delivered for. -/
def BootPaired (s : IdSt) : Prop := ∀ rnd ticks r, (boot rnd ticks s).ram = some r →
  r.cloud.gConCloudStatus = .reqM2minfo → (wifipasscode r.cfg, r.did) ∈ s.delivered

def RunningWithDid (s : IdSt) : Prop :=
  ∀ r, s.ram = some r → r.cloud.gMQTTStatus = .running → r.cloud.dIdLen = 22

/-- The name and the key stay clear of `Cloud_DId`. -/
def CredentialsFit (buf : Mem) : Prop := (buf 9).toNat ≤ 72 ∧ passwdLength buf ≤ 40

instance (buf : Mem) : Decidable (CredentialsFit buf) := inferInstanceAs (Decidable (_ ∧ _))

/-! ## What a write leaves alone -/

def SameIdentity (cfg cfg' : Mem) : Prop := ∀ k, k < 4 ∨ 8 ≤ k ∧ k < 24 ∨ 96 ≤ k ∧ k < 120 → cfg' k = cfg k

section
variable {cfg cfg' cfg'' m m' : Mem} {p p' n k : Nat} {bs : List UInt8}

theorem blit_other (h : k < p ∨ p + bs.length ≤ k) : blit m p bs k = m k := if_neg (by omega)

theorem memset0_at (h : k < n) : memset0 m p n (p + k) = 0 := by
  unfold memset0
  rw [blit_at (by omega) (by rw [List.length_replicate]; omega), List.getD_replicate _ (by omega)]

theorem memset0_other (h : k < p ∨ p + n ≤ k) : memset0 m p n k = m k :=
  blit_other (by rwa [List.length_replicate])

namespace SameIdentity

theorem refl (cfg : Mem) : SameIdentity cfg cfg := fun _ _ => rfl

theorem trans (h : SameIdentity cfg cfg') (h' : SameIdentity cfg' cfg'') : SameIdentity cfg cfg'' :=
  fun k hk => (h' k hk).trans (h k hk)

theorem magic (h : SameIdentity cfg cfg') : magicNumber cfg' = magicNumber cfg :=
  load32_congr fun k _ hk => h k (.inl (by omega))

theorem passcode (h : SameIdentity cfg cfg') : wifipasscode cfg' = wifipasscode cfg :=
  fieldAt_congr fun k hk => h (8 + k) (by omega)

theorem did (h : SameIdentity cfg cfg') : cloudDId cfg' = cloudDId cfg :=
  fieldAt_congr fun k hk => h (96 + k) (by omega)

end SameIdentity

theorem blit_same (cfg : Mem) (hp : 24 ≤ p) (h : p + bs.length ≤ 96) : SameIdentity cfg (blit cfg p bs) :=
  fun _ hk => blit_other (by omega)

theorem memset0_same (cfg : Mem) (hp : 24 ≤ p) (h : p + n ≤ 96) : SameIdentity cfg (memset0 cfg p n) :=
  blit_same cfg hp (by rw [List.length_replicate]; exact h)

theorem storeFlag_same (cfg : Mem) (v : Nat) : SameIdentity cfg (store32 cfg 4 v) :=
  fun _ hk => store32_other (by omega)

theorem configCopy_same (src dst : Mem) : SameIdentity src (configCopy src dst) :=
  fun k hk => if_pos (show k < 156 by omega)

theorem clearCredentials_same (cfg : Mem) : SameIdentity cfg (memset0 (memset0 cfg 24 32) 56 32) :=
  (memset0_same cfg (by decide) (by decide)).trans (memset0_same _ (by decide) (by decide))

theorem credentialsConfig_same {ssid key : List UInt8} (cfg : Mem) (hs : ssid.length ≤ 72)
    (hk : key.length ≤ 40) : SameIdentity cfg (credentialsConfig ssid key cfg) := by
  have h1 := clearCredentials_same cfg
  have h2 := h1.trans (blit_same _ (show 24 ≤ 24 by decide) (show 24 + ssid.length ≤ 96 by omega))
  have h3 := h2.trans (blit_same _ (show 24 ≤ 56 by decide) (show 56 + key.length ≤ 96 by omega))
  exact h3.trans (storeFlag_same _ _)

theorem length_strncpy (src : List UInt8) (n : Nat) : (strncpy [] src n).length = n := by
  simp only [strncpy, List.drop_nil, List.append_nil, List.length_append, List.length_take,
    List.length_replicate]
  omega

theorem onboardConfig_same {buf : Mem} (cfg : Mem) (h : CredentialsFit buf) :
    SameIdentity cfg (onboardConfig buf cfg) := by
  refine credentialsConfig_same cfg ?_ ?_
  · rw [length_strncpy]; exact h.1
  · rw [length_strncpy]; exact h.2

theorem ssidAndKeyConfig_same (pSSID pKey cfg : Mem) :
    SameIdentity cfg (ssidAndKeyConfig pSSID pKey cfg) := by
  refine credentialsConfig_same cfg ?_ ?_
  · rw [List.length_map, List.length_range]; decide
  · rw [List.length_map, List.length_range]; decide

theorem buttonConfig_same (cfg : Mem) : SameIdentity cfg (buttonConfig cfg) :=
  (clearCredentials_same cfg).trans fun _ hk => blit_other (by rw [List.length_replicate]; omega)

theorem memset0_cloudDId (h : p ≤ 96) (h' : 96 < p + n) : cloudDId (memset0 m p n) = [] := by
  have h0 : memset0 m p n (p + (96 - p)) = 0 := memset0_at (by omega)
  rw [Nat.add_sub_of_le h] at h0
  exact fieldAt_nul (k := 0) h0 (by decide)

theorem delivered_cloudDId (cfg reply : Mem) :
    cloudDId (store8 (blit cfg 96 ((List.range 22).map reply)) (96 + 22) 0) = fieldAt reply 0 22 := by
  refine (fieldAt_nul (k := 22) (store8_self _ _ _) (by decide)).trans (fieldAt_congr fun k hk => ?_)
  rw [store8_other (.inl (by omega)),
    blit_at (by omega) (by simp only [List.length_map, List.length_range]; omega), Nat.add_sub_cancel_left,
    Nat.zero_add, List.getD_eq_getElem?_getD, List.getElem?_map,
    List.getElem?_range hk]
  rfl

end

/-- The saving of the source, as far as a configuration is read back. -/
theorem saved_configCopy (answer : Option Nat) (h : BlockHeap) (f : Flash) {b : Nat}
    (hb : (h.malloc answer).1 = some b) (cfg dst : Mem) :
    ∃ f', nl6621SaveConfigData answer cfg (h, f) = some (h, f') ∧
      configCopy (nl6621GetConfigData f') dst = configCopy cfg dst := by
  obtain ⟨f', hf', hr⟩ := saveConfigData_readBack f hb cfg
  refine ⟨f', hf', funext fun k => ?_⟩
  unfold configCopy
  split
  · exact hr k ‹_›
  · rfl

/-! ## The configuration at a boot -/

section
variable {rnd : Nat → Nat} {cfg flash : Mem}

theorem makeRand_other (rnd : Nat → Nat) (cfg : Mem) {k : Nat} (h : k < 8 ∨ 24 ≤ k) :
    makeRand rnd cfg k = cfg k :=
  blit_other (by
    rw [List.length_append, List.length_map, List.length_range, List.length_singleton]
    omega)

theorem makeRand_magic (rnd : Nat → Nat) (cfg : Mem) : magicNumber (makeRand rnd cfg) = magicNumber cfg :=
  load32_congr fun _ _ hk => makeRand_other rnd cfg (.inl (by omega))

theorem makeRand_cloudDId (rnd : Nat → Nat) (cfg : Mem) : cloudDId (makeRand rnd cfg) = cloudDId cfg :=
  fieldAt_congr fun _ _ => makeRand_other rnd cfg (.inr (by omega))

theorem wifiResetConfig_cloudDId (rnd : Nat → Nat) (cfg : Mem) : cloudDId (wifiResetConfig rnd cfg) = [] := by
  have hf (m : Mem) (v : Nat) : cloudDId (store32 m 4 v) = cloudDId m := (storeFlag_same m v).did
  unfold wifiResetConfig
  rw [hf, makeRand_cloudDId, memset0_cloudDId (by decide) (by decide)]

theorem wifiResetConfig_magic (rnd : Nat → Nat) (cfg : Mem) :
    magicNumber (wifiResetConfig rnd cfg) = magicNumber cfg := by
  unfold wifiResetConfig
  rw [(storeFlag_same _ _).magic, makeRand_magic]
  refine load32_congr fun k _ hk => ?_
  unfold memset0
  rw [blit_other (.inl (by omega)), blit_other (.inl (by omega)), blit_other (.inl (by omega)),
    blit_other (.inl (by omega))]

/-- Either the flash holds a DID, or there is none in the configuration that is made. -/
theorem configStatusInit_cases (rnd : Nat → Nat)
    (hm : magicNumber flash = gAgentMagicNumber ∨ cfgFlag flash ≠ xpgCfgFlagConnected) :
    (∃ cfg, gAgentConfigStatusInit rnd flash = (true, cfg) ∧ SameIdentity flash cfg ∧
      magicNumber flash = gAgentMagicNumber ∧ (cloudDId flash).length = 22) ∨
      ∃ cfg, gAgentConfigStatusInit rnd flash = (false, cfg) ∧ magicNumber cfg = gAgentMagicNumber ∧
        (cloudDId cfg).length ≠ 22 := by
  have hs := configCopy_same flash fun _ => 0
  have hf : cfgFlag (configCopy flash fun _ => 0) = cfgFlag flash :=
    load32_congr fun k _ hk => if_pos (show k < 156 by omega)
  unfold gAgentConfigStatusInit
  simp only [hs.magic, hs.did, hf]
  split
  · rename_i hc
    exact .inl ⟨_, rfl, hs, hc⟩
  · rename_i hc
    refine .inr ⟨_, rfl, ?_, ?_⟩
    · rw [makeRand_magic, magicNumber, load32_store32]
      rfl
    · have hst (cfg : Mem) : cloudDId (store32 cfg 0 gAgentMagicNumber) = cloudDId cfg :=
        fieldAt_congr fun _ _ => store32_other (by omega)
      rw [makeRand_cloudDId, hst]
      split
      · rw [memset0_cloudDId (by decide) (by decide)]
        decide
      · rename_i hcon
        rw [hs.did]
        exact fun h22 => hc ⟨hm.resolve_right hcon, h22⟩

end

/-! ## The DID of the cloud task -/

/-- The machine has a DID, or has not got past the registration. -/
def DidKnown (c : CloudSt) : Prop :=
  c.dIdLen = 22 ∨ c.gConCloudStatus.isDid = true ∧ c.socketid = -1 ∧ c.gMQTTStatus = .start

section
variable {c c' : CloudSt}

theorem DidKnown.of_con (h : DidKnown c) {st : ConCloud} (hc : c.gConCloudStatus = st)
    (hst : st.isDid = false) : c.dIdLen = 22 := by
  rcases h with h | ⟨h, -, -⟩
  · exact h
  · rw [hc, hst] at h
    cases h

theorem DidKnown.http (h : DidKnown c) (hm : HttpMove c c') : DidKnown c' := by
  rcases hm.did with hd | ⟨hd, hi⟩
  · exact .inl hd
  · rcases h with h | ⟨h1, h2, h3⟩
    · exact .inl (hd.trans h)
    · exact .inr ⟨hi.trans h1, hm.socketid.trans h2, hm.gMQTTStatus.trans h3⟩

theorem DidKnown.login (h : DidKnown c) (env : CloudEnv) : DidKnown (gAgentLoginCloud env c) := by
  have hl := gAgentLoginCloud_cases env c
  generalize gAgentLoginCloud env c = c' at hl
  cases hl with
  | stay => exact h
  | http hm => exact h.http hm
  | login hc hm =>
    have h22 := h.of_con hc rfl
    cases hm with
    | failed con status published did counters sockets => exact .inl (did.trans h22)
    | connected con status obs published did counters socketid sockets => exact .inl (did.trans h22)
  | timeout hc hs => exact .inl (h.of_con hc rfl)
  | packet hc hst ht hm =>
    have h22 := h.of_con hc rfl
    rcases hm.frame.did with hd | h0
    · exact .inl (hd.trans h22)
    · rw [h22] at h0
      cases h0

theorem DidKnown.timer (h : DidKnown c) : DidKnown (cloudMqttHBTimer c) := by
  have ht := cloudMqttHBTimer_cases c
  generalize cloudMqttHBTimer c = c' at ht
  cases ht with
  | noSocket hs => exact h
  | counted p l hid hx hc hlt => exact h
  | tornDown hid hx =>
    refine .inl (h.resolve_right ?_)
    rintro ⟨-, hs, -⟩
    rw [hs] at hid
    exact absurd hid (by decide)

theorem timer_reqDidAck (h : (cloudMqttHBTimer c).gConCloudStatus = .reqDidAck) :
    c.gConCloudStatus = .reqDidAck := by
  have ht := cloudMqttHBTimer_cases c
  generalize cloudMqttHBTimer c = c' at ht h
  cases ht with
  | noSocket hs => exact h
  | counted p l hid hx hc hlt => exact h
  | tornDown hid hx => cases h

theorem DidKnown.report (h : DidKnown c) : DidKnown (mcuSendPublish c) := by
  unfold mcuSendPublish
  split
  · exact h
  · exact h

theorem topicDid_none (h : DidKnown c) (env : CloudEnv) : topicDid env c = none := by
  refine if_neg ?_
  rintro ⟨-, hc, -, h0⟩
  rw [h.of_con hc rfl] at h0
  cases h0

theorem reciveDid_some {env : CloudEnv} {rep : HttpReply} (h : reciveDid env c = some rep) :
    env.station = true ∧ c.gConCloudStatus = .reqDidAck ∧ ¬ waitOver c ∧ rep.code = 201 ∧
      env.http = .reply rep := by
  unfold reciveDid at h
  split at h
  · rename_i r hr
    split at h
    · rename_i hc
      obtain rfl := Option.some.inj h
      exact ⟨hc.1, hc.2.1, hc.2.2.1, hc.2.2.2, hr⟩
    · cases h
  · cases h

/-- What is stored is what the machine counts on. -/
theorem reciveDid_counted {env : CloudEnv} {rep : HttpReply} (h : reciveDid env c = some rep)
    (hd : rep.did = true) :
    (gAgentLoginCloud env c).dIdLen = 22 ∧ (gAgentLoginCloud env c).gConCloudStatus = .reqM2minfo := by
  obtain ⟨hst, hc, hw, h201, hr⟩ := reciveDid_some h
  rw [login_reqDidAck hst hc, reqDidAckCase, if_neg hw, httpReadSocket, hr]
  simp only [h201, hd, and_self, if_true]

theorem reqDidAck_before {env : CloudEnv} (h : (gAgentLoginCloud env c).gConCloudStatus = .reqDidAck) :
    c.gConCloudStatus = .reqDid ∨ c.gConCloudStatus = .reqDidAck := by
  have hs := gAgentLoginCloud_stamped env c
  generalize gAgentLoginCloud env c = c' at hs h
  cases hs with
  | connected hs hc ht hk =>
    rw [h] at hc
    cases hc
  | sent hs ht =>
    rcases hs with ⟨hs, -⟩ | ⟨-, hs⟩
    · exact .inl hs
    · rw [h] at hs
      cases hs
  | other http run => exact .inr ((http (.inl h)).1.symm.trans h)

end

/-! ## The invariant -/

/-- A DID that a boot would take has been delivered for the passcode beside it. -/
def Paired (delivered : List (List UInt8 × List UInt8)) (cfg : Mem) : Prop :=
  (cloudDId cfg).length = 22 → (wifipasscode cfg, cloudDId cfg) ∈ delivered

structure RamOk (delivered : List (List UInt8 × List UInt8)) (r : DeviceRam) : Prop where
  paired : Paired delivered r.cfg
  magic : magicNumber r.cfg = gAgentMagicNumber
  posted : r.cloud.gConCloudStatus = .reqDidAck → r.posted = some (wifipasscode r.cfg)
  known : DidKnown r.cloud

structure IdInv (s : IdSt) : Prop where
  flash : Paired s.delivered s.flash
  magic : magicNumber s.flash = gAgentMagicNumber ∨ cfgFlag s.flash ≠ xpgCfgFlagConnected
  ram : ∀ r, s.ram = some r → RamOk s.delivered r
  /-- the passcode in use is the one that was saved -/
  saved : ∀ r, s.ram = some r →
    magicNumber s.flash = gAgentMagicNumber ∧ wifipasscode s.flash = wifipasscode r.cfg

section
variable {s : IdSt} {r : DeviceRam} {delivered : List (List UInt8 × List UInt8)} {cfg cfg' : Mem}

theorem Paired.same (h : Paired delivered cfg) (hs : SameIdentity cfg cfg') : Paired delivered cfg' := by
  unfold Paired
  rw [hs.did, hs.passcode]
  exact h

theorem RamOk.same (h : RamOk delivered r) (hs : SameIdentity r.cfg cfg') :
    RamOk delivered { r with cfg := cfg' } where
  paired := h.paired.same hs
  magic := hs.magic.trans h.magic
  posted hc := by rw [hs.passcode]; exact h.posted hc
  known := h.known

theorem RamOk.cloud (h : RamOk delivered r) {c : CloudSt} (hk : DidKnown c)
    (hc : c.gConCloudStatus = .reqDidAck → r.cloud.gConCloudStatus = .reqDidAck) :
    RamOk delivered { r with cloud := c } :=
  ⟨h.paired, h.magic, fun hp => h.posted (hc hp), hk⟩

theorem idInv_off {flash : Mem} (hf : Paired delivered flash)
    (hm : magicNumber flash = gAgentMagicNumber ∨ cfgFlag flash ≠ xpgCfgFlagConnected) :
    IdInv ⟨flash, none, delivered⟩ :=
  ⟨hf, hm, fun _ hr => (nomatch hr), fun _ hr => (nomatch hr)⟩

theorem IdInv.keep (h : IdInv s) {r' : DeviceRam} (hr : s.ram = some r) (h' : RamOk s.delivered r')
    (hp : wifipasscode r'.cfg = wifipasscode r.cfg) : IdInv { s with ram := some r' } where
  flash := h.flash
  magic := h.magic
  ram := by rintro _ ⟨⟩; exact h'
  saved := by
    rintro _ ⟨⟩
    exact ⟨(h.saved r hr).1, (h.saved r hr).2.trans hp.symm⟩

theorem save_inv (h : RamOk s.delivered r) : IdInv (saveConfigData r s) := by
  have hs := configCopy_same r.cfg s.flash
  refine ⟨h.paired.same hs, .inl (hs.magic.trans h.magic), ?_, ?_⟩
  · rintro _ ⟨⟩; exact h
  · rintro _ ⟨⟩; exact ⟨hs.magic.trans h.magic, hs.passcode⟩

theorem delivered_inv (h : RamOk s.delivered r) (reply : Mem) (hp : r.posted = some (wifipasscode r.cfg)) :
    IdInv (didDelivered reply r s) := by
  unfold didDelivered
  have hpass : wifipasscode (store8 (blit r.cfg 96 ((List.range 22).map reply)) (96 + 22) 0) =
      wifipasscode r.cfg :=
    fieldAt_congr fun k hk => (store8_other (.inl (by omega))).trans (blit_other (.inl (by omega)))
  have hmagic : magicNumber (store8 (blit r.cfg 96 ((List.range 22).map reply)) (96 + 22) 0) =
      magicNumber r.cfg :=
    load32_congr fun k _ hk => (store8_other (.inl (by omega))).trans (blit_other (.inl (by omega)))
  refine save_inv ⟨fun _ => ?_, hmagic.trans h.magic, fun _ => hp.trans (congrArg some hpass.symm), h.known⟩
  rw [delivered_cloudDId, hpass, hp]
  exact List.mem_cons_self

theorem boot_inv (rnd : Nat → Nat) (ticks : UInt32) (h : IdInv s) : IdInv (boot rnd ticks s) := by
  unfold boot
  rcases configStatusInit_cases rnd h.magic with ⟨cfg, hc, hs, hm, -⟩ | ⟨cfg, hc, hm, h22⟩
  · simp only [hc]
    refine ⟨h.flash, h.magic, ?_, ?_⟩
    · rintro _ ⟨⟩
      exact ⟨h.flash.same hs, hs.magic.trans hm, nofun, .inl rfl⟩
    · rintro _ ⟨⟩
      exact ⟨hm, hs.passcode.symm⟩
  · simp only [hc]
    exact save_inv ⟨fun hd => absurd hd h22, hm, nofun, .inr ⟨rfl, rfl, rfl⟩⟩

theorem loginTask_inv (h : IdInv s) (hr : s.ram = some r) (env : CloudEnv) (reply : Mem) :
    IdInv (loginTask env reply r s) := by
  have hok := h.ram r hr
  have hk := hok.known.login env
  unfold loginTask
  simp only [topicDid_none hok.known]
  split
  · exact h.keep hr ⟨hok.paired, hok.magic, fun _ => rfl, hk⟩ rfl
  · rename_i hsent
    have hok' : RamOk s.delivered { r with cloud := gAgentLoginCloud env r.cloud } :=
      hok.cloud hk fun hc => (reqDidAck_before hc).resolve_left fun h0 => hsent ⟨h0, hc⟩
    cases hrep : reciveDid env r.cloud with
    | none => exact h.keep hr hok' rfl
    | some rep =>
      simp only
      split
      · exact delivered_inv hok' reply (hok.posted (reciveDid_some hrep).2.1)
      · exact h.keep hr ⟨hok'.paired, hok'.magic, hok'.posted, hok'.known⟩ rfl

theorem taskStep_inv (h : IdInv s) (hr : s.ram = some r) (t : Task)
    (hf : ∀ buf, t = .onboarding buf → CredentialsFit buf) : IdInv (taskStep r s t) := by
  have hok := h.ram r hr
  cases t with
  | loginCloud env reply => exact loginTask_inv h hr env reply
  | hbTimer =>
    exact h.keep hr (hok.cloud hok.known.timer timer_reqDidAck) rfl
  | report =>
    refine h.keep hr (hok.cloud hok.known.report fun hc => ?_) rfl
    unfold mcuSendPublish at hc
    split at hc
    · exact hc
    · exact hc
  | elapse ticks => exact h.keep hr (hok.cloud hok.known fun hc => hc) rfl
  | onboarding buf =>
    have hs := onboardConfig_same r.cfg (hf buf rfl)
    exact h.keep hr (hok.same hs) hs.passcode
  | linkUp => exact save_inv hok
  | saveSSIDAndKey pSSID pKey => exact save_inv (hok.same (ssidAndKeyConfig_same pSSID pKey r.cfg))
  | directConfig => exact save_inv (hok.same (storeFlag_same r.cfg _))
  | readConfig =>
    have hs := configCopy_same s.flash r.cfg
    obtain ⟨hm, hp⟩ := h.saved r hr
    have hpass := hs.passcode.trans hp
    refine h.keep hr ⟨h.flash.same hs, hs.magic.trans hm, fun hc => ?_, hok.known⟩ hpass
    rw [hpass]
    exact hok.posted hc
  | resetButton => exact save_inv (hok.same (buttonConfig_same r.cfg))
  | wifiReset rnd =>
    have hm := (wifiResetConfig_magic rnd r.cfg).trans hok.magic
    have hs := configCopy_same (wifiResetConfig rnd r.cfg) s.flash
    refine idInv_off (fun hd => ?_) (.inl (hs.magic.trans hm))
    have hd' : (cloudDId (configCopy (wifiResetConfig rnd r.cfg) s.flash)).length = 22 := hd
    rw [hs.did, wifiResetConfig_cloudDId] at hd'
    cases hd'

theorem idStep_inv (h : IdInv s) (e : IdEv) (hf : ∀ buf, e = .task (.onboarding buf) → CredentialsFit buf) :
    IdInv (idStep s e) := by
  cases e with
  | boot rnd ticks => exact boot_inv rnd ticks h
  | powerOff => exact idInv_off h.flash h.magic
  | task t =>
    simp only [idStep]
    split
    · rename_i r hr
      exact taskStep_inv h hr t fun buf ht => hf buf (congrArg IdEv.task ht)
    · exact h

theorem erased_inv : IdInv erased := by
  refine idInv_off (fun h => ?_) (.inr (by decide))
  exact absurd h (by decide)

theorem IdInv.bootPaired (h : IdInv s) : BootPaired s := by
  intro rnd ticks r hr hc
  unfold boot at hr
  rcases configStatusInit_cases rnd h.magic with ⟨cfg, hi, hs, -, h22⟩ | ⟨cfg, hi, -, -⟩
  · simp only [hi] at hr
    obtain rfl := Option.some.inj hr
    show (wifipasscode cfg, cloudDId cfg) ∈ s.delivered
    rw [hs.passcode, hs.did]
    exact h.flash h22
  · simp only [hi] at hr
    obtain rfl := Option.some.inj hr
    cases hc

theorem IdInv.runningWithDid (h : IdInv s) : RunningWithDid s := by
  intro r hr hrun
  refine (h.ram r hr).known.resolve_right ?_
  rintro ⟨-, -, hst⟩
  rw [hrun] at hst
  cases hst

end

/-- **Passcode and DID stay together.** Where no onboarding datagram of the run
carries a name or a key that reaches `Cloud_DId`, a boot that finds a DID finds
the passcode it was asked for with, and the login is complete with a DID only. -/
theorem cloud_identity_paired (es : List IdEv)
    (h : ∀ buf, .task (.onboarding buf) ∈ es → CredentialsFit buf) :
    ∀ pre, pre <+: es → BootPaired (run idStep erased pre) ∧ RunningWithDid (run idStep erased pre) := by
  intro pre hp
  have hm : Meets idStep (fun _ e => ∀ buf, e = .task (.onboarding buf) → CredentialsFit buf) erased es := by
    rintro pre e hpre buf rfl
    exact h buf (hpre.subset (List.mem_append_right pre List.mem_cons_self))
  have hi := Meets.preserves erased_inv (fun s e hs hok => idStep_inv hs e hok) hm pre hp
  exact ⟨hi.bootPaired, hi.runningWithDid⟩

/-- An onboarding datagram with the name `a` and a key of `n` times `k`. -/
def onboardingDatagram (n : Nat) : Mem := fun k =>
  if k = 9 then 1 else if k = 10 then 0x61 else if k = 12 then .ofNat n
  else if 13 ≤ k ∧ k < 13 + n then 0x6b else 0

/-- A device is registered, is given an access point and loses its power. -/
def registered : List IdEv :=
  [.boot (fun i => 7 * i) 0, .task (.elapse 100), .task (.loginCloud { socket := 1 } fun _ => 0),
    .task (.loginCloud { http := .reply ⟨201, true, false⟩ } fun k => .ofNat (65 + k)),
    .task (.onboarding (onboardingDatagram 8)), .task .linkUp, .powerOff]

theorem registered_paired :
    (boot (fun _ => 0) 0 (run idStep erased registered)).ram.map (fun r => r.cloud.gConCloudStatus) =
        some .reqM2minfo ∧
      BootPaired (run idStep erased registered) ∧ RunningWithDid (run idStep erased registered) := by
  refine ⟨by decide +kernel, cloud_identity_paired registered ?_ registered (List.prefix_refl _)⟩
  intro buf hb
  obtain rfl : buf = onboardingDatagram 8 := by simpa [registered] using hb
  decide +kernel

/-- A key of 62 characters fills `Cloud_DId` with its last 22, and the reset
button saves them. -/
theorem long_key_is_a_did : ¬ ∀ es pre : List IdEv, pre <+: es →
    BootPaired (run idStep erased pre) ∧ RunningWithDid (run idStep erased pre) := by
  intro h
  obtain ⟨hp, -⟩ := h
    [.boot (fun _ => 0) 0, .task (.onboarding (onboardingDatagram 62)), .task .resetButton] _
    (List.prefix_refl _)
  generalize hs : run idStep erased
    [.boot (fun _ => 0) 0, .task (.onboarding (onboardingDatagram 62)), .task .resetButton] = s at hp
  have hd : s.delivered = [] := by rw [← hs]; rfl
  have hb : (boot (fun _ => 0) 0 s).ram.map (fun r => r.cloud.gConCloudStatus) = some .reqM2minfo := by
    rw [← hs]
    decide +kernel
  obtain ⟨r, hr, hc⟩ := Option.map_eq_some_iff.mp hb
  have hm := hp _ _ r hr hc
  rw [hd] at hm
  cases hm

end GizwitsSdk
