import GizwitsSdk.CloudReach

/-!
# The heartbeat of a connection

`Cloud_Mqtt_HB_Timer` counts the silent seconds of a connection in two counters.
Beside the machine stands the number that they are to count: the ticks on the
present connection since it was opened or since its last packet. Every packet
and every end of a connection by the timer puts the counters back, the opening
of a connection does not.
-/

namespace GizwitsSdk

open Lib

/-- The machine, and the ticks on the present connection without a packet. -/
structure SilentSt where
  cloud : CloudSt
  silent : Nat

section
variable (env : CloudEnv) (s : CloudSt)

def opensConnection : Prop :=
  env.station = true ∧ s.gConCloudStatus = .reqLogin ∧ ¬ tooSoon s ∧
    (cloudMQTTInitSocket env
      { s with connect2CloudLastTime := nl6621GetTimeS s, seq := 1 }).1 = true

def packetReceived : Prop :=
  env.station = true ∧ s.gConCloudStatus = .running ∧ ¬ connectTimeout s ∧
    (packetTakenUp env.mqtt s).isSome = true

instance : Decidable (opensConnection env s) := inferInstanceAs (Decidable (_ ∧ _ ∧ _ ∧ _))

instance : Decidable (packetReceived env s) := inferInstanceAs (Decidable (_ ∧ _ ∧ _ ∧ _))

/-- `Cloud_Mqtt_HB_Timer` with the call of `mqtt_ping`. -/
def hbTimerPing : Bool × CloudSt :=
  if s.socketid < 0 then (false, s)
  else
    let (ping, s) :=
      if 50 ≤ s.pingTime + 1 then (true, { s with pingTime := 0, loseTime := s.loseTime + 1 })
      else (false, { s with pingTime := s.pingTime + 1 })
    if 2 ≤ s.loseTime ∧ 20 ≤ s.pingTime then
      (ping, cloudHBStatusInit { closeCloud s.socketid s with gConCloudStatus := .reqLogin, socketid := -1 })
    else (ping, s)

end

def silentStep (s : SilentSt) (e : CloudEv) : SilentSt :=
  { cloud := cloudStep s.cloud e
    silent :=
      match e with
      | .loginCloud env =>
        if opensConnection env s.cloud ∨ packetReceived env s.cloud then 0 else s.silent
      | .hbTimer => if s.cloud.socketid < 0 then s.silent else s.silent + 1
      | .report => s.silent
      | .elapse _ => s.silent }

def silentBoot (ticks : UInt32) (stored : Bool) : SilentSt :=
  { cloud := cloudBoot ticks stored, silent := 0 }

/-- What the timer does next on a connection is due to its silence, and it does
nothing without one. -/
structure HeartbeatTrue (s : SilentSt) : Prop where
  counters : s.cloud.socketid ≠ -1 → s.cloud.pingTime + 50 * s.cloud.loseTime = s.silent
  closes : s.cloud.socketid ≠ -1 →
    (((hbTimerPing s.cloud).2.socketid = -1 ∧ (hbTimerPing s.cloud).2.gConCloudStatus = .reqLogin ∧
      s.cloud.socketid ∉ (hbTimerPing s.cloud).2.openFds) ↔ s.silent + 1 = 120)
  stays : s.cloud.socketid ≠ -1 → s.silent + 1 ≠ 120 →
    (hbTimerPing s.cloud).2.socketid = s.cloud.socketid ∧
      (hbTimerPing s.cloud).2.gConCloudStatus = s.cloud.gConCloudStatus
  pings : s.cloud.socketid ≠ -1 → ((hbTimerPing s.cloud).1 = true ↔ (s.silent + 1) % 50 = 0)
  idle : s.cloud.socketid = -1 → hbTimerPing s.cloud = (false, s.cloud)

def opensAtZero (s : SilentSt) : CloudEv → Prop
  | .loginCloud env => opensConnection env s.cloud → s.cloud.pingTime = 0 ∧ s.cloud.loseTime = 0
  | _ => True

structure SilentInv (s : SilentSt) : Prop where
  cloud : CloudInv s.cloud
  counters : s.cloud.socketid ≠ -1 → s.cloud.pingTime + 50 * s.cloud.loseTime = s.silent

/-! ## The timer -/

section
variable {s : CloudSt}

theorem hbTimerPing_snd (s : CloudSt) : (hbTimerPing s).2 = cloudMqttHBTimer s := by
  unfold hbTimerPing cloudMqttHBTimer hbExpired hbCount
  by_cases h50 : 50 ≤ s.pingTime + 1
  · simp only [if_pos h50]
    split
    · rfl
    · split <;> rfl
  · simp only [if_neg h50]
    split
    · rfl
    · split <;> rfl

theorem hbTimerPing_fst (h : 0 ≤ s.socketid) : (hbTimerPing s).1 = true ↔ 50 ≤ s.pingTime + 1 := by
  unfold hbTimerPing
  rw [if_neg (Int.not_lt.mpr h)]
  by_cases h50 : 50 ≤ s.pingTime + 1
  · simp only [if_pos h50]
    split <;> simp [h50]
  · simp only [if_neg h50]
    split <;> simp [h50]

theorem CloudInv.socketid_nonneg (h : CloudInv s) (hid : s.socketid ≠ -1) : 0 ≤ s.socketid :=
  (h.sockets.mqtt.resolve_left hid).1

theorem hbExpired_iff (hp : s.pingTime < 50) (hs : 50 * s.loseTime + s.pingTime < 120) :
    hbExpired s ↔ s.pingTime + 50 * s.loseTime + 1 = 120 := by
  unfold hbExpired hbCount
  split <;> dsimp only <;> omega

end

theorem SilentInv.heartbeatTrue {s : SilentSt} (h : SilentInv s) : HeartbeatTrue s := by
  have hping := h.cloud.ping
  have hsil := h.cloud.silent
  refine ⟨h.counters, fun hid => ?_, fun hid hs => ?_, fun hid => ?_, fun hid => ?_⟩
  · have h0 := h.cloud.socketid_nonneg hid
    rw [hbTimerPing_snd, ← h.counters hid, ← hbExpired_iff hping hsil]
    have ht := cloudMqttHBTimer_cases s.cloud
    generalize cloudMqttHBTimer s.cloud = t at ht ⊢
    cases ht with
    | noSocket hn => exact absurd hn (Int.not_lt.mpr h0)
    | counted p l _ hx hc hlt => exact iff_of_false (fun hc => hid hc.1) hx
    | tornDown _ hx => exact iff_of_true ⟨rfl, rfl, fun hm => (mem_closeCloud.mp hm).2 rfl⟩ hx
  · rw [← h.counters hid] at hs
    rw [hbTimerPing_snd]
    have ht := cloudMqttHBTimer_cases s.cloud
    generalize cloudMqttHBTimer s.cloud = t at ht ⊢
    cases ht with
    | noSocket hn => exact ⟨rfl, rfl⟩
    | counted p l _ hx hc hlt => exact ⟨rfl, rfl⟩
    | tornDown _ hx => exact absurd ((hbExpired_iff hping hsil).mp hx) hs
  · rw [hbTimerPing_fst (h.cloud.socketid_nonneg hid), ← h.counters hid]
    omega
  · unfold hbTimerPing
    rw [if_pos (by omega)]

/-! ## What a login does to the counters -/

/-- A login opens a connection, takes a packet up, or leaves the counters alone. -/
inductive HbLogin (env : CloudEnv) (s : CloudSt) : CloudSt → Prop
  | opened {s'} (ho : opensConnection env s) (counters : s'.pingTime = s.pingTime ∧ s'.loseTime = s.loseTime)
      (hid : s'.socketid ≠ -1) : HbLogin env s s'
  | received {s'} (hr : packetReceived env s) (counters : s'.pingTime = 0 ∧ s'.loseTime = 0) :
      HbLogin env s s'
  | passed {s'} (ho : ¬ opensConnection env s) (hr : ¬ packetReceived env s)
      (counters : s'.pingTime = s.pingTime ∧ s'.loseTime = s.loseTime)
      (hid : s'.socketid = s.socketid ∨ s'.socketid = -1) : HbLogin env s s'

section
variable {env : CloudEnv} {s s' : CloudSt}

theorem dispatchPacket_zero (send : Bool) (buf : List UInt8) (hz : s.pingTime = 0 ∧ s.loseTime = 0) :
    (dispatchPacket send buf s).pingTime = 0 ∧ (dispatchPacket send buf s).loseTime = 0 := by
  have hf {t t' : CloudSt} (h : PacketFrame t t') (ht : t.pingTime = 0 ∧ t.loseTime = 0) :
      t'.pingTime = 0 ∧ t'.loseTime = 0 := by
    rcases h.counters with ⟨hp, hl⟩ | hc
    · exact ⟨hp.trans ht.1, hl.trans ht.2⟩
    · exact hc
  unfold dispatchPacket
  dsimp only
  split
  · split
    · unfold mqttDoLogin
      split
      · exact hz
      · exact ⟨rfl, rfl⟩
    · exact hz
  · split
    · split
      · exact hf (subLoginTopic_frame send _) hz
      · exact hz
    · split
      · split
        · exact hf (dispatchPublish_frame buf s) hz
        · exact hz
      · exact hz

theorem initSocket_socketid (h : cloudMQTTInitSocket env s = (false, s')) :
    s'.socketid = s.socketid ∨ s'.socketid = -1 := by
  unfold cloudMQTTInitSocket at h
  split at h
  · obtain ⟨-, rfl⟩ := Prod.mk.inj h
    exact .inl rfl
  · obtain ⟨fds, hs₁, -, -⟩ := oldMqtt_closed s
    simp only [hs₁] at h
    split at h
    · obtain ⟨ht, -⟩ := Prod.mk.inj h
      cases ht
    · obtain ⟨-, rfl⟩ := Prod.mk.inj h
      exact .inr rfl

theorem reqLoginCase_hb (hst : env.station = true) (hc : s.gConCloudStatus = .reqLogin) :
    HbLogin env s (reqLoginCase env s) := by
  have hr : ¬ packetReceived env s := by
    rintro ⟨-, hr, -⟩
    rw [hc] at hr
    cases hr
  unfold reqLoginCase
  split
  · rename_i ht
    exact .passed (fun ho => ho.2.2.1 ht) hr ⟨rfl, rfl⟩ (.inl rfl)
  · rename_i ht
    unfold mqttLogin2Server
    generalize hi : cloudMQTTInitSocket env
      { s with connect2CloudLastTime := nl6621GetTimeS s, seq := 1 } = q
    obtain ⟨ok, s₁⟩ := q
    obtain ⟨i, fds, o, rfl, -, hok⟩ := cloudMQTTInitSocket_frame hi
    cases ok with
    | false =>
      have hid := initSocket_socketid hi
      refine .passed (fun ho => ?_) hr ⟨rfl, rfl⟩ hid
      have h := ho.2.2.2
      rw [hi] at h
      cases h
    | true =>
      have ho : opensConnection env s := ⟨hst, hc, ht, by rw [hi]⟩
      simp only [Bool.true_and]
      cases env.send with
      | true => exact .opened ho ⟨rfl, rfl⟩ (hok rfl).1
      | false => exact .opened ho ⟨rfl, rfl⟩ (hok rfl).1

theorem runningCase_hb (hst : env.station = true) (hc : s.gConCloudStatus = .running) :
    HbLogin env s (runningCase env s) := by
  have ho : ¬ opensConnection env s := by
    rintro ⟨-, ho, -⟩
    rw [hc] at ho
    cases ho
  unfold runningCase
  split
  · rename_i ht
    exact .passed ho (fun hr => hr.2.2.1 ht) ⟨rfl, rfl⟩ (.inl rfl)
  · rename_i ht
    unfold handlePacket
    cases hb : packetTakenUp env.mqtt s with
    | none =>
      refine .passed ho (fun hr => ?_) ⟨rfl, rfl⟩ (.inl rfl)
      have h := hr.2.2.2
      rw [hb] at h
      cases h
    | some buf =>
      have hr : packetReceived env s := ⟨hst, hc, ht, by rw [hb]; rfl⟩
      exact .received hr (dispatchPacket_zero env.send buf ⟨rfl, rfl⟩)

theorem gAgentLoginCloud_hb (env : CloudEnv) (s : CloudSt) : HbLogin env s (gAgentLoginCloud env s) := by
  have hstay (hn : env.station = true → s.gConCloudStatus ≠ .reqLogin ∧ s.gConCloudStatus ≠ .running)
      {s'} (hco : s'.pingTime = s.pingTime ∧ s'.loseTime = s.loseTime) (hid : s'.socketid = s.socketid) :
      HbLogin env s s' :=
    .passed (fun ho => (hn ho.1).1 ho.2.1) (fun hr => (hn hr.1).2 hr.2.1) hco (.inl hid)
  have hhttp (hn : s.gConCloudStatus ≠ .reqLogin) {s'} (hm : HttpMove s s') : HbLogin env s s' :=
    hstay (fun _ => ⟨hn, hm.con.1⟩) hm.counters hm.socketid
  cases hst : env.station with
  | false =>
    unfold gAgentLoginCloud
    rw [hst]
    exact hstay (fun h => absurd (hst.symm.trans h) (by decide)) ⟨rfl, rfl⟩ rfl
  | true =>
    cases hc : s.gConCloudStatus with
    | invalid =>
      unfold gAgentLoginCloud
      rw [hst, hc]
      exact hstay (fun _ => by rw [hc]; decide) ⟨rfl, rfl⟩ rfl
    | reqDid =>
      rw [login_reqDid hst hc]
      exact hhttp (by rw [hc]; decide) (reqDidCase_move hc)
    | reqDidAck =>
      rw [login_reqDidAck hst hc]
      exact hhttp (by rw [hc]; decide) (reqDidAckCase_move hc)
    | reqM2minfo =>
      rw [login_reqM2minfo hst hc]
      exact hhttp (by rw [hc]; decide) (reqM2minfoCase_move hc)
    | reqM2minfoAck =>
      rw [login_reqM2minfoAck hst hc]
      exact hhttp (by rw [hc]; decide) (reqM2minfoAckCase_move hc)
    | reqLogin =>
      rw [login_reqLogin hst hc]
      exact reqLoginCase_hb hst hc
    | running =>
      rw [login_running hst hc]
      exact runningCase_hb hst hc

end

/-! ## Runs -/

section
variable {s : SilentSt}

theorem SilentInv.loginCloud (h : SilentInv s) (env : CloudEnv)
    (hz : opensConnection env s.cloud → s.cloud.pingTime = 0 ∧ s.cloud.loseTime = 0) :
    SilentInv (silentStep s (.loginCloud env)) := by
  refine ⟨h.cloud.loginCloud env, ?_⟩
  show (gAgentLoginCloud env s.cloud).socketid ≠ -1 →
    (gAgentLoginCloud env s.cloud).pingTime + 50 * (gAgentLoginCloud env s.cloud).loseTime =
      if opensConnection env s.cloud ∨ packetReceived env s.cloud then 0 else s.silent
  cases gAgentLoginCloud_hb env s.cloud with
  | opened ho hc hid =>
    obtain ⟨hp, hl⟩ := hz ho
    intro _
    rw [if_pos (.inl ho), hc.1, hc.2, hp, hl]
  | received hr hc =>
    intro _
    rw [if_pos (.inr hr), hc.1, hc.2]
  | passed ho hr hc hid =>
    intro hne
    rw [if_neg (not_or.mpr ⟨ho, hr⟩), hc.1, hc.2]
    apply h.counters
    rcases hid with hid | hid
    · rwa [hid] at hne
    · exact absurd hid hne

theorem SilentInv.hbTimer (h : SilentInv s) : SilentInv (silentStep s .hbTimer) := by
  refine ⟨h.cloud.timer, ?_⟩
  show (cloudMqttHBTimer s.cloud).socketid ≠ -1 →
    (cloudMqttHBTimer s.cloud).pingTime + 50 * (cloudMqttHBTimer s.cloud).loseTime =
      if s.cloud.socketid < 0 then s.silent else s.silent + 1
  have ht := cloudMqttHBTimer_cases s.cloud
  generalize cloudMqttHBTimer s.cloud = t at ht ⊢
  cases ht with
  | noSocket hn =>
    rw [if_pos hn]
    exact h.counters
  | counted p l h0 hx hc hlt =>
    intro hid
    have hcount := h.counters hid
    have hpl := (hc h.cloud.ping).2
    rw [if_neg (Int.not_lt.mpr h0)]
    dsimp only
    omega
  | tornDown h0 hx => exact fun hid => absurd rfl hid

theorem SilentInv.step (h : SilentInv s) (e : CloudEv) (hok : opensAtZero s e) :
    SilentInv (silentStep s e) := by
  cases e with
  | loginCloud env => exact h.loginCloud env hok
  | hbTimer => exact h.hbTimer
  | report =>
    refine ⟨h.cloud.step .report, ?_⟩
    show (mcuSendPublish s.cloud).socketid ≠ -1 →
      (mcuSendPublish s.cloud).pingTime + 50 * (mcuSendPublish s.cloud).loseTime = s.silent
    unfold mcuSendPublish
    split <;> exact h.counters
  | elapse ticks => exact ⟨h.cloud.step (.elapse ticks), h.counters⟩

theorem opensAtZero_of_true (e : CloudEv) (h : HeartbeatTrue (silentStep s e)) : opensAtZero s e := by
  cases e with
  | loginCloud env =>
    intro ho
    have hc : (gAgentLoginCloud env s.cloud).socketid ≠ -1 →
        (gAgentLoginCloud env s.cloud).pingTime + 50 * (gAgentLoginCloud env s.cloud).loseTime =
          if opensConnection env s.cloud ∨ packetReceived env s.cloud then 0 else s.silent := h.counters
    rw [if_pos (.inl ho)] at hc
    cases gAgentLoginCloud_hb env s.cloud with
    | opened _ hco hid =>
      have h0 := hc hid
      rw [hco.1, hco.2] at h0
      omega
    | received hr _ => exact absurd (ho.2.1.symm.trans hr.2.1) (by decide)
    | passed hn _ _ _ => exact absurd ho hn
  | hbTimer => exact trivial
  | report => exact trivial
  | elapse ticks => exact trivial

end

/-- **Heartbeat**: in every state of a run the counters hold the silence of the
present connection, and the timer pings and hangs up by it, exactly when every
connection of the run is opened with the counters at zero. -/
theorem heartbeat_true_iff (ticks : UInt32) (stored : Bool) (es : List CloudEv) :
    (∀ pre, pre <+: es → HeartbeatTrue (run silentStep (silentBoot ticks stored) pre)) ↔
      Meets silentStep opensAtZero (silentBoot ticks stored) es := by
  have h0 : SilentInv (silentBoot ticks stored) := ⟨cloudBoot_inv ticks stored, fun h => absurd rfl h⟩
  exact meets_iff h0 (fun _ h => h.heartbeatTrue) (fun _ e h hok => h.step e hok)
    fun _ e _ hg => opensAtZero_of_true e hg

/-- A connection on which the `CONNECT` could not be sent is silent for ten
seconds. The next one starts with its counters. -/
theorem counters_of_old_connection :
    ¬ ∀ (ticks : UInt32) (stored : Bool) (es : List CloudEv) pre, pre <+: es →
      HeartbeatTrue (run silentStep (silentBoot ticks stored) pre) := by
  intro h
  have hm := (h 0 true
    ([.elapse 100, .loginCloud { socket := 1 },
      .loginCloud { http := .reply { code := 200, did := false, domainPort := true } },
      .elapse 100, .loginCloud { socket := 2, send := false }] ++ List.replicate 10 .hbTimer ++
      [.elapse 100, .loginCloud { socket := 3 }]) _ (List.prefix_refl _)).counters
  revert hm
  decide +kernel

end GizwitsSdk
