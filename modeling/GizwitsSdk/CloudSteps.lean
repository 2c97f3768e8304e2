import GizwitsSdk.CloudLogin

/-!
# What a step of the login machine does

The HTTP states change what belongs to HTTP, a login makes a new connection or
none, and a packet moves the handshake on, ends it or is passed over. The rules
about the machine use these cases only.
-/

namespace GizwitsSdk

/-! ## Descriptors -/

/-- The descriptors that the task holds are open, and two of them. -/
structure Sockets (s : CloudSt) : Prop where
  mqtt : s.socketid = -1 ∨ 0 ≤ s.socketid ∧ s.socketid ∈ s.openFds
  http : 0 < s.httpSocketid → s.httpSocketid ∈ s.openFds ∧ s.httpSocketid ≠ s.socketid

theorem mem_closeCloud {fd fd' : Int} {s : CloudSt} :
    fd' ∈ (closeCloud fd s).openFds ↔ fd' ∈ s.openFds ∧ fd' ≠ fd := by
  simp only [closeCloud, List.mem_filter, decide_eq_true_eq]

theorem newSocket_some {env : CloudEnv} {s : CloudSt} {fd : Int} (h : newSocket env s = some fd) :
    0 ≤ fd ∧ fd ∉ s.openFds := by
  unfold newSocket at h
  split at h
  · rename_i hc
    obtain rfl := Option.some.inj h
    exact ⟨hc.1, hc.2.1⟩
  · cases h

theorem Sockets.closeHttp {s : CloudSt} (h : Sockets s) (h0 : 0 < s.httpSocketid) {id : Int}
    (hid : id ≤ 0) : Sockets { closeCloud s.httpSocketid s with httpSocketid := id } := by
  refine ⟨?_, fun hp => absurd hp (by simpa using hid)⟩
  rcases h.mqtt with hm | ⟨hm, ho⟩
  · exact .inl hm
  · exact .inr ⟨hm, mem_closeCloud.mpr ⟨ho, Ne.symm (h.http h0).2⟩⟩

theorem Sockets.openHttp {s : CloudSt} (h : Sockets s) {fd : Int} (hf : fd ∉ s.openFds) (h0 : 0 ≤ fd) :
    Sockets { s with httpSocketid := fd, openFds := fd :: s.openFds } := by
  refine ⟨?_, fun hp => ⟨List.mem_cons_self, ?_⟩⟩
  · rcases h.mqtt with hm | ⟨hm, ho⟩
    · exact .inl hm
    · exact .inr ⟨hm, List.mem_cons_of_mem _ ho⟩
  · rintro (rfl : fd = s.socketid)
    rcases h.mqtt with hm | ⟨-, ho⟩
    · rw [hm] at h0
      exact absurd h0 (by decide)
    · exact hf ho

theorem Sockets.closeMqtt {s : CloudSt} (h : Sockets s) :
    Sockets { closeCloud s.socketid s with socketid := -1 } := by
  refine ⟨.inl rfl, fun hp => ⟨?_, ?_⟩⟩
  · exact mem_closeCloud.mpr (h.http hp)
  · show s.httpSocketid ≠ -1
    have : 0 < s.httpSocketid := hp
    omega

theorem Sockets.openMqtt {s : CloudSt} (h : Sockets s) {fd : Int} (hf : fd ∉ s.openFds) (h0 : 0 ≤ fd) :
    Sockets { s with socketid := fd, openFds := fd :: s.openFds } := by
  refine ⟨.inr ⟨h0, List.mem_cons_self⟩, fun hp => ?_⟩
  have ho := (h.http hp).1
  refine ⟨List.mem_cons_of_mem _ ho, ?_⟩
  rintro (rfl : s.httpSocketid = fd)
  exact hf ho

/-! ## The HTTP states -/

def ConCloud.isDid : ConCloud → Bool
  | .reqDid | .reqDidAck => true
  | _ => false

/-- A step that leaves the connection to the broker alone. -/
structure HttpMove (s s' : CloudSt) : Prop where
  gMQTTStatus : s'.gMQTTStatus = s.gMQTTStatus
  socketid : s'.socketid = s.socketid
  gMsgsubId : s'.gMsgsubId = s.gMsgsubId
  obs : s'.obs = s.obs
  published : s'.published = s.published
  counters : s'.pingTime = s.pingTime ∧ s'.loseTime = s.loseTime
  sockets : Sockets s → Sockets s'
  con : s.gConCloudStatus ≠ .running ∧ s'.gConCloudStatus ≠ .running ∧ s'.gConCloudStatus ≠ .invalid
  did : s'.dIdLen = 22 ∨ s'.dIdLen = s.dIdLen ∧ s'.gConCloudStatus.isDid = s.gConCloudStatus.isDid

section
variable {env : CloudEnv} {s s' : CloudSt} {r : Bool × CloudSt}

theorem oldHttp_closed (s : CloudSt) : ∃ fds i,
    (if 0 < s.httpSocketid then { closeCloud s.httpSocketid s with httpSocketid := 0 } else s) =
      { s with httpSocketid := i, openFds := fds } ∧ (∀ fd ∈ fds, fd ∈ s.openFds) ∧
      (Sockets s → Sockets { s with httpSocketid := i, openFds := fds }) := by
  by_cases h0 : 0 < s.httpSocketid
  · exact ⟨_, _, if_pos h0, fun fd hf => (mem_closeCloud.mp hf).1, fun hs => hs.closeHttp h0 (Int.le_refl 0)⟩
  · exact ⟨_, _, if_neg h0, fun _ hf => hf, id⟩

theorem httpInitSocket_frame (ok : Bool) (h : httpInitSocket env s = (ok, s')) :
    ∃ fds id, s' = { s with httpSocketid := id, openFds := fds } ∧ (Sockets s → Sockets s') := by
  unfold httpInitSocket at h
  split at h
  · obtain ⟨-, rfl⟩ := Prod.mk.inj h
    exact ⟨_, _, rfl, id⟩
  · obtain ⟨fds, i, hs₁, -, hk⟩ := oldHttp_closed s
    simp only [hs₁] at h
    split at h
    · rename_i fd hn
      obtain ⟨-, rfl⟩ := Prod.mk.inj h
      obtain ⟨h0, hf⟩ := newSocket_some hn
      exact ⟨_, _, rfl, fun hs => (hk hs).openHttp hf h0⟩
    · obtain ⟨-, rfl⟩ := Prod.mk.inj h
      exact ⟨_, _, rfl, hk⟩

theorem httpMove_mk (c : ConCloud) (d : Nat) {i : Int} {fds : List Int} (t₁ t₂ t₃ : UInt32)
    (hk : Sockets s → Sockets { s with httpSocketid := i, openFds := fds })
    (hs : s.gConCloudStatus ≠ .running) (hc : c ≠ .running ∧ c ≠ .invalid)
    (hd : d = 22 ∨ d = s.dIdLen ∧ c.isDid = s.gConCloudStatus.isDid) :
    HttpMove s
      { s with
        gConCloudStatus := c, dIdLen := d, httpSocketid := i, openFds := fds
        connect2CloudLastTime := t₁, send2HttpLastTime := t₂, ticks := t₃ } :=
  ⟨rfl, rfl, rfl, rfl, rfl, ⟨rfl, rfl⟩, fun h => ⟨(hk h).mqtt, (hk h).http⟩, ⟨hs, hc⟩, hd⟩

theorem requested_httpMove {next : ConCloud} (t : UInt32) {fds : List Int} {i : Int}
    (hr : r.2 = { s with connect2CloudLastTime := t, httpSocketid := i, openFds := fds })
    (hk : Sockets s → Sockets { s with httpSocketid := i, openFds := fds })
    (hc : s.gConCloudStatus ≠ .running ∧ s.gConCloudStatus ≠ .invalid)
    (hn : next ≠ .running ∧ next ≠ .invalid) (hd : next.isDid = s.gConCloudStatus.isDid) :
    HttpMove s (requested env next r) := by
  obtain ⟨ok, s₁⟩ := r
  obtain rfl : s₁ = _ := hr
  unfold requested
  cases ok with
  | true => exact httpMove_mk next s.dIdLen _ _ _ hk hc.1 hn (.inr ⟨rfl, hd⟩)
  | false => exact httpMove_mk s.gConCloudStatus s.dIdLen _ _ _ hk hc.1 hc (.inr ⟨rfl, rfl⟩)

theorem httpMove_con (c : ConCloud) (hs : s.gConCloudStatus ≠ .running)
    (hc : c ≠ .running ∧ c ≠ .invalid) (hd : c.isDid = s.gConCloudStatus.isDid) :
    HttpMove s { s with gConCloudStatus := c } :=
  httpMove_mk c s.dIdLen _ _ _ id hs hc (.inr ⟨rfl, hd⟩)

theorem httpReadSocket_frame (h0 : 0 < s.httpSocketid) {o : Option HttpReply}
    (h : httpReadSocket env s = (o, s')) :
    ∃ fds id, s' = { s with httpSocketid := id, openFds := fds } ∧ (Sockets s → Sockets s') := by
  unfold httpReadSocket at h
  split at h <;> obtain ⟨-, rfl⟩ := Prod.mk.inj h
  · exact ⟨_, _, rfl, id⟩
  · exact ⟨_, _, rfl, fun hs => hs.closeHttp h0 (by decide)⟩
  · exact ⟨_, _, rfl, id⟩

theorem sockets_time {t : UInt32} {fds : List Int} {i : Int}
    (hk : Sockets { s with connect2CloudLastTime := t } →
      Sockets { s with connect2CloudLastTime := t, httpSocketid := i, openFds := fds })
    (h : Sockets s) : Sockets { s with httpSocketid := i, openFds := fds } :=
  have h' := hk ⟨h.mqtt, h.http⟩
  ⟨h'.mqtt, h'.http⟩

theorem reqDidCase_move (hc : s.gConCloudStatus = .reqDid) : HttpMove s (reqDidCase env s) := by
  have hs : s.gConCloudStatus ≠ .running ∧ s.gConCloudStatus ≠ .invalid := by rw [hc]; decide
  unfold reqDidCase
  split
  · exact httpMove_con _ hs.1 hs rfl
  · generalize hi : httpInitSocket env { s with connect2CloudLastTime := nl6621GetTimeS s } = q
    obtain ⟨ok, s₁⟩ := q
    obtain ⟨fds, i, rfl, hk⟩ := httpInitSocket_frame ok hi
    refine requested_httpMove (nl6621GetTimeS s) ?_ (sockets_time hk) hs (by decide) (by rw [hc]; rfl)
    unfold mqttRegister2Server
    rw [hi]

theorem reqM2minfoCase_move (hc : s.gConCloudStatus = .reqM2minfo) :
    HttpMove s (reqM2minfoCase env s) := by
  have hs : s.gConCloudStatus ≠ .running ∧ s.gConCloudStatus ≠ .invalid := by rw [hc]; decide
  unfold reqM2minfoCase
  split
  · exact httpMove_con _ hs.1 hs rfl
  · by_cases h0 : s.dIdLen = 0
    · refine requested_httpMove (nl6621GetTimeS s) ?_ id hs (by decide) (by rw [hc]; rfl)
      unfold httpSentProvision
      rw [if_pos h0]
    · generalize hi : httpInitSocket env { s with connect2CloudLastTime := nl6621GetTimeS s } = q
      obtain ⟨ok, s₁⟩ := q
      obtain ⟨fds, i, rfl, hk⟩ := httpInitSocket_frame ok hi
      refine requested_httpMove (nl6621GetTimeS s) ?_ (sockets_time hk) hs (by decide) (by rw [hc]; rfl)
      unfold httpSentProvision
      rw [if_neg h0, hi]

theorem waitOver_pos (h : ¬ waitOver s) : 0 < s.httpSocketid := by
  unfold waitOver at h
  omega

theorem reqDidAckCase_move (hc : s.gConCloudStatus = .reqDidAck) : HttpMove s (reqDidAckCase env s) := by
  have hs : s.gConCloudStatus ≠ .running ∧ s.gConCloudStatus ≠ .invalid := by rw [hc]; decide
  unfold reqDidAckCase
  split
  · exact httpMove_con _ hs.1 (by decide) (by rw [hc])
  · rename_i hw
    generalize hr : httpReadSocket env s = q
    obtain ⟨o, s₁⟩ := q
    obtain ⟨fds, i, rfl, hk⟩ := httpReadSocket_frame (waitOver_pos hw) hr
    cases o with
    | none => exact httpMove_mk _ _ _ _ _ hk hs.1 hs (.inr ⟨rfl, rfl⟩)
    | some r =>
      simp only
      split
      · exact httpMove_mk _ _ _ _ _ hk hs.1 (by decide) (.inl rfl)
      · exact httpMove_mk _ _ _ _ _ hk hs.1 hs (.inr ⟨rfl, rfl⟩)

theorem reqM2minfoAckCase_move (hc : s.gConCloudStatus = .reqM2minfoAck) :
    HttpMove s (reqM2minfoAckCase env s) := by
  have hs : s.gConCloudStatus ≠ .running ∧ s.gConCloudStatus ≠ .invalid := by rw [hc]; decide
  unfold reqM2minfoAckCase
  split
  · exact httpMove_con _ hs.1 (by decide) (by rw [hc]; rfl)
  · rename_i hw
    generalize hr : httpReadSocket env s = q
    obtain ⟨o, s₁⟩ := q
    obtain ⟨fds, i, rfl, hk⟩ := httpReadSocket_frame (waitOver_pos hw) hr
    cases o with
    | none => exact httpMove_mk _ _ _ _ _ hk hs.1 hs (.inr ⟨rfl, rfl⟩)
    | some r =>
      simp only
      split
      · exact httpMove_mk _ _ _ _ _ hk hs.1 (by decide) (.inr ⟨rfl, by rw [hc]; rfl⟩)
      · exact httpMove_mk _ _ _ _ _ hk hs.1 hs (.inr ⟨rfl, rfl⟩)

/-! ## The states of MQTT -/

theorem packetTakenUp_none (r : SocketRead) (h : s.socketid = -1) : packetTakenUp r s = none := if_pos h

end

inductive LoginMove (s : CloudSt) : CloudSt → Prop
  /-- no connection, or one on which the `CONNECT` could not be sent -/
  | failed {s'} (con : s'.gConCloudStatus = s.gConCloudStatus)
      (status : s'.gMQTTStatus = s.gMQTTStatus) (published : s'.published = s.published)
      (did : s'.dIdLen = s.dIdLen) (counters : s'.pingTime = s.pingTime ∧ s'.loseTime = s.loseTime)
      (sockets : Sockets s → Sockets s') : LoginMove s s'
  | connected {s'} (con : s'.gConCloudStatus = .running) (status : s'.gMQTTStatus = .login)
      (obs : s'.obs = []) (published : s'.published = s.published) (did : s'.dIdLen = s.dIdLen)
      (counters : s'.pingTime = s.pingTime ∧ s'.loseTime = s.loseTime) (socketid : s'.socketid ≠ -1)
      (sockets : Sockets s → Sockets s') : LoginMove s s'

section
variable {env : CloudEnv} {s s' : CloudSt}

theorem handlePacket_none (h : s.socketid = -1) : handlePacket env s = s := by
  unfold handlePacket
  rw [packetTakenUp_none _ h]

theorem oldMqtt_closed (s : CloudSt) : ∃ fds,
    (if s.socketid ≠ -1 then { closeCloud s.socketid s with socketid := -1 } else s) =
      { s with socketid := -1, openFds := fds } ∧ (∀ fd ∈ fds, fd ∈ s.openFds) ∧
      (Sockets s → Sockets { s with socketid := -1, openFds := fds }) := by
  by_cases h0 : s.socketid = -1
  · refine ⟨s.openFds, ?_, fun _ hf => hf, ?_⟩
    · rw [if_neg (not_not.mpr h0), ← h0]
    · rw [← h0]; exact id
  · exact ⟨_, if_pos h0, fun fd hf => (mem_closeCloud.mp hf).1, fun hs => hs.closeMqtt⟩

theorem cloudMQTTInitSocket_frame {ok : Bool} (h : cloudMQTTInitSocket env s = (ok, s')) :
    ∃ i fds o, s' = { s with socketid := i, openFds := fds, obs := o } ∧ (Sockets s → Sockets s') ∧
      (ok = true → i ≠ -1 ∧ o = []) := by
  unfold cloudMQTTInitSocket at h
  split at h
  · obtain ⟨rfl, rfl⟩ := Prod.mk.inj h
    exact ⟨_, _, _, rfl, id, fun h => absurd h (by decide)⟩
  · obtain ⟨fds, hs₁, -, hk⟩ := oldMqtt_closed s
    simp only [hs₁] at h
    rw [handlePacket_none rfl] at h
    split at h
    · rename_i fd hn
      obtain ⟨rfl, rfl⟩ := Prod.mk.inj h
      obtain ⟨h0, hf⟩ := newSocket_some hn
      have hso (hs : Sockets s) := (hk hs).openMqtt hf h0
      refine ⟨_, _, _, rfl, fun hs => ⟨(hso hs).mqtt, (hso hs).http⟩, fun _ => ⟨?_, rfl⟩⟩
      omega
    · obtain ⟨rfl, rfl⟩ := Prod.mk.inj h
      exact ⟨_, _, _, rfl, hk, fun h => absurd h (by decide)⟩

end

theorem reqLoginCase_move (env : CloudEnv) (s : CloudSt) : LoginMove s (reqLoginCase env s) := by
  unfold reqLoginCase
  split
  · exact .failed rfl rfl rfl rfl ⟨rfl, rfl⟩ id
  · unfold mqttLogin2Server
    generalize hi : cloudMQTTInitSocket env
      { s with connect2CloudLastTime := nl6621GetTimeS s, seq := 1 } = q
    obtain ⟨ok, s₁⟩ := q
    obtain ⟨i, fds, o, rfl, hk, hok⟩ := cloudMQTTInitSocket_frame hi
    have hso (hs : Sockets s) := hk ⟨hs.mqtt, hs.http⟩
    simp only
    cases hb : ok && env.send with
    | true =>
      obtain ⟨hne, ho⟩ := hok (Bool.and_eq_true_iff.mp hb).1
      exact .connected rfl rfl ho rfl rfl ⟨rfl, rfl⟩ hne fun hs => ⟨(hso hs).mqtt, (hso hs).http⟩
    | false => exact .failed rfl rfl rfl rfl ⟨rfl, rfl⟩ fun hs => ⟨(hso hs).mqtt, (hso hs).http⟩

inductive Handled (env : CloudEnv) (s : CloudSt) : CloudSt → Prop
  | nothing : Handled env s s
  | quiet : Handled env s (cloudHBStatusInit s)
  | passedOver (o : MqttObs) (ho : o ≠ .intoRunning ∧ ∀ id, o ≠ .subscribe id) :
      Handled env s { cloudHBStatusInit s with obs := s.obs ++ [o] }
  | refused (code : UInt8) (hs : s.gMQTTStatus = .login) :
      Handled env s
        { cloudHBStatusInit s with obs := s.obs ++ [.connack code], gConCloudStatus := .reqDid }
  | accepted (hs : s.gMQTTStatus = .login) :
      Handled env s
        (mqttSubLoginTopic env.send { cloudHBStatusInit s with obs := s.obs ++ [.connack 0] })
  | acked (buf : List UInt8) (hb : packetTakenUp env.mqtt s = some buf)
      (ht : mqttParseMessageType buf = 0x90) (hm : s.gMsgsubId = (mqttParseMsgId buf).toUInt16) :
      Handled env s
        (mqttSubLoginTopic env.send
          { cloudHBStatusInit s with obs := s.obs ++ [.suback (subackId buf)] })
  | publication (buf : List UInt8) (hs : s.gMQTTStatus = .running) :
      Handled env s (mqttDispatchPublishPacket buf (cloudHBStatusInit s))

theorem cloudHBStatusInit_subLoginTopic (s : CloudSt) (send : Bool) (o : List MqttObs) :
    cloudHBStatusInit (mqttSubLoginTopic send { cloudHBStatusInit s with obs := o }) =
      mqttSubLoginTopic send { cloudHBStatusInit s with obs := o } := by
  unfold mqttSubLoginTopic
  split <;> first
    | rfl
    | (unfold subscribeTopic; cases send <;> rfl)

theorem handlePacket_handled (env : CloudEnv) (s : CloudSt) : Handled env s (handlePacket env s) := by
  unfold handlePacket
  cases hb : packetTakenUp env.mqtt s with
  | none => exact .nothing
  | some buf =>
    simp only
    unfold dispatchPacket
    simp only
    split
    · split
      · rename_i hs
        unfold mqttDoLogin
        split
        · exact .refused _ hs
        · rename_i h0
          rw [not_not.mp h0, cloudHBStatusInit_subLoginTopic]
          exact .accepted hs
      · exact .passedOver _ (by simp)
    · split
      · split
        · rename_i ht hm
          exact .acked buf hb ht hm
        · exact .passedOver _ (by simp)
      · split
        · split
          · rename_i hs
            exact .publication buf hs
          · exact .quiet
        · exact .quiet

structure PacketFrame (s s' : CloudSt) : Prop where
  socketid : s'.socketid = s.socketid
  httpSocketid : s'.httpSocketid = s.httpSocketid
  openFds : s'.openFds = s.openFds
  did : s'.dIdLen = s.dIdLen ∨ s.dIdLen = 0
  counters : s'.pingTime = s.pingTime ∧ s'.loseTime = s.loseTime ∨ s'.pingTime = 0 ∧ s'.loseTime = 0
  con : s'.gConCloudStatus = s.gConCloudStatus ∨ s'.gConCloudStatus = .reqDid

theorem PacketFrame.of_hbInit {s s' : CloudSt} {o : List MqttObs}
    (h : PacketFrame { cloudHBStatusInit s with obs := o } s') : PacketFrame s s' :=
  ⟨h.socketid, h.httpSocketid, h.openFds, h.did, .inr (h.counters.elim id id), h.con⟩

theorem subLoginTopic_frame (send : Bool) (s : CloudSt) : PacketFrame s (mqttSubLoginTopic send s) := by
  have hsub (next : MqttStatus) : PacketFrame s (subscribeTopic send next s) := by
    unfold subscribeTopic
    cases send <;> exact ⟨rfl, rfl, rfl, .inl rfl, .inl ⟨rfl, rfl⟩, .inl rfl⟩
  unfold mqttSubLoginTopic
  split
  · exact hsub _
  · exact hsub _
  · exact hsub _
  · exact ⟨rfl, rfl, rfl, .inl rfl, .inl ⟨rfl, rfl⟩, .inl rfl⟩
  · exact ⟨rfl, rfl, rfl, .inl rfl, .inl ⟨rfl, rfl⟩, .inl rfl⟩

theorem dispatchPublish_frame (buf : List UInt8) (s : CloudSt) :
    PacketFrame s (mqttDispatchPublishPacket buf s) := by
  have hd (n : Nat) : PacketFrame s (if s.dIdLen = 0 then { s with dIdLen := n } else s) := by
    split
    · rename_i h0
      exact ⟨rfl, rfl, rfl, .inr h0, .inl ⟨rfl, rfl⟩, .inl rfl⟩
    · exact ⟨rfl, rfl, rfl, .inl rfl, .inl ⟨rfl, rfl⟩, .inl rfl⟩
  have hp (s' : CloudSt) (h : PacketFrame s s') : PacketFrame s (mcuSendPublish s') := by
    unfold mcuSendPublish
    split <;> exact ⟨h.socketid, h.httpSocketid, h.openFds, h.did, h.counters, h.con⟩
  unfold mqttDispatchPublishPacket
  simp only
  split
  · split
    · split
      · exact hp _ (hd _)
      · exact hd _
    · exact hd _
  · exact ⟨rfl, rfl, rfl, .inl rfl, .inl ⟨rfl, rfl⟩, .inl rfl⟩

theorem Handled.frame {env : CloudEnv} {s s' : CloudSt} (h : Handled env s s') : PacketFrame s s' := by
  cases h with
  | nothing => exact ⟨rfl, rfl, rfl, .inl rfl, .inl ⟨rfl, rfl⟩, .inl rfl⟩
  | quiet => exact ⟨rfl, rfl, rfl, .inl rfl, .inr ⟨rfl, rfl⟩, .inl rfl⟩
  | passedOver o ho => exact ⟨rfl, rfl, rfl, .inl rfl, .inr ⟨rfl, rfl⟩, .inl rfl⟩
  | refused code hs => exact ⟨rfl, rfl, rfl, .inl rfl, .inr ⟨rfl, rfl⟩, .inr rfl⟩
  | accepted hs => exact .of_hbInit (subLoginTopic_frame _ _)
  | acked buf hb ht hm => exact .of_hbInit (subLoginTopic_frame _ _)
  | publication buf hs => exact .of_hbInit (o := s.obs) (dispatchPublish_frame buf _)

inductive LoginCloud (env : CloudEnv) (s : CloudSt) : CloudSt → Prop
  | stay : LoginCloud env s s
  | http {s'} (h : HttpMove s s') : LoginCloud env s s'
  | login {s'} (hc : s.gConCloudStatus = .reqLogin) (h : LoginMove s s') : LoginCloud env s s'
  | timeout (hc : s.gConCloudStatus = .running) (hs : s.gMQTTStatus = .login) :
      LoginCloud env s { s with gConCloudStatus := .reqLogin }
  | packet {s'} (hc : s.gConCloudStatus = .running) (hst : env.station = true)
      (ht : ¬ connectTimeout s) (h : Handled env s s') : LoginCloud env s s'

theorem gAgentLoginCloud_cases (env : CloudEnv) (s : CloudSt) :
    LoginCloud env s (gAgentLoginCloud env s) := by
  unfold gAgentLoginCloud
  cases hst : env.station with
  | false => exact .stay
  | true =>
    rw [if_neg (by decide)]
    cases hc : s.gConCloudStatus with
    | invalid => exact .stay
    | reqDid => exact .http (reqDidCase_move hc)
    | reqDidAck => exact .http (reqDidAckCase_move hc)
    | reqM2minfo => exact .http (reqM2minfoCase_move hc)
    | reqM2minfoAck => exact .http (reqM2minfoAckCase_move hc)
    | reqLogin => exact .login hc (reqLoginCase_move env s)
    | running =>
      show LoginCloud env s (runningCase env s)
      unfold runningCase
      split
      · rename_i ht
        exact .timeout hc ht.1
      · rename_i ht
        exact .packet hc hst ht (handlePacket_handled env s)

/-! ## The timer -/

inductive Ticked (s : CloudSt) : CloudSt → Prop
  | noSocket (h : s.socketid < 0) : Ticked s s
  | counted (p l : Nat) (hid : 0 ≤ s.socketid) (hx : ¬ hbExpired s)
      (hc : s.pingTime < 50 → p < 50 ∧ 50 * l + p = 50 * s.loseTime + s.pingTime + 1)
      (hlt : ¬ (2 ≤ l ∧ 20 ≤ p)) : Ticked s { s with pingTime := p, loseTime := l }
  | tornDown (hid : 0 ≤ s.socketid) (hx : hbExpired s) :
      Ticked s
        { closeCloud s.socketid s with
          gConCloudStatus := .reqLogin, socketid := -1, pingTime := 0, loseTime := 0 }

theorem hbCount_eq (s : CloudSt) : ∃ p l, hbCount s = { s with pingTime := p, loseTime := l } ∧
    (s.pingTime < 50 → p < 50 ∧ 50 * l + p = 50 * s.loseTime + s.pingTime + 1) := by
  unfold hbCount
  split
  · exact ⟨_, _, rfl, fun h => ⟨by decide, by omega⟩⟩
  · exact ⟨_, _, rfl, fun h => ⟨by omega, by omega⟩⟩

theorem cloudMqttHBTimer_cases (s : CloudSt) : Ticked s (cloudMqttHBTimer s) := by
  unfold cloudMqttHBTimer
  obtain ⟨p, l, he, hc⟩ := hbCount_eq s
  split
  · rename_i h
    exact .noSocket h
  · rename_i h
    split
    · rename_i hx
      rw [he]
      exact .tornDown (by omega) hx
    · rename_i hx
      rw [he]
      refine .counted p l (by omega) hx hc ?_
      unfold hbExpired at hx
      rw [he] at hx
      exact hx

end GizwitsSdk
