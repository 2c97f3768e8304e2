import GizwitsSdk.CloudHandshake
import GizwitsSdk.CloudRunning

/-!
# Getting online from any state

From nearly every state that the machine can get into, a network that works
brings it online. A silent connection is taken down by the timer, whatever state
the handshake is in; every other failure leads back to a request. The one that
does not is the wait for a DID: when it is over, the machine waits on.
-/

namespace GizwitsSdk

open Lib

def CloudOnline (s : CloudSt) : Prop := s.gConCloudStatus = .running ∧ s.gMQTTStatus = .running

def ConCloud.request : ConCloud → Option ConCloud
  | .reqDidAck => some .reqDid
  | .reqM2minfoAck => some .reqM2minfo
  | _ => none

def ConCloud.accepts (r : HttpReply) : ConCloud → Prop
  | .reqDidAck => r.code = 201 ∧ r.did = true
  | .reqM2minfoAck => r.code = 200 ∧ r.domainPort = true
  | _ => False

/-- What has failed is asked for again, whatever the network does. -/
structure Resends (s : CloudSt) : Prop where
  ended : ∀ env req, env.station = true → s.gConCloudStatus.request = some req → waitOver s →
    (gAgentLoginCloud env s).gConCloudStatus = req
  closed : ∀ env env' req, env.station = true → env'.station = true →
    s.gConCloudStatus.request = some req → ¬ waitOver s → env.http = .closed →
      (gAgentLoginCloud env' (gAgentLoginCloud env s)).gConCloudStatus = req
  /-- once the wait is over after the reply -/
  refused : ∀ env env' req r ticks, env.station = true → env'.station = true →
    s.gConCloudStatus.request = some req → ¬ waitOver s → env.http = .reply r →
      ¬ s.gConCloudStatus.accepts r → waitOver (cloudStep (gAgentLoginCloud env s) (.elapse ticks)) →
        (gAgentLoginCloud env' (cloudStep (gAgentLoginCloud env s) (.elapse ticks))).gConCloudStatus = req
  connack : ∀ env buf, env.station = true → s.gConCloudStatus = .running → s.gMQTTStatus = .login →
    ¬ connectTimeout s → packetTakenUp env.mqtt s = some buf → mqttParseMessageType buf = 0x20 →
      buf.getD 3 0 ≠ 0 → (gAgentLoginCloud env s).gConCloudStatus = .reqDid

structure CloudInv (s : CloudSt) : Prop where
  sockets : Sockets s
  valid : s.gConCloudStatus ≠ .invalid
  connected : s.gConCloudStatus = .running → s.socketid ≠ -1
  did : s.gConCloudStatus.isDid = false ∨ s.socketid ≠ -1 → 0 < s.dIdLen
  ping : s.pingTime < 50
  silent : 50 * s.loseTime + s.pingTime < 120

/-! ## The network works -/

section
variable {s : CloudSt}

theorem exists_above (l : List Int) : ∃ fd, 0 < fd ∧ ∀ x ∈ l, x < fd := by
  induction l with
  | nil => exact ⟨1, by decide, fun x hx => by cases hx⟩
  | cons a l ih =>
    obtain ⟨fd, h0, h⟩ := ih
    refine ⟨max (a + 1) fd, lt_of_lt_of_le h0 (Int.le_max_right _ _), fun x hx => ?_⟩
    rcases List.mem_cons.mp hx with rfl | hx
    · omega
    · exact lt_of_lt_of_le (h x hx) (Int.le_max_right _ _)

theorem exists_newSocket (s : CloudSt) : ∃ fd : Int, 0 < fd ∧ fd ∉ s.openFds := by
  obtain ⟨fd, h0, h⟩ := exists_above s.openFds
  exact ⟨fd, h0, fun hm => absurd (h fd hm) (Int.lt_irrefl fd)⟩

theorem newSocket_fresh {fd : Int} (h0 : 0 < fd) (hf : fd ∉ s.openFds) :
    newSocket { socket := fd } s = some fd := if_pos ⟨Int.le_of_lt h0, hf, rfl⟩

theorem tooSoon_iff (s : CloudSt) : tooSoon s ↔ nl6621GetTimeS s = s.connect2CloudLastTime := by
  unfold tooSoon
  rw [UInt32.lt_one_iff]
  constructor
  · intro h
    rw [← UInt32.sub_add_cancel (nl6621GetTimeS s) s.connect2CloudLastTime, h, UInt32.zero_add]
  · intro h
    rw [h, UInt32.sub_self]

theorem ticks_next (t : UInt32) : (t + 100) / 100 ≠ t / 100 := by
  intro h
  have ht := t.toNat_lt
  have h1 := congrArg UInt32.toNat h
  rw [UInt32.toNat_div, UInt32.toNat_div, UInt32.toNat_add] at h1
  have h100 : (100 : UInt32).toNat = 100 := rfl
  rw [h100] at h1
  omega

theorem canReach_of_ready {p : CloudSt → Prop} {P : CloudSt → Prop}
    (hP : ∀ t, P s → P { s with ticks := t }) (h : P s)
    (hgo : ∀ s, P s → ¬ tooSoon s → CanReach cloudStep p s) : CanReach cloudStep p s := by
  by_cases ht : tooSoon s
  · refine CanReach.next (.elapse 100) (hgo _ (hP _ h) ?_)
    rw [tooSoon_iff] at ht ⊢
    intro hn
    exact ticks_next s.ticks (hn.trans ht.symm)
  · exact hgo s h ht

/-! ## The states -/

variable {env : CloudEnv} (hst : env.station = true)
include hst

theorem login_reqDid (hc : s.gConCloudStatus = .reqDid) : gAgentLoginCloud env s = reqDidCase env s := by
  unfold gAgentLoginCloud
  rw [hst, hc]
  rfl

theorem login_reqDidAck (hc : s.gConCloudStatus = .reqDidAck) :
    gAgentLoginCloud env s = reqDidAckCase env s := by
  unfold gAgentLoginCloud
  rw [hst, hc]
  rfl

theorem login_reqM2minfo (hc : s.gConCloudStatus = .reqM2minfo) :
    gAgentLoginCloud env s = reqM2minfoCase env s := by
  unfold gAgentLoginCloud
  rw [hst, hc]
  rfl

theorem login_reqM2minfoAck (hc : s.gConCloudStatus = .reqM2minfoAck) :
    gAgentLoginCloud env s = reqM2minfoAckCase env s := by
  unfold gAgentLoginCloud
  rw [hst, hc]
  rfl

theorem login_reqLogin (hc : s.gConCloudStatus = .reqLogin) :
    gAgentLoginCloud env s = reqLoginCase env s := by
  unfold gAgentLoginCloud
  rw [hst, hc]
  rfl

theorem login_running (hc : s.gConCloudStatus = .running) :
    gAgentLoginCloud env s = runningCase env s := by
  unfold gAgentLoginCloud
  rw [hst, hc]
  rfl

end

/-! ## The handshake -/

section
variable {s : CloudSt}

theorem step_takesUp {p buf : List UInt8} (hb : (mqttReadPacket mqttSocketBufferLen (.data p)).bind
      (fun q => if 0 < q.1 then some q.2 else none) = some buf)
    (hc : s.gConCloudStatus = .running) (hid : s.socketid ≠ -1) (ht : ¬ connectTimeout s) :
    cloudStep s (takesUp p) = dispatchPacket true buf (cloudHBStatusInit s) := by
  have htu : packetTakenUp (.data p) s = some buf := by
    unfold packetTakenUp
    rw [if_neg hid]
    exact hb
  have hcase : cloudStep s (takesUp p) = runningCase { mqtt := .data p } s := login_running rfl hc
  rw [hcase]
  unfold runningCase handlePacket
  rw [if_neg ht, htu]

/-- Running, `st` reached, and the message id of the last subscription is `id`. -/
structure At (st : MqttStatus) (id : UInt16) (s : CloudSt) : Prop where
  con : s.gConCloudStatus = .running
  socketid : s.socketid ≠ -1
  status : s.gMQTTStatus = st
  gMsgsubId : s.gMsgsubId = id
  seq : s.seq = id + 1

theorem connack_at (hc : s.gConCloudStatus = .running) (hid : s.socketid ≠ -1)
    (hs : s.gMQTTStatus = .login) (ht : ¬ connectTimeout s) :
    At .loginTopic1 s.seq (cloudStep s (takesUp [0x20, 2, 0, 0])) := by
  rw [step_takesUp (by rfl) hc hid ht]
  have hs' (o : List MqttObs) : ({ cloudHBStatusInit s with obs := o } : CloudSt).gMQTTStatus = .login := hs
  unfold dispatchPacket
  simp only
  rw [if_pos (by decide +kernel), if_pos (hs' _)]
  unfold mqttDoLogin
  rw [if_neg (by decide +kernel)]
  unfold mqttSubLoginTopic
  rw [hs' _]
  exact ⟨hc, hid, rfl, rfl, rfl⟩

theorem suback_at {st : MqttStatus} {id : UInt16} {p buf : List UInt8} (h : At st id s)
    (hl : st ≠ .login) (hb : (mqttReadPacket mqttSocketBufferLen (.data p)).bind
      (fun q => if 0 < q.1 then some q.2 else none) = some buf)
    (ht : mqttParseMessageType buf = 0x90) (hid : (mqttParseMsgId buf).toUInt16 = id) :
    cloudStep s (takesUp p) = mqttSubLoginTopic true
      { cloudHBStatusInit s with obs := s.obs ++ [.suback (subackId buf)] } := by
  have hto : ¬ connectTimeout s := fun hto => hl (h.status ▸ hto.1)
  have hg (o : List MqttObs) : ({ cloudHBStatusInit s with obs := o } : CloudSt).gMsgsubId =
    (mqttParseMsgId buf).toUInt16 := h.gMsgsubId.trans hid.symm
  rw [step_takesUp hb h.con h.socketid hto]
  unfold dispatchPacket
  simp only
  rw [ht, if_neg (by decide), if_pos rfl, if_pos (hg _)]
  rfl

theorem suback_next {st next : MqttStatus} {id : UInt16} {p buf : List UInt8} (h : At st id s)
    (hst : st = .loginTopic1 ∧ next = .loginTopic2 ∨ st = .loginTopic2 ∧ next = .loginTopic3)
    (hb : (mqttReadPacket mqttSocketBufferLen (.data p)).bind
      (fun q => if 0 < q.1 then some q.2 else none) = some buf)
    (ht : mqttParseMessageType buf = 0x90) (hid : (mqttParseMsgId buf).toUInt16 = id) :
    At next (id + 1) (cloudStep s (takesUp p)) := by
  have hs (o : List MqttObs) : ({ cloudHBStatusInit s with obs := o } : CloudSt).gMQTTStatus = st :=
    h.status
  have hseq := h.seq
  have hl : st ≠ .login := by rcases hst with ⟨rfl, -⟩ | ⟨rfl, -⟩ <;> decide
  rw [suback_at h hl hb ht hid]
  unfold mqttSubLoginTopic
  rcases hst with ⟨rfl, rfl⟩ | ⟨rfl, rfl⟩
  · rw [hs]
    exact ⟨h.con, h.socketid, rfl, hseq, congrArg (· + 1) hseq⟩
  · rw [hs]
    exact ⟨h.con, h.socketid, rfl, hseq, congrArg (· + 1) hseq⟩

theorem suback_last {id : UInt16} {p buf : List UInt8} (h : At .loginTopic3 id s)
    (hb : (mqttReadPacket mqttSocketBufferLen (.data p)).bind
      (fun q => if 0 < q.1 then some q.2 else none) = some buf)
    (ht : mqttParseMessageType buf = 0x90) (hid : (mqttParseMsgId buf).toUInt16 = id) :
    CloudOnline (cloudStep s (takesUp p)) := by
  have hs (o : List MqttObs) :
      ({ cloudHBStatusInit s with obs := o } : CloudSt).gMQTTStatus = .loginTopic3 := h.status
  rw [suback_at h (by decide) hb ht hid]
  unfold mqttSubLoginTopic
  rw [hs]
  exact ⟨h.con, rfl⟩

theorem online_of_connected (hc : s.gConCloudStatus = .running) (hid : s.socketid ≠ -1)
    (hs : s.gMQTTStatus = .login) (ht : ¬ connectTimeout s) (hseq : s.seq = 1) :
    CanReach cloudStep CloudOnline s := by
  have h1 := connack_at hc hid hs ht
  rw [hseq] at h1
  have h2 := suback_next (p := [0x90, 3, 0, 1, 0]) h1 (.inl ⟨rfl, rfl⟩) (by rfl) (by decide +kernel)
    (by decide +kernel)
  have h3 := suback_next (p := [0x90, 3, 0, 2, 0]) h2 (.inr ⟨rfl, rfl⟩) (by rfl) (by decide +kernel)
    (by decide +kernel)
  have h4 := suback_last (p := [0x90, 3, 0, 3, 0]) h3 (by rfl) (by decide +kernel) (by decide +kernel)
  exact .next (takesUp [0x20, 2, 0, 0]) (.next (takesUp [0x90, 3, 0, 1, 0])
    (.next (takesUp [0x90, 3, 0, 2, 0]) (.next (takesUp [0x90, 3, 0, 3, 0]) (.here h4))))

/-! ## The requests -/

theorem cloudMQTTInitSocket_fresh {fd : Int} (h0 : 0 < fd) (hf : fd ∉ s.openFds) :
    ∃ fds, cloudMQTTInitSocket { socket := fd } s =
      (true, { s with socketid := fd, openFds := fds, obs := [] }) := by
  obtain ⟨fds, hs₁, hsub, -⟩ := oldMqtt_closed s
  unfold cloudMQTTInitSocket
  simp only [Bool.not_true, Bool.false_eq_true, if_false]
  rw [hs₁, newSocket_fresh h0 (fun hm => hf (hsub fd hm)), handlePacket_none rfl]
  exact ⟨_, rfl⟩

theorem httpInitSocket_fresh {fd : Int} (h0 : 0 < fd) (hf : fd ∉ s.openFds) :
    ∃ fds, httpInitSocket { socket := fd } s =
      (true, { s with httpSocketid := fd, openFds := fds }) := by
  obtain ⟨fds, i, hs₁, hsub, -⟩ := oldHttp_closed s
  unfold httpInitSocket
  simp only [Bool.not_true, Bool.false_eq_true, if_false]
  rw [hs₁, newSocket_fresh h0 (fun hm => hf (hsub fd hm))]
  exact ⟨_, rfl⟩

theorem online_of_reqLogin (hc : s.gConCloudStatus = .reqLogin) : CanReach cloudStep CloudOnline s := by
  apply canReach_of_ready (P := fun s => s.gConCloudStatus = .reqLogin) (fun _ h => h) hc
  intro s hc ht
  obtain ⟨fd, h0, hf⟩ := exists_newSocket s
  obtain ⟨fds, hi⟩ := cloudMQTTInitSocket_fresh
    (s := { s with connect2CloudLastTime := nl6621GetTimeS s, seq := 1 }) h0 hf
  have hcase : cloudStep s (.loginCloud { socket := fd }) = reqLoginCase { socket := fd } s :=
    login_reqLogin rfl hc
  unfold reqLoginCase mqttLogin2Server at hcase
  rw [if_neg ht, hi] at hcase
  refine .next (.loginCloud { socket := fd }) ?_
  rw [hcase]
  refine online_of_connected rfl ?_ rfl ?_ rfl
  · show fd ≠ -1
    omega
  · rintro ⟨-, h300⟩
    change 300 ≤ nl6621GetTimeS s - nl6621GetTimeS s at h300
    rw [UInt32.sub_self] at h300
    exact absurd h300 (by decide)

theorem not_waitOver (h0 : 0 < s.httpSocketid) (ht : s.send2HttpLastTime = nl6621GetTimeS s) :
    ¬ waitOver s := by
  rintro (h | h)
  · rw [ht, UInt32.sub_self] at h
    exact absurd h (by decide)
  · omega

theorem online_of_m2minfoReply (hc : s.gConCloudStatus = .reqM2minfoAck) (hw : ¬ waitOver s) :
    CanReach cloudStep CloudOnline s := by
  let env : CloudEnv := { http := .reply { code := 200, did := false, domainPort := true } }
  have hcase : cloudStep s (.loginCloud env) = reqM2minfoAckCase env s := login_reqM2minfoAck rfl hc
  unfold reqM2minfoAckCase at hcase
  rw [if_neg hw] at hcase
  refine .next (.loginCloud env) (online_of_reqLogin ?_)
  rw [hcase]
  rfl

theorem requested_sent (s : CloudSt) (t : UInt32) (next : ConCloud) {fd : Int} {fds : List Int}
    (h0 : 0 < fd) :
    let s' := requested {} next
      (true, { s with connect2CloudLastTime := t, httpSocketid := fd, openFds := fds })
    s'.gConCloudStatus = next ∧ ¬ waitOver s' :=
  ⟨rfl, not_waitOver h0 rfl⟩

theorem online_of_reqM2minfo (hc : s.gConCloudStatus = .reqM2minfo) (hd : 0 < s.dIdLen) :
    CanReach cloudStep CloudOnline s := by
  apply canReach_of_ready (P := fun s => s.gConCloudStatus = .reqM2minfo ∧ 0 < s.dIdLen) (fun _ h => h)
    ⟨hc, hd⟩
  rintro s ⟨hc, hd⟩ ht
  obtain ⟨fd, h0, hf⟩ := exists_newSocket s
  obtain ⟨fds, hi⟩ := httpInitSocket_fresh
    (s := { s with connect2CloudLastTime := nl6621GetTimeS s }) h0 hf
  have hcase : cloudStep s (.loginCloud { socket := fd }) = reqM2minfoCase { socket := fd } s :=
    login_reqM2minfo rfl hc
  unfold reqM2minfoCase httpSentProvision at hcase
  rw [if_neg ht, if_neg (Nat.pos_iff_ne_zero.mp hd), hi] at hcase
  refine .next (.loginCloud { socket := fd }) ?_
  rw [hcase]
  obtain ⟨hn, hw⟩ := requested_sent s (nl6621GetTimeS s) .reqM2minfoAck h0
  exact online_of_m2minfoReply hn hw

theorem online_of_didReply (hc : s.gConCloudStatus = .reqDidAck) (hw : ¬ waitOver s) :
    CanReach cloudStep CloudOnline s := by
  let env : CloudEnv := { http := .reply { code := 201, did := true, domainPort := false } }
  have hcase : cloudStep s (.loginCloud env) = reqDidAckCase env s := login_reqDidAck rfl hc
  unfold reqDidAckCase at hcase
  rw [if_neg hw] at hcase
  refine .next (.loginCloud env) ?_
  rw [hcase]
  apply online_of_reqM2minfo
  · rfl
  · show 0 < 22
    decide

theorem online_of_reqDid (hc : s.gConCloudStatus = .reqDid) : CanReach cloudStep CloudOnline s := by
  apply canReach_of_ready (P := fun s => s.gConCloudStatus = .reqDid) (fun _ h => h) hc
  intro s hc ht
  obtain ⟨fd, h0, hf⟩ := exists_newSocket s
  obtain ⟨fds, hi⟩ := httpInitSocket_fresh
    (s := { s with connect2CloudLastTime := nl6621GetTimeS s }) h0 hf
  have hcase : cloudStep s (.loginCloud { socket := fd }) = reqDidCase { socket := fd } s :=
    login_reqDid rfl hc
  unfold reqDidCase mqttRegister2Server at hcase
  rw [if_neg ht, hi] at hcase
  refine .next (.loginCloud { socket := fd }) ?_
  rw [hcase]
  obtain ⟨hn, hw⟩ := requested_sent s (nl6621GetTimeS s) .reqDidAck h0
  exact online_of_didReply hn hw

/-- A connection that says nothing more is taken down. -/
theorem reqLogin_of_silence (n : Nat) : ∀ s : CloudSt, 0 ≤ s.socketid → s.pingTime < 50 →
    50 * s.loseTime + s.pingTime + (n + 1) = 120 →
      (run cloudStep s (List.replicate (n + 1) .hbTimer)).gConCloudStatus = .reqLogin := by
  induction n with
  | zero =>
    intro s h0 hp ht
    have hm := cloudMqttHBTimer_cases s
    show (cloudMqttHBTimer s).gConCloudStatus = _
    generalize cloudMqttHBTimer s = s' at hm ⊢
    cases hm with
    | noSocket h => omega
    | counted p l _ _ hc hlt =>
      obtain ⟨h50, hsum⟩ := hc hp
      omega
    | tornDown _ _ => rfl
  | succ n ih =>
    intro s h0 hp ht
    have hm := cloudMqttHBTimer_cases s
    rw [List.replicate_succ, run_cons]
    show (run cloudStep (cloudMqttHBTimer s) _).gConCloudStatus = _
    generalize cloudMqttHBTimer s = s' at hm ⊢
    cases hm with
    | noSocket h => omega
    | counted p l _ _ hc hlt =>
      obtain ⟨h50, hsum⟩ := hc hp
      exact ih _ h0 h50 (by show 50 * l + p + (n + 1) = 120; omega)
    | tornDown _ hx =>
      obtain ⟨p, l, he, hc⟩ := hbCount_eq s
      obtain ⟨h50, hsum⟩ := hc hp
      rw [hbExpired, he] at hx
      obtain ⟨h2, h20⟩ : 2 ≤ l ∧ 20 ≤ p := hx
      omega

theorem online_of_running (hc : s.gConCloudStatus = .running) (h : CloudInv s) :
    CanReach cloudStep CloudOnline s := by
  have h0 := (h.sockets.mqtt.resolve_left (h.connected hc)).1
  have hs := h.silent
  refine .after (List.replicate (119 - (50 * s.loseTime + s.pingTime) + 1) .hbTimer) ?_
  exact online_of_reqLogin (reqLogin_of_silence _ s h0 h.ping (by omega))

end

/-! ## Reachable states -/

section
variable {s s' : CloudSt}

theorem PacketFrame.sockets (h : PacketFrame s s') (hs : Sockets s) : Sockets s' := by
  refine ⟨?_, ?_⟩
  · rw [h.socketid, h.openFds]
    exact hs.mqtt
  · rw [h.socketid, h.httpSocketid, h.openFds]
    exact hs.http

theorem CloudInv.packet (h : CloudInv s) (hc : s.gConCloudStatus = .running) (hf : PacketFrame s s') :
    CloudInv s' := by
  have hid := h.connected hc
  have hd : 0 < s.dIdLen := h.did (.inr hid)
  have hd' : s'.dIdLen = s.dIdLen := hf.did.resolve_right (Nat.pos_iff_ne_zero.mp hd)
  refine ⟨hf.sockets h.sockets, ?_, fun _ => hf.socketid ▸ hid, fun _ => hd' ▸ hd, ?_, ?_⟩
  · rcases hf.con with hc' | hc'
    · rw [hc', hc]; decide
    · rw [hc']; decide
  · rcases hf.counters with ⟨h1, -⟩ | ⟨h1, -⟩
    · exact h1 ▸ h.ping
    · rw [h1]; decide
  · rcases hf.counters with ⟨h1, h2⟩ | ⟨h1, h2⟩
    · rw [h1, h2]
      exact h.silent
    · rw [h1, h2]; decide

theorem CloudInv.loginCloud (h : CloudInv s) (env : CloudEnv) : CloudInv (gAgentLoginCloud env s) := by
  have hm := gAgentLoginCloud_cases env s
  generalize gAgentLoginCloud env s = s' at hm ⊢
  cases hm with
  | stay => exact h
  | http hm =>
    obtain ⟨hp, hl⟩ := hm.counters
    refine ⟨hm.sockets h.sockets, hm.con.2.2, fun hc => absurd hc hm.con.2.1, fun hd => ?_, ?_, ?_⟩
    · rcases hm.did with h22 | ⟨hsame, hdid⟩
      · rw [h22]; decide
      · rw [hsame]
        rw [hdid, hm.socketid] at hd
        exact h.did hd
    · rw [hp]; exact h.ping
    · rw [hp, hl]; exact h.silent
  | login hc hm =>
    have hd : 0 < s.dIdLen := h.did (.inl (by rw [hc]; rfl))
    cases hm with
    | failed con status published did counters sockets =>
      refine ⟨sockets h.sockets, ?_, ?_, fun _ => did ▸ hd, ?_, ?_⟩
      · rw [con]; exact h.valid
      · rw [con, hc]
        exact fun h => by cases h
      · rw [counters.1]; exact h.ping
      · rw [counters.1, counters.2]; exact h.silent
    | connected con status obs published did counters socketid sockets =>
      refine ⟨sockets h.sockets, ?_, fun _ => socketid, fun _ => did ▸ hd, ?_, ?_⟩
      · rw [con]; decide
      · rw [counters.1]; exact h.ping
      · rw [counters.1, counters.2]; exact h.silent
  | timeout hc hs =>
    refine ⟨⟨h.sockets.mqtt, h.sockets.http⟩, ?_, ?_, ?_, h.ping, h.silent⟩
    · exact fun h => by cases h
    · exact fun h => by cases h
    · exact fun _ => h.did (.inr (h.connected hc))
  | packet hc hst ht hm => exact h.packet hc hm.frame

theorem CloudInv.timer (h : CloudInv s) : CloudInv (cloudMqttHBTimer s) := by
  have hm := cloudMqttHBTimer_cases s
  generalize cloudMqttHBTimer s = s' at hm ⊢
  cases hm with
  | noSocket _ => exact h
  | counted p l _ _ hc hlt =>
    obtain ⟨h50, hsum⟩ := hc h.ping
    have hs := h.silent
    exact ⟨⟨h.sockets.mqtt, h.sockets.http⟩, h.valid, h.connected, h.did, h50,
      by show 50 * l + p < 120; omega⟩
  | tornDown hid _ =>
    have hk := h.sockets.closeMqtt
    have hd := h.did (.inr (by omega))
    refine ⟨⟨hk.mqtt, hk.http⟩, ?_, ?_, fun _ => hd, by show 0 < 50; decide, by show 0 < 120; decide⟩
    · exact fun h => by cases h
    · exact fun h => by cases h

theorem CloudInv.step (h : CloudInv s) (e : CloudEv) : CloudInv (cloudStep s e) := by
  cases e with
  | loginCloud env => exact h.loginCloud env
  | hbTimer => exact h.timer
  | report =>
    show CloudInv (mcuSendPublish s)
    unfold mcuSendPublish
    split
    · exact ⟨⟨h.sockets.mqtt, h.sockets.http⟩, h.valid, h.connected, h.did, h.ping, h.silent⟩
    · exact h
  | elapse ticks => exact ⟨⟨h.sockets.mqtt, h.sockets.http⟩, h.valid, h.connected, h.did, h.ping, h.silent⟩

end

theorem cloudBoot_inv (ticks : UInt32) (stored : Bool) : CloudInv (cloudBoot ticks stored) := by
  have h0 : ¬ (0 : Int) < 0 := by decide
  have hs : Sockets (cloudBoot ticks stored) := ⟨.inl rfl, fun h => absurd h h0⟩
  have hp : 50 * 0 + 0 < 120 := by decide
  cases stored with
  | false =>
    refine ⟨hs, ?_, ?_, ?_, (by decide : 0 < 50), hp⟩
    · exact fun h => by cases h
    · exact fun h => by cases h
    · rintro (h | h)
      · cases h
      · exact absurd rfl h
  | true =>
    refine ⟨hs, ?_, ?_, fun _ => (by decide : 0 < 22), (by decide : 0 < 50), hp⟩
    · exact fun h => by cases h
    · exact fun h => by cases h

theorem cloudRun_inv (ticks : UInt32) (stored : Bool) (es : List CloudEv) :
    CloudInv (cloudRun (cloudBoot ticks stored) es) :=
  run_inv (cloudBoot_inv ticks stored) fun _ e h => h.step e

/-! ## Asking again -/

section
variable {s : CloudSt} {env env' : CloudEnv}

theorem request_iff {req : ConCloud} : s.gConCloudStatus.request = some req ↔
    s.gConCloudStatus = .reqDidAck ∧ req = .reqDid ∨ s.gConCloudStatus = .reqM2minfoAck ∧ req = .reqM2minfo := by
  cases s.gConCloudStatus <;> simp [ConCloud.request, eq_comm]

theorem m2minfo_over (hst : env.station = true) (hc : s.gConCloudStatus = .reqM2minfoAck) (hw : waitOver s) :
    (gAgentLoginCloud env s).gConCloudStatus = .reqM2minfo := by
  rw [login_reqM2minfoAck hst hc, reqM2minfoAckCase, if_pos hw]

theorem m2minfo_closed (hst : env.station = true) (hc : s.gConCloudStatus = .reqM2minfoAck) (hw : ¬ waitOver s)
    (hh : env.http = .closed) : (gAgentLoginCloud env s).gConCloudStatus = .reqM2minfoAck ∧
      (gAgentLoginCloud env s).httpSocketid = -1 := by
  rw [login_reqM2minfoAck hst hc, reqM2minfoAckCase, if_neg hw, httpReadSocket, hh]
  exact ⟨hc, rfl⟩

theorem m2minfo_refused {r : HttpReply} (hst : env.station = true) (hc : s.gConCloudStatus = .reqM2minfoAck)
    (hw : ¬ waitOver s) (hh : env.http = .reply r) (hr : ¬ s.gConCloudStatus.accepts r) :
    gAgentLoginCloud env s = s := by
  rw [hc] at hr
  rw [login_reqM2minfoAck hst hc, reqM2minfoAckCase, if_neg hw, httpReadSocket, hh]
  exact if_neg hr

/-- Everywhere but in the wait for a DID. -/
theorem resends_of_ne (h : s.gConCloudStatus ≠ .reqDidAck) : Resends s := by
  have hm2 {req : ConCloud} (hreq : s.gConCloudStatus.request = some req) :
      s.gConCloudStatus = .reqM2minfoAck ∧ req = .reqM2minfo :=
    (request_iff.mp hreq).resolve_left fun hd => h hd.1
  refine ⟨?_, ?_, ?_, ?_⟩
  · intro env req hst hreq hw
    obtain ⟨hc, rfl⟩ := hm2 hreq
    exact m2minfo_over hst hc hw
  · intro env env' req hst hst' hreq hw hh
    obtain ⟨hc, rfl⟩ := hm2 hreq
    obtain ⟨hc', hid⟩ := m2minfo_closed hst hc hw hh
    exact m2minfo_over hst' hc' (.inr (by rw [hid]; decide))
  · intro env env' req r ticks hst hst' hreq hw hh hr hover
    obtain ⟨hc, rfl⟩ := hm2 hreq
    rw [m2minfo_refused hst hc hw hh hr] at hover ⊢
    exact m2minfo_over hst' hc hover
  · intro env buf hst hc hs ht hb htype hcode
    rw [login_running hst hc, runningCase, if_neg ht, handlePacket, hb]
    show (dispatchPacket env.send buf (cloudHBStatusInit s)).gConCloudStatus = _
    have hs' (o : List MqttObs) :
      ({ cloudHBStatusInit s with obs := o } : CloudSt).gMQTTStatus = .login := hs
    unfold dispatchPacket
    simp only
    rw [if_pos htype, if_pos (hs' _), mqttDoLogin, if_pos hcode]

theorem did_over (hst : env.station = true) (hc : s.gConCloudStatus = .reqDidAck) (hw : waitOver s) :
    (gAgentLoginCloud env s).gConCloudStatus = .reqDidAck := by
  rw [login_reqDidAck hst hc, reqDidAckCase, if_pos hw]

theorem did_closed (hst : env.station = true) (hc : s.gConCloudStatus = .reqDidAck) (hw : ¬ waitOver s)
    (hh : env.http = .closed) : (gAgentLoginCloud env s).gConCloudStatus = .reqDidAck ∧
      (gAgentLoginCloud env s).httpSocketid = -1 := by
  rw [login_reqDidAck hst hc, reqDidAckCase, if_neg hw, httpReadSocket, hh]
  exact ⟨hc, rfl⟩

/-- In the wait for a DID no failure leads back to the request: a wait that is over
goes on, and so does one whose connection is closed. -/
theorem reqDidAck_not_resends (hc : s.gConCloudStatus = .reqDidAck) : ¬ Resends s := by
  intro hr
  have hreq : s.gConCloudStatus.request = some .reqDid := by rw [hc]; rfl
  by_cases hw : waitOver s
  · have hn := hr.ended {} .reqDid rfl hreq hw
    rw [did_over rfl hc hw] at hn
    cases hn
  · have hn := hr.closed { http := .closed } {} .reqDid rfl rfl hreq hw rfl
    have hst : ({ http := .closed } : CloudEnv).station = true := rfl
    obtain ⟨hc', hid⟩ := did_closed hst hc hw rfl
    rw [did_over rfl hc' (.inr (by rw [hid]; decide))] at hn
    cases hn

theorem cloudInv_online (h : CloudInv s) (hn : s.gConCloudStatus ≠ .reqDidAck ∨ ¬ waitOver s) :
    CanReach cloudStep CloudOnline s := by
  cases hc : s.gConCloudStatus with
  | invalid => exact absurd hc h.valid
  | reqDid => exact online_of_reqDid hc
  | reqDidAck => exact online_of_didReply hc (hn.resolve_left fun hne => hne hc)
  | reqM2minfo => exact online_of_reqM2minfo hc (h.did (.inl (by rw [hc]; rfl)))
  | reqM2minfoAck =>
    by_cases hw : waitOver s
    · refine .next (.loginCloud {}) ?_
      have hcase : cloudStep s (.loginCloud {}) = reqM2minfoAckCase {} s := login_reqM2minfoAck rfl hc
      rw [hcase, reqM2minfoAckCase, if_pos hw]
      exact online_of_reqM2minfo rfl (h.did (.inl (by rw [hc]; rfl)))
    · exact online_of_m2minfoReply hc hw
  | reqLogin => exact online_of_reqLogin hc
  | running => exact online_of_running hc h

end

/-- **No dead end but one.** From a state of a run the device can get online, and
every failure leads back to the request, exactly when it does not wait for a DID.
There it can as long as the wait lasts, but what fails is not asked for again. -/
theorem cloud_login_iff (ticks : UInt32) (stored : Bool) (es : List CloudEv) :
    (CanReach cloudStep CloudOnline (cloudRun (cloudBoot ticks stored) es) ∧
        Resends (cloudRun (cloudBoot ticks stored) es) ↔
      (cloudRun (cloudBoot ticks stored) es).gConCloudStatus ≠ .reqDidAck) ∧
    (¬ waitOver (cloudRun (cloudBoot ticks stored) es) →
      CanReach cloudStep CloudOnline (cloudRun (cloudBoot ticks stored) es)) := by
  have h := cloudRun_inv ticks stored es
  generalize cloudRun (cloudBoot ticks stored) es = s at h ⊢
  refine ⟨⟨?_, fun hn => ⟨cloudInv_online h (.inl hn), resends_of_ne hn⟩⟩, fun hw => cloudInv_online h (.inr hw)⟩
  rintro ⟨-, hr⟩ hc
  exact reqDidAck_not_resends hc hr

/-! ## The dead end -/

/-- The wait for a DID without a socket to get it from. -/
structure Stuck (s : CloudSt) : Prop where
  con : s.gConCloudStatus = .reqDidAck
  http : s.httpSocketid ≤ 0
  socketid : s.socketid = -1
  status : s.gMQTTStatus ≠ .running

theorem Stuck.step {s : CloudSt} (h : Stuck s) (e : CloudEv) : Stuck (cloudStep s e) := by
  cases e with
  | loginCloud env =>
    show Stuck (gAgentLoginCloud env s)
    cases hst : env.station with
    | false =>
      rw [gAgentLoginCloud, hst]
      exact h
    | true =>
      rw [login_reqDidAck hst h.con, reqDidAckCase, if_pos (.inr h.http)]
      exact ⟨rfl, h.http, h.socketid, h.status⟩
  | hbTimer =>
    show Stuck (cloudMqttHBTimer s)
    rw [cloudMqttHBTimer, if_pos (by rw [h.socketid]; decide)]
    exact h
  | report =>
    show Stuck (mcuSendPublish s)
    rw [mcuSendPublish, if_neg h.status]
    exact h
  | elapse ticks => exact ⟨h.con, h.http, h.socketid, h.status⟩

theorem Stuck.run {s : CloudSt} (h : Stuck s) (es : List CloudEv) : Stuck (Lib.run cloudStep s es) :=
  run_inv h fun _ e h => h.step e

/-- The server closes the connection before it has answered. -/
theorem cloud_login_stuck :
    ¬ ∀ (ticks : UInt32) (stored : Bool) (es : List CloudEv),
      CanReach cloudStep CloudOnline (cloudRun (cloudBoot ticks stored) es) := by
  intro h
  obtain ⟨es, hr⟩ := h 0 false [.elapse 100, .loginCloud { socket := 1 }, .loginCloud { http := .closed }]
  refine absurd hr.2 (Stuck.run ?_ es).status
  exact ⟨by decide +kernel, by decide +kernel, by decide +kernel, by decide +kernel⟩

end GizwitsSdk
