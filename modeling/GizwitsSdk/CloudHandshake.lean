import GizwitsSdk.CloudSteps

/-!
# The handshake with the broker

The three subscriptions go out one after the other, each on the acknowledgement
of the one before. An acknowledgement is told by one byte of its message id, and
the id that it is compared with may be one of the last connection: then the
subscriptions start before the broker has accepted the login.
-/

namespace GizwitsSdk

def MqttObs.request : MqttObs → Option UInt16
  | .subscribe id => some id
  | _ => none

def requests (obs : List MqttObs) : List UInt16 := obs.filterMap MqttObs.request

/-- The login accepted and the subscriptions `ids` sent and acknowledged in turn. -/
def handshake (ids : List UInt16) : List MqttObs :=
  .connack 0 :: ids.flatMap fun id => [MqttObs.subscribe id, .suback id]

/-- Three subscriptions have been sent, each acknowledged before the next. -/
def HandshakeDone (obs : List MqttObs) : Prop :=
  ∃ a b c, requests obs = [a, b, c] ∧
    List.Sublist [.connack 0, .subscribe a, .suback a, .subscribe b, .suback b, .subscribe c, .suback c]
      obs

/-! ## Progress -/

section
variable {obs : List MqttObs} {ids : List UInt16} {o : MqttObs}

def Acked (obs : List MqttObs) (ids : List UInt16) : Prop :=
  requests obs = ids ∧ (handshake ids).Sublist obs

def Waiting (obs : List MqttObs) (ids : List UInt16) (last : UInt16) : Prop :=
  requests obs = ids ++ [last] ∧ List.Sublist (handshake ids ++ [.subscribe last]) obs

theorem requests_snoc (h : o.request = none) : requests (obs ++ [o]) = requests obs := by
  unfold requests
  rw [List.filterMap_append, List.filterMap_cons_none h, List.filterMap_nil, List.append_nil]

theorem requests_subscribe (id : UInt16) : requests (obs ++ [.subscribe id]) = requests obs ++ [id] := by
  unfold requests
  rw [List.filterMap_append]
  rfl

theorem handshake_snoc (id : UInt16) :
    handshake (ids ++ [id]) = handshake ids ++ [.subscribe id] ++ [.suback id] := by
  simp only [handshake, List.flatMap_append, List.flatMap_singleton, List.cons_append,
    List.append_assoc, List.nil_append]

theorem Acked.snoc (h : Acked obs ids) (ho : o.request = none) : Acked (obs ++ [o]) ids :=
  ⟨(requests_snoc ho).trans h.1, h.2.trans (List.sublist_append_left _ _)⟩

theorem Waiting.snoc {last : UInt16} (h : Waiting obs ids last) (ho : o.request = none) :
    Waiting (obs ++ [o]) ids last :=
  ⟨(requests_snoc ho).trans h.1, h.2.trans (List.sublist_append_left _ _)⟩

theorem Waiting.acked {last : UInt16} (h : Waiting obs ids last) :
    Acked (obs ++ [.suback last]) (ids ++ [last]) := by
  refine ⟨(requests_snoc rfl).trans h.1, ?_⟩
  rw [handshake_snoc]
  exact h.2.append (List.Sublist.refl _)

theorem Acked.subscribe (h : Acked obs ids) (id : UInt16) : Waiting (obs ++ [.subscribe id]) ids id :=
  ⟨by rw [requests_subscribe, h.1], h.2.append (List.Sublist.refl _)⟩

theorem Acked.done (h : Acked obs ids) (h3 : ids.length = 3) : HandshakeDone obs := by
  obtain ⟨a, b, c, rfl⟩ := List.length_eq_three.mp h3
  exact ⟨a, b, c, h.1, h.2⟩

theorem HandshakeDone.snoc (h : HandshakeDone obs) (ho : o.request = none) : HandshakeDone (obs ++ [o]) := by
  obtain ⟨a, b, c, hr, hs⟩ := h
  exact ⟨a, b, c, (requests_snoc ho).trans hr, hs.trans (List.sublist_append_left _ _)⟩

end

/-- How many subscriptions a status stands for, while they go on. -/
def MqttStatus.stage : MqttStatus → Option Nat
  | .login => some 0
  | .loginTopic1 => some 1
  | .loginTopic2 => some 2
  | .loginTopic3 => some 3
  | _ => none

/-- `n` subscriptions sent; `g_Msgsub_id` is the last one's while it is waited for. -/
def Progress (obs : List MqttObs) (gMsgsubId : UInt16) (n : Nat) : Prop :=
  n = 0 ∧ requests obs = [] ∨ (∃ ids, ids.length = n ∧ Acked obs ids) ∨
    ∃ ids, ids.length + 1 = n ∧ Waiting obs ids gMsgsubId

def HandshakeInv (s : CloudSt) : Prop :=
  s.gConCloudStatus = .running →
    (∀ n, s.gMQTTStatus.stage = some n → Progress s.obs s.gMsgsubId n) ∧
      (s.gMQTTStatus = .running → HandshakeDone s.obs)

/-- An acknowledgement that moves the handshake on carries the whole id, and it
does not come before the login is accepted. -/
def SubackOk (s : CloudSt) : CloudEv → Prop
  | .loginCloud env =>
    env.station = true → s.gConCloudStatus = .running → ¬ connectTimeout s → s.gMQTTStatus ≠ .running →
      ∀ buf ∈ packetTakenUp env.mqtt s, mqttParseMessageType buf = 0x90 →
        s.gMsgsubId = (mqttParseMsgId buf).toUInt16 →
          subackId buf = s.gMsgsubId ∧ (s.gMQTTStatus = .login → .connack 0 ∈ s.obs)
  | _ => True

instance (s : CloudSt) : ∀ e, Decidable (SubackOk s e)
  | .loginCloud env => inferInstanceAs (Decidable (env.station = true → _))
  | .hbTimer | .report | .elapse _ => inferInstanceAs (Decidable True)

/-! ## Steps -/

section
variable {s s' : CloudSt}

theorem Progress.snoc {obs : List MqttObs} {g : UInt16} {n : Nat} {o : MqttObs} (h : Progress obs g n)
    (ho : o.request = none) : Progress (obs ++ [o]) g n := by
  rcases h with ⟨hn, hr⟩ | ⟨ids, hn, ha⟩ | ⟨ids, hn, hw⟩
  · exact .inl ⟨hn, (requests_snoc ho).trans hr⟩
  · exact .inr (.inl ⟨ids, hn, ha.snoc ho⟩)
  · exact .inr (.inr ⟨ids, hn, hw.snoc ho⟩)

theorem subLoginTopic_inv {ids : List UInt16} (ha : Acked s.obs ids)
    (hn : s.gMQTTStatus.stage = some ids.length) (send : Bool) : HandshakeInv (mqttSubLoginTopic send s) := by
  have hsub (next : MqttStatus) (hnext : next.stage = some (ids.length + 1))
      (hr : next ≠ .running) (hs : s.gMQTTStatus ≠ .running) :
      HandshakeInv (subscribeTopic send next s) := by
    unfold subscribeTopic
    intro _
    cases send with
    | true =>
      refine ⟨fun n h => ?_, fun h => absurd h hr⟩
      obtain rfl := Option.some.inj (hnext.symm.trans h)
      exact .inr (.inr ⟨ids, rfl, ha.subscribe _⟩)
    | false =>
      refine ⟨fun n h => ?_, fun h => absurd h hs⟩
      obtain rfl := Option.some.inj (hn.symm.trans h)
      exact .inr (.inl ⟨ids, rfl, ha⟩)
  unfold mqttSubLoginTopic
  cases hs : s.gMQTTStatus with
  | start => rw [hs] at hn; cases hn
  | running => rw [hs] at hn; cases hn
  | login =>
    rw [hs] at hn
    have h0 : 0 = ids.length := Option.some.inj hn
    exact hsub _ (by rw [← h0]; rfl) (by decide) (by rw [hs]; decide)
  | loginTopic1 =>
    rw [hs] at hn
    have h1 : 1 = ids.length := Option.some.inj hn
    exact hsub _ (by rw [← h1]; rfl) (by decide) (by rw [hs]; decide)
  | loginTopic2 =>
    rw [hs] at hn
    have h2 : 2 = ids.length := Option.some.inj hn
    exact hsub _ (by rw [← h2]; rfl) (by decide) (by rw [hs]; decide)
  | loginTopic3 =>
    rw [hs] at hn
    have h3 : 3 = ids.length := Option.some.inj hn
    intro _
    refine ⟨fun n h => ?_, fun _ => (ha.done h3.symm).snoc rfl⟩
    cases h

theorem subLoginTopic_observed {ids : List UInt16} {o : List MqttObs} (ha : Acked o ids)
    (hn : s.gMQTTStatus.stage = some ids.length) (send : Bool) :
    HandshakeInv (mqttSubLoginTopic send { cloudHBStatusInit s with obs := o }) :=
  subLoginTopic_inv (s := { cloudHBStatusInit s with obs := o }) ha hn send

theorem HandshakeInv.observed (h : HandshakeInv s) {o : MqttObs} (ho : o.request = none) :
    HandshakeInv { cloudHBStatusInit s with obs := s.obs ++ [o] } := by
  intro hc
  obtain ⟨hp, hd⟩ := h hc
  exact ⟨fun n hn => (hp n hn).snoc ho, fun hs => (hd hs).snoc ho⟩

theorem HandshakeInv.suback (h : HandshakeInv s) (hc : s.gConCloudStatus = .running)
    (hl : s.gMQTTStatus = .login → .connack 0 ∈ s.obs) (send : Bool) :
    HandshakeInv
      (mqttSubLoginTopic send { cloudHBStatusInit s with obs := s.obs ++ [.suback s.gMsgsubId] }) := by
  cases hst : s.gMQTTStatus.stage with
  | none =>
    -- nothing is left to subscribe
    have he : mqttSubLoginTopic send { cloudHBStatusInit s with obs := s.obs ++ [.suback s.gMsgsubId] } =
        { cloudHBStatusInit s with obs := s.obs ++ [.suback s.gMsgsubId] } := by
      unfold mqttSubLoginTopic
      cases hs : s.gMQTTStatus with
      | start => simp only [cloudHBStatusInit, hs]
      | running => simp only [cloudHBStatusInit, hs]
      | login | loginTopic1 | loginTopic2 | loginTopic3 => rw [hs] at hst; cases hst
    rw [he]
    exact h.observed rfl
  | some n =>
    rcases (h hc).1 n hst with ⟨rfl, hr⟩ | ⟨ids, rfl, ha⟩ | ⟨ids, rfl, hw⟩
    · have hs : s.gMQTTStatus = .login := by
        cases hs : s.gMQTTStatus <;> rw [hs] at hst <;> first | rfl | cases hst
      have ha : Acked s.obs [] := ⟨hr, List.singleton_sublist.mpr (hl hs)⟩
      exact subLoginTopic_observed (ha.snoc rfl) hst send
    · exact subLoginTopic_observed (ha.snoc rfl) hst send
    · refine subLoginTopic_observed hw.acked ?_ send
      rw [List.length_append, List.length_singleton]
      exact hst

theorem HandshakeInv.dispatch (h : HandshakeInv s) (buf : List UInt8) :
    HandshakeInv (mqttDispatchPublishPacket buf (cloudHBStatusInit s)) := by
  have hp (s : CloudSt) (h : HandshakeInv s) : HandshakeInv (mcuSendPublish s) := by
    unfold mcuSendPublish
    split
    · exact h
    · exact h
  have hd (n : Nat) (s : CloudSt) (h : HandshakeInv s) :
      HandshakeInv (if s.dIdLen = 0 then { s with dIdLen := n } else s) := by
    split
    · exact h
    · exact h
  unfold mqttDispatchPublishPacket
  simp only
  split
  · split
    · split
      · exact hp _ (hd _ _ h)
      · exact hd _ _ h
    · exact hd _ _ h
  · exact h

theorem HandshakeInv.handled {env : CloudEnv} (h : HandshakeInv s) (hc : s.gConCloudStatus = .running)
    (hst : env.station = true) (ht : ¬ connectTimeout s) (hok : SubackOk s (.loginCloud env))
    (hm : Handled env s s') : HandshakeInv s' := by
  cases hm with
  | nothing => exact h
  | quiet => exact h
  | passedOver o ho =>
    refine h.observed ?_
    cases o with
    | subscribe id => exact absurd rfl (ho.2 id)
    | connack code | suback id | intoRunning => rfl
  | refused code hs => exact fun hc => by cases hc
  | accepted hs =>
    rcases (h hc).1 0 (by rw [hs]; rfl) with ⟨-, hr⟩ | ⟨ids, h0, ha⟩ | ⟨ids, h0, -⟩
    · have ha : Acked (s.obs ++ [.connack 0]) [] :=
        ⟨(requests_snoc rfl).trans hr, List.sublist_append_right _ _⟩
      exact subLoginTopic_observed ha (by rw [hs]; rfl) _
    · obtain rfl := List.eq_nil_of_length_eq_zero h0
      exact subLoginTopic_observed (ha.snoc rfl) (by rw [hs]; rfl) _
    · cases h0
  | acked buf hb ht' hmatch =>
    by_cases hr : s.gMQTTStatus = .running
    · have he : mqttSubLoginTopic env.send
          { cloudHBStatusInit s with obs := s.obs ++ [.suback (subackId buf)] } =
          { cloudHBStatusInit s with obs := s.obs ++ [.suback (subackId buf)] } := by
        unfold mqttSubLoginTopic
        simp only [cloudHBStatusInit, hr]
      rw [he]
      exact h.observed rfl
    · obtain ⟨hid, hl⟩ := hok hst hc ht hr buf hb ht' hmatch
      rw [hid]
      exact h.suback hc hl _
  | publication buf hs => exact (h.dispatch buf)

theorem HandshakeInv.step (h : HandshakeInv s) (e : CloudEv) (hok : SubackOk s e) :
    HandshakeInv (cloudStep s e) := by
  cases e with
  | loginCloud env =>
    show HandshakeInv (gAgentLoginCloud env s)
    have hm := gAgentLoginCloud_cases env s
    generalize gAgentLoginCloud env s = s' at hm ⊢
    cases hm with
    | stay => exact h
    | http hm => exact fun hc => absurd hc hm.con.2.1
    | login hc hm =>
      cases hm with
      | failed con status published did counters sockets =>
        intro hr
        rw [con, hc] at hr
        cases hr
      | connected con status obs published did counters socketid sockets =>
        intro _
        rw [status, obs]
        refine ⟨fun n hn => ?_, fun hr => by cases hr⟩
        exact .inl ⟨(Option.some.inj hn).symm, rfl⟩
    | timeout hc hs => exact fun hr => by cases hr
    | packet hc hst ht hm => exact h.handled hc hst ht hok hm
  | hbTimer =>
    show HandshakeInv (cloudMqttHBTimer s)
    have hm := cloudMqttHBTimer_cases s
    generalize cloudMqttHBTimer s = s' at hm ⊢
    cases hm with
    | noSocket _ => exact h
    | counted p l hid hx hc hlt => exact h
    | tornDown hid hx => exact fun hr => by cases hr
  | report =>
    show HandshakeInv (mcuSendPublish s)
    unfold mcuSendPublish
    split
    · exact h
    · exact h
  | elapse ticks => exact h

theorem subLoginTopic_con (send : Bool) : (mqttSubLoginTopic send s).gConCloudStatus = s.gConCloudStatus := by
  unfold mqttSubLoginTopic
  split <;> first
    | rfl
    | (unfold subscribeTopic; cases send <;> rfl)

/-- Only a packet on a connection that runs makes the status `RUNNING`. -/
theorem running_of_change (e : CloudEv) (h0 : s.gMQTTStatus ≠ .running)
    (h1 : (cloudStep s e).gMQTTStatus = .running) : (cloudStep s e).gConCloudStatus = .running := by
  cases e with
  | loginCloud env =>
    change (gAgentLoginCloud env s).gMQTTStatus = _ at h1
    show (gAgentLoginCloud env s).gConCloudStatus = _
    have hm := gAgentLoginCloud_cases env s
    generalize gAgentLoginCloud env s = s' at hm h1 ⊢
    cases hm with
    | stay => exact absurd h1 h0
    | http hm => exact absurd (hm.gMQTTStatus ▸ h1) h0
    | login hc hm =>
      cases hm with
      | failed con status published did counters sockets => exact absurd (status ▸ h1) h0
      | connected con status obs published did counters socketid sockets => exact con
    | timeout hc hs => exact absurd h1 h0
    | packet hc hst ht hm =>
      cases hm with
      | nothing => exact hc
      | quiet => exact hc
      | passedOver o ho => exact hc
      | refused code hs => exact absurd h1 h0
      | accepted hs => exact (subLoginTopic_con _).trans hc
      | acked buf hb ht' hmatch => exact (subLoginTopic_con _).trans hc
      | publication buf hs => exact absurd hs h0
  | hbTimer =>
    refine absurd ?_ h0
    change (cloudMqttHBTimer s).gMQTTStatus = _ at h1
    have hm := cloudMqttHBTimer_cases s
    generalize cloudMqttHBTimer s = s' at hm h1
    cases hm with
    | noSocket _ => exact h1
    | counted p l hid hx hc hlt => exact h1
    | tornDown hid hx => exact h1
  | report =>
    refine absurd ?_ h0
    change (mcuSendPublish s).gMQTTStatus = _ at h1
    unfold mcuSendPublish at h1
    split at h1 <;> exact h1
  | elapse ticks => exact absurd h1 h0

end

theorem cloudBoot_handshakeInv (ticks : UInt32) (stored : Bool) :
    HandshakeInv (cloudBoot ticks stored) := by
  intro hc
  cases stored <;> cases hc

/-- **The handshake.** In a run in which every acknowledgement that moves the
handshake on carries the whole id, and none comes before the login is accepted,
the status becomes `RUNNING` only when the present connection has seen the
login accepted and then each of its three subscriptions acknowledged in turn. -/
theorem handshake_order (ticks : UInt32) (stored : Bool) (es : List CloudEv)
    (hok : ∀ pre e, pre ++ [e] <+: es → SubackOk (cloudRun (cloudBoot ticks stored) pre) e)
    (pre : List CloudEv) (e : CloudEv) (hp : pre ++ [e] <+: es)
    (h0 : (cloudRun (cloudBoot ticks stored) pre).gMQTTStatus ≠ .running)
    (h1 : (cloudRun (cloudBoot ticks stored) (pre ++ [e])).gMQTTStatus = .running) :
    HandshakeDone (cloudRun (cloudBoot ticks stored) (pre ++ [e])).obs := by
  have hinv := Lib.Meets.preserves (cloudBoot_handshakeInv ticks stored) (fun s e h => h.step e) hok
    (pre ++ [e]) hp
  have he : cloudRun (cloudBoot ticks stored) (pre ++ [e]) =
      cloudStep (cloudRun (cloudBoot ticks stored) pre) e := Lib.run_snoc e
  rw [he] at h1
  have hc := running_of_change e h0 h1
  rw [← he] at h1 hc
  exact (hinv hc).2 h1

def logsIn : List CloudEv :=
  [.elapse 100, .loginCloud { socket := 1 },
    .loginCloud { http := .reply { code := 200, did := false, domainPort := true } },
    .elapse 100, .loginCloud { socket := 2 }]

def takesUp (packet : List UInt8) : CloudEv := .loginCloud { mqtt := .data packet }

/-- The login is accepted, and the third subscription acknowledged last. -/
theorem handshake_order_usual :
    HandshakeDone (cloudRun (cloudBoot 0 true) (logsIn ++ [takesUp [0x20, 2, 0, 0],
      takesUp [0x90, 3, 0, 1, 0], takesUp [0x90, 3, 0, 2, 0]] ++ [takesUp [0x90, 3, 0, 3, 0]])).obs := by
  refine handshake_order 0 true _ ?_ _ _ (List.prefix_refl _) (by decide +kernel) (by decide +kernel)
  show Lib.Meets cloudStep SubackOk _ _
  decide +kernel

/-- With no `CONNACK` at all: a broker that acknowledges the message id 0, which
is what `g_Msgsub_id` is after power on, and then what it is sent. -/
theorem handshake_order_early :
    ¬ ∀ (ticks : UInt32) (stored : Bool) (pre : List CloudEv) (e : CloudEv),
      (cloudRun (cloudBoot ticks stored) pre).gMQTTStatus ≠ .running →
      (cloudRun (cloudBoot ticks stored) (pre ++ [e])).gMQTTStatus = .running →
        HandshakeDone (cloudRun (cloudBoot ticks stored) (pre ++ [e])).obs := by
  intro h
  obtain ⟨a, b, c, -, hs⟩ := h 0 true (logsIn ++ [takesUp [0x90, 3, 0, 0, 0],
    takesUp [0x90, 3, 0, 1, 0], takesUp [0x90, 3, 0, 2, 0]]) (takesUp [0x90, 3, 0, 3, 0])
    (by decide +kernel) (by decide +kernel)
  exact absurd (hs.subset List.mem_cons_self) (by decide +kernel)

end GizwitsSdk
