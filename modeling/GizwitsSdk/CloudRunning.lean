import GizwitsSdk.CloudSteps

/-!
# Running on a live connection

The status of MQTT goes up only by packets of the present connection and is put
back when the next connection is made. The heartbeat timer closes the connection
and leaves the status alone: from then on, until the next login, a report goes
to no socket, or to one on which nobody has logged in.
-/

namespace GizwitsSdk

/-- The status tells the truth, and every publication went to a live connection. -/
def RunningLive (s : CloudSt) : Prop :=
  (s.gMQTTStatus = .running → LiveConnection s) ∧ ∀ p ∈ s.published, p.live = true

/-- The timer does not take down a connection that is running. -/
def HbOk (s : CloudSt) : CloudEv → Prop
  | .hbTimer => 0 ≤ s.socketid → hbExpired s → s.gMQTTStatus ≠ .running
  | _ => True

structure RunningInv (s : CloudSt) : Prop where
  sockets : Sockets s
  connected : s.gConCloudStatus = .running → s.socketid ≠ -1
  running : s.gMQTTStatus = .running → s.gConCloudStatus = .running ∧ .intoRunning ∈ s.obs
  published : ∀ p ∈ s.published, p.live = true

section
variable {s s' : CloudSt}

theorem RunningInv.live (h : RunningInv s) (hs : s.gMQTTStatus = .running) : LiveConnection s := by
  obtain ⟨hc, ho⟩ := h.running hs
  have hne := h.connected hc
  exact ⟨hne, (h.sockets.mqtt.resolve_left hne).2, ho⟩

theorem RunningInv.runningLive (h : RunningInv s) : RunningLive s := ⟨h.live, h.published⟩

theorem RunningInv.publish (h : RunningInv s) : RunningInv (mcuSendPublish s) := by
  unfold mcuSendPublish
  split
  · rename_i hs
    refine ⟨⟨h.sockets.mqtt, h.sockets.http⟩, h.connected, h.running, ?_⟩
    intro p hp
    rcases List.mem_cons.mp hp with rfl | hp
    · exact decide_eq_true (h.live hs)
    · exact h.published p hp
  · exact h

theorem RunningInv.http (h : RunningInv s) (hm : HttpMove s s') : RunningInv s' := by
  refine ⟨hm.sockets h.sockets, fun hc => absurd hc hm.con.2.1, ?_, ?_⟩
  · intro hs
    exact absurd (h.running (hm.gMQTTStatus ▸ hs)).1 hm.con.1
  · rw [hm.published]
    exact h.published

theorem RunningInv.login (h : RunningInv s) (hc : s.gConCloudStatus = .reqLogin)
    (hm : LoginMove s s') : RunningInv s' := by
  cases hm with
  | failed con status published did counters sockets =>
    refine ⟨sockets h.sockets, ?_, ?_, published ▸ h.published⟩
    · rw [con, hc]
      exact fun h => by cases h
    · intro hs
      rw [status] at hs
      rw [(h.running hs).1] at hc
      cases hc
  | connected con status obs published did counters socketid sockets =>
    refine ⟨sockets h.sockets, fun _ => socketid, ?_, published ▸ h.published⟩
    rw [status]
    exact fun h => by cases h

theorem RunningInv.subLoginTopic (h : RunningInv s) (hc : s.gConCloudStatus = .running) (send : Bool) :
    RunningInv (mqttSubLoginTopic send s) := by
  have hsub (next : MqttStatus) (hn : next ≠ .running) (hs : s.gMQTTStatus ≠ .running) :
      RunningInv (subscribeTopic send next s) := by
    unfold subscribeTopic
    cases send with
    | true =>
      exact ⟨⟨h.sockets.mqtt, h.sockets.http⟩, h.connected, fun h => absurd h hn, h.published⟩
    | false =>
      exact ⟨⟨h.sockets.mqtt, h.sockets.http⟩, h.connected, fun h => absurd h hs, h.published⟩
  unfold mqttSubLoginTopic
  cases hs : s.gMQTTStatus with
  | login => exact hsub _ (by decide) (by rw [hs]; decide)
  | loginTopic1 => exact hsub _ (by decide) (by rw [hs]; decide)
  | loginTopic2 => exact hsub _ (by decide) (by rw [hs]; decide)
  | loginTopic3 =>
    exact ⟨⟨h.sockets.mqtt, h.sockets.http⟩, h.connected,
      fun _ => ⟨hc, List.mem_append_right _ (List.mem_singleton_self _)⟩, h.published⟩
  | start => exact h
  | running => exact h

theorem RunningInv.observed (h : RunningInv s) (os : List MqttObs) :
    RunningInv { cloudHBStatusInit s with obs := s.obs ++ os } := by
  refine ⟨⟨h.sockets.mqtt, h.sockets.http⟩, h.connected, fun hs => ?_, h.published⟩
  obtain ⟨hc, ho⟩ := h.running hs
  exact ⟨hc, List.mem_append_left _ ho⟩

theorem RunningInv.hbInit (h : RunningInv s) : RunningInv (cloudHBStatusInit s) :=
  ⟨⟨h.sockets.mqtt, h.sockets.http⟩, h.connected, h.running, h.published⟩

theorem RunningInv.dispatch (h : RunningInv s) (buf : List UInt8) :
    RunningInv (mqttDispatchPublishPacket buf s) := by
  have hd (n : Nat) : RunningInv (if s.dIdLen = 0 then { s with dIdLen := n } else s) := by
    split
    · exact ⟨⟨h.sockets.mqtt, h.sockets.http⟩, h.connected, h.running, h.published⟩
    · exact h
  unfold mqttDispatchPublishPacket
  simp only
  split
  · split
    · split
      · exact (hd _).publish
      · exact hd _
    · exact hd _
  · exact h

theorem RunningInv.handled {env : CloudEnv} (h : RunningInv s) (hc : s.gConCloudStatus = .running)
    (hm : Handled env s s') : RunningInv s' := by
  cases hm with
  | nothing => exact h
  | quiet => exact h.hbInit
  | passedOver o _ => exact h.observed [o]
  | refused code hs =>
    refine ⟨⟨h.sockets.mqtt, h.sockets.http⟩, ?_, ?_, h.published⟩
    · exact fun h => by cases h
    · intro hr
      exact absurd (hs.symm.trans hr) (by decide)
  | accepted _ => exact (h.observed _).subLoginTopic hc _
  | acked buf _ _ _ => exact (h.observed _).subLoginTopic hc _
  | publication buf _ => exact h.hbInit.dispatch buf

theorem RunningInv.timer (h : RunningInv s) (hok : HbOk s .hbTimer) : RunningInv (cloudMqttHBTimer s) := by
  have hm := cloudMqttHBTimer_cases s
  generalize cloudMqttHBTimer s = s' at hm ⊢
  cases hm with
  | noSocket _ => exact h
  | counted p l hid hx hc hlt =>
    exact ⟨⟨h.sockets.mqtt, h.sockets.http⟩, h.connected, h.running, h.published⟩
  | tornDown hid hx =>
    have hk := h.sockets.closeMqtt
    refine ⟨⟨hk.mqtt, hk.http⟩, ?_, ?_, h.published⟩
    · exact fun h => by cases h
    · exact fun hr => absurd hr (hok hid hx)

theorem RunningInv.step (h : RunningInv s) (e : CloudEv) (hok : HbOk s e) :
    RunningInv (cloudStep s e) := by
  cases e with
  | loginCloud env =>
    show RunningInv (gAgentLoginCloud env s)
    have hm := gAgentLoginCloud_cases env s
    generalize gAgentLoginCloud env s = s' at hm ⊢
    cases hm with
    | stay => exact h
    | http hm => exact h.http hm
    | login hc hm => exact h.login hc hm
    | timeout hc hs =>
      refine ⟨⟨h.sockets.mqtt, h.sockets.http⟩, ?_, ?_, h.published⟩
      · exact fun h => by cases h
      · intro hr
        exact absurd (hs.symm.trans hr) (by decide)
    | packet hc _ _ hm => exact h.handled hc hm
  | hbTimer => exact h.timer hok
  | report => exact h.publish
  | elapse ticks => exact ⟨⟨h.sockets.mqtt, h.sockets.http⟩, h.connected, h.running, h.published⟩

/-- The step that is left out breaks the rule at once. -/
theorem hbOk_of_live (e : CloudEv) (hl : RunningLive (cloudStep s e)) : HbOk s e := by
  cases e with
  | hbTimer =>
    intro h0 hx hs
    have hm := cloudMqttHBTimer_cases s
    change RunningLive (cloudMqttHBTimer s) at hl
    generalize cloudMqttHBTimer s = s' at hm hl
    cases hm with
    | noSocket hn => omega
    | counted p l hid hnx hc hlt => exact hnx hx
    | tornDown hid _ => exact (hl.1 hs).1 rfl
  | loginCloud env => trivial
  | report => trivial
  | elapse ticks => trivial

end

theorem cloudBoot_runningInv (ticks : UInt32) (stored : Bool) : RunningInv (cloudBoot ticks stored) := by
  have h0 : ¬ (0 : Int) < 0 := by decide
  refine ⟨⟨.inl rfl, fun h => absurd h h0⟩, ?_, ?_, ?_⟩
  · cases stored <;> exact fun h => by cases h
  · exact fun h => by cases h
  · exact fun _ h => by cases h

/-- **Running.** In every state of a run the status tells the truth and reports
have gone to live connections, exactly when the timer never takes down a
connection whose status is running. -/
theorem running_live_iff (ticks : UInt32) (stored : Bool) (es : List CloudEv) :
    (∀ pre, pre <+: es → RunningLive (cloudRun (cloudBoot ticks stored) pre)) ↔
      ∀ pre e, pre ++ [e] <+: es → HbOk (cloudRun (cloudBoot ticks stored) pre) e := by
  apply Lib.meets_iff (cloudBoot_runningInv ticks stored)
  · exact fun s h => h.runningLive
  · exact fun s e h hok => h.step e hok
  · exact fun s e _ hl => hbOk_of_live e hl

/-- Two minutes of silence on a connection that runs: the report that follows
goes to socket -1. -/
theorem running_live_silence :
    ¬ ∀ (ticks : UInt32) (stored : Bool) (es : List CloudEv) (pre : List CloudEv), pre <+: es →
      RunningLive (cloudRun (cloudBoot ticks stored) pre) := by
  intro h
  have hs := h 0 true ([.elapse 100, .loginCloud { socket := 1 },
    .loginCloud { http := .reply { code := 200, did := false, domainPort := true } },
    .elapse 100, .loginCloud { socket := 2 }] ++
    [[0x20, 2, 0, 0], [0x90, 3, 0, 1, 0], [0x90, 3, 0, 2, 0], [0x90, 3, 0, 3, 0]].map
      (fun p => .loginCloud { mqtt := .data p }) ++
    List.replicate 120 .hbTimer ++ [.report]) _ (List.prefix_refl _)
  exact absurd (hs.2 { fd := -1, live := false } (by decide +kernel)) (by decide)

end GizwitsSdk
