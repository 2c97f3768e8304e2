import GizwitsSdk.CloudReach

/-!
# Time-outs of the login

The waits of the login compare seconds of the one tick counter, which the NTP
client sets and which wraps. Beside the machine stands what really happened: the
ticks since the request was sent, and what the corrections added to the counter.
-/

namespace GizwitsSdk

open Lib

structure Request where
  /-- the counter when the time stamp was taken -/
  stamp : UInt32
  /-- ticks from then to the sending -/
  before : UInt32
  /-- ticks since the sending -/
  elapsed : Nat
  /-- what the corrections since the stamp add to the counter -/
  jump : UInt32

structure TimedSt where
  cloud : CloudSt
  req : Request

/-- The state of the login is one that waits, for as many seconds at most. -/
def waitLimit (s : CloudSt) : Option UInt32 :=
  match s.gConCloudStatus with
  | .reqDidAck => some 60
  | .reqM2minfoAck => some 60
  | .running => if s.gMQTTStatus = .login then some 300 else none
  | .invalid => none
  | .reqDid => none
  | .reqM2minfo => none
  | .reqLogin => none

/-! ## Steps -/

def modifyLocalTime (tvSec : UInt32) (s : TimedSt) : TimedSt :=
  let ticks := (tvSec - 1417305600) * 100
  { cloud := { s.cloud with ticks }, req := { s.req with jump := s.req.jump + (ticks - s.cloud.ticks) } }

def elapse (ticks : UInt32) (s : TimedSt) : TimedSt :=
  { cloud := { s.cloud with ticks := s.cloud.ticks + ticks }
    req := { s.req with elapsed := s.req.elapsed + ticks.toNat } }

def httpSent (s s' : CloudSt) : Prop :=
  s.gConCloudStatus = .reqDid ∧ s'.gConCloudStatus = .reqDidAck ∨
    s.gConCloudStatus = .reqM2minfo ∧ s'.gConCloudStatus = .reqM2minfoAck

instance (s s' : CloudSt) : Decidable (httpSent s s') := inferInstanceAs (Decidable (_ ∨ _))

/-- `GAgent_Login_Cloud`. A login takes its time stamp first and spends the
ticks after it, an HTTP request the other way round. -/
def timedLogin (env : CloudEnv) (s : TimedSt) : TimedSt :=
  let c := gAgentLoginCloud env s.cloud
  if s.cloud.gConCloudStatus = .reqLogin ∧ c.gConCloudStatus = .running then
    { cloud := { c with ticks := c.ticks + env.spent }
      req := { stamp := s.cloud.ticks, before := env.spent, elapsed := 0, jump := 0 } }
  else if httpSent s.cloud c then
    { cloud := c, req := { stamp := c.ticks, before := 0, elapsed := 0, jump := 0 } }
  else { cloud := c, req := { s.req with elapsed := s.req.elapsed + (c.ticks - s.cloud.ticks).toNat } }

inductive TimedEv
  | loginCloud (env : CloudEnv)
  | elapse (ticks : UInt32)
  | ntp (tvSec : UInt32)

def timedStep (s : TimedSt) : TimedEv → TimedSt
  | .loginCloud env => timedLogin env s
  | .elapse ticks => elapse ticks s
  | .ntp tvSec => modifyLocalTime tvSec s

def timedBoot (ticks : UInt32) (stored : Bool) : TimedSt where
  cloud := cloudBoot ticks stored
  req := { stamp := ticks, before := 0, elapsed := 0, jump := 0 }

/-! ## The time-outs -/

def timedOut (s : CloudSt) : Prop :=
  if s.gConCloudStatus = .running then connectTimeout s else 60 ≤ nl6621GetTimeS s - s.send2HttpLastTime

def leaves (env : CloudEnv) (s : CloudSt) : Prop :=
  (gAgentLoginCloud env s).gConCloudStatus ≠ s.gConCloudStatus ∨
    (gAgentLoginCloud env s).gMQTTStatus ≠ s.gMQTTStatus

instance (s : CloudSt) : Decidable (timedOut s) := inferInstanceAs (Decidable (ite _ _ _))

instance (env : CloudEnv) (s : CloudSt) : Decidable (leaves env s) := inferInstanceAs (Decidable (_ ∨ _))

/-- As many seconds' worth of ticks have passed since the request was sent. -/
def due (limit : UInt32) (r : Request) : Prop := 100 * limit.toNat ≤ r.elapsed

instance (limit : UInt32) (r : Request) : Decidable (due limit r) := inferInstanceAs (Decidable (_ ≤ _))

/-- A step in a waiting state leaves it by the time-out only when that is due,
and leaves it when it is. -/
def LeftInTime (s : TimedSt) : TimedEv → Prop
  | .loginCloud env => ∀ limit, waitLimit s.cloud = some limit →
    (env.station = true ∧ timedOut s.cloud ∧ leaves env s.cloud → due limit s.req) ∧
      (due limit s.req → leaves env s.cloud)
  | .elapse _ => True
  | .ntp _ => True

/-- The seconds that the counter shows since the stamp reach the limit. -/
def shown (limit : UInt32) (r : Request) : Prop :=
  limit ≤ (r.stamp + r.before + .ofNat r.elapsed + r.jump) / 100 - r.stamp / 100

def httpAnswered (env : CloudEnv) (good : HttpReply → Bool) : Prop :=
  ∃ r, env.http = .reply r ∧ good r = true

/-- A packet comes that moves the login on or ends it. -/
def loginAnswered (env : CloudEnv) (s : CloudSt) : Prop :=
  ∃ buf, packetTakenUp env.mqtt s = some buf ∧
    (mqttParseMessageType buf = 0x20 ∧ (buf.getD 3 0 ≠ 0 ∨ env.send = true) ∨
      mqttParseMessageType buf = 0x90 ∧ s.gMsgsubId = (mqttParseMsgId buf).toUInt16 ∧ env.send = true)

/-- The counter shows the limit no earlier than it is due, and from then on the
state is left: by the counter, an answer or a lost socket. The wait for a DID
knows no time-out. -/
def clockTrue (s : TimedSt) : TimedEv → Prop
  | .loginCloud env =>
    match s.cloud.gConCloudStatus with
    | .reqDidAck => due 60 s.req → env.station = true ∧ ¬ shown 60 s.req ∧ 0 < s.cloud.httpSocketid ∧
        httpAnswered env fun r => r.code = 201 ∧ r.did
    | .reqM2minfoAck =>
      (env.station = true ∧ shown 60 s.req → due 60 s.req) ∧
        (due 60 s.req → env.station = true ∧ (shown 60 s.req ∨ s.cloud.httpSocketid ≤ 0 ∨
          httpAnswered env fun r => r.code = 200 ∧ r.domainPort))
    | .running => s.cloud.gMQTTStatus = .login →
      (env.station = true ∧ shown 300 s.req → due 300 s.req) ∧
        (due 300 s.req → env.station = true ∧ (shown 300 s.req ∨ loginAnswered env s.cloud))
    | .invalid => True
    | .reqDid => True
    | .reqM2minfo => True
    | .reqLogin => True
  | .elapse _ => True
  | .ntp _ => True

/-! ## What the counter shows -/

/-- The counter and the stamps, from what really happened. -/
structure ClockInv (s : TimedSt) : Prop where
  ticks : s.cloud.ticks = s.req.stamp + s.req.before + .ofNat s.req.elapsed + s.req.jump
  http : s.cloud.gConCloudStatus = .reqDidAck ∨ s.cloud.gConCloudStatus = .reqM2minfoAck →
    s.cloud.send2HttpLastTime = s.req.stamp / 100
  login : s.cloud.gConCloudStatus = .running ∧ s.cloud.gMQTTStatus = .login →
    s.cloud.connect2CloudLastTime = s.req.stamp / 100

/-- Without a correction and without a wrap the counter is never late, and early
by no more than the ticks before the sending. -/
theorem shown_iff {limit : UInt32} {r : Request} (hj : r.jump = 0)
    (hw : r.stamp.toNat + r.before.toNat + r.elapsed < 4294967296) :
    shown limit r ↔ 100 * limit.toNat ≤ r.stamp.toNat % 100 + r.before.toNat + r.elapsed := by
  have he : (UInt32.ofNat r.elapsed).toNat = r.elapsed := UInt32.toNat_ofNat_of_lt' (by
    show r.elapsed < 4294967296
    omega)
  have hsum : (r.stamp + r.before + .ofNat r.elapsed + r.jump).toNat =
      r.stamp.toNat + r.before.toNat + r.elapsed := by
    rw [hj, UInt32.add_zero, UInt32.toNat_add, UInt32.toNat_add, he]
    omega
  unfold shown
  have h100 : (100 : UInt32).toNat = 100 := rfl
  have hle : r.stamp / 100 ≤ (r.stamp + r.before + .ofNat r.elapsed + r.jump) / 100 := by
    rw [UInt32.le_iff_toNat_le, UInt32.toNat_div, UInt32.toNat_div, hsum, h100]
    omega
  rw [UInt32.le_iff_toNat_le, UInt32.toNat_sub_of_le _ _ hle, UInt32.toNat_div, UInt32.toNat_div, hsum, h100]
  omega

section
variable {s : TimedSt}

theorem shown_http (h : ClockInv s)
    (hc : s.cloud.gConCloudStatus = .reqDidAck ∨ s.cloud.gConCloudStatus = .reqM2minfoAck) (limit : UInt32) :
    limit ≤ nl6621GetTimeS s.cloud - s.cloud.send2HttpLastTime ↔ shown limit s.req := by
  unfold shown nl6621GetTimeS
  rw [h.ticks, h.http hc]

theorem shown_login (h : ClockInv s) (hc : s.cloud.gConCloudStatus = .running)
    (hl : s.cloud.gMQTTStatus = .login) (limit : UInt32) :
    limit ≤ nl6621GetTimeS s.cloud - s.cloud.connect2CloudLastTime ↔ shown limit s.req := by
  unfold shown nl6621GetTimeS
  rw [h.ticks, h.login ⟨hc, hl⟩]

end

/-! ## Time stamps over a step -/

inductive Stamped (s : CloudSt) : CloudSt → Prop
  | connected {c} (hs : s.gConCloudStatus = .reqLogin) (hc : c.gConCloudStatus = .running)
      (ht : c.connect2CloudLastTime = s.ticks / 100) (hk : c.ticks = s.ticks) : Stamped s c
  | sent {c} (h : httpSent s c) (ht : c.send2HttpLastTime = c.ticks / 100) : Stamped s c
  | other {c} (http : c.gConCloudStatus = .reqDidAck ∨ c.gConCloudStatus = .reqM2minfoAck →
        c.gConCloudStatus = s.gConCloudStatus ∧ c.send2HttpLastTime = s.send2HttpLastTime)
      (run : c.gConCloudStatus = .running → s.gConCloudStatus = .running ∧
        c.connect2CloudLastTime = s.connect2CloudLastTime ∧ (c.gMQTTStatus = .login → s.gMQTTStatus = .login)) :
      Stamped s c

section
variable {env : CloudEnv} {s : CloudSt}

theorem Stamped.same (s : CloudSt) : Stamped s s := .other (fun _ => ⟨rfl, rfl⟩) fun h => ⟨h, rfl, id⟩

theorem Stamped.idle {c : CloudSt} {st : ConCloud} (hc : c.gConCloudStatus = st)
    (h : st ≠ .reqDidAck ∧ st ≠ .reqM2minfoAck ∧ st ≠ .running) : Stamped s c := by
  refine .other ?_ fun hr => absurd (hc.symm.trans hr) h.2.2
  rintro (hr | hr)
  · exact absurd (hc.symm.trans hr) h.1
  · exact absurd (hc.symm.trans hr) h.2.1

theorem requested_stamped {next : ConCloud} {r : Bool × CloudSt} (hr : r.2.gConCloudStatus = s.gConCloudStatus)
    (h : s.gConCloudStatus = .reqDid ∧ next = .reqDidAck ∨
      s.gConCloudStatus = .reqM2minfo ∧ next = .reqM2minfoAck) : Stamped s (requested env next r) := by
  unfold requested
  dsimp only
  split
  · exact .sent h rfl
  · refine .idle hr ?_
    rcases h with ⟨h, -⟩ | ⟨h, -⟩ <;> rw [h] <;> decide

theorem reqDidCase_stamped (hc : s.gConCloudStatus = .reqDid) : Stamped s (reqDidCase env s) := by
  unfold reqDidCase
  split
  · exact .same s
  · refine requested_stamped ?_ (.inl ⟨hc, rfl⟩)
    unfold mqttRegister2Server
    generalize hi : httpInitSocket env { s with connect2CloudLastTime := nl6621GetTimeS s } = q
    obtain ⟨ok, s₁⟩ := q
    obtain ⟨fds, i, rfl, -⟩ := httpInitSocket_frame ok hi
    rfl

theorem reqM2minfoCase_stamped (hc : s.gConCloudStatus = .reqM2minfo) : Stamped s (reqM2minfoCase env s) := by
  unfold reqM2minfoCase
  split
  · exact .same s
  · refine requested_stamped ?_ (.inr ⟨hc, rfl⟩)
    unfold httpSentProvision
    split
    · rfl
    · generalize hi : httpInitSocket env { s with connect2CloudLastTime := nl6621GetTimeS s } = q
      obtain ⟨ok, s₁⟩ := q
      obtain ⟨fds, i, rfl, -⟩ := httpInitSocket_frame ok hi
      rfl

theorem httpReadSocket_stamped (hw : ¬ waitOver s) {o : Option HttpReply} {s₁ : CloudSt}
    (hr : httpReadSocket env s = (o, s₁)) : Stamped s s₁ := by
  obtain ⟨fds, i, rfl, -⟩ := httpReadSocket_frame (waitOver_pos hw) hr
  exact .other (fun _ => ⟨rfl, rfl⟩) fun h => ⟨h, rfl, id⟩

theorem reqDidAckCase_stamped (hc : s.gConCloudStatus = .reqDidAck) : Stamped s (reqDidAckCase env s) := by
  unfold reqDidAckCase
  split
  · exact .other (fun _ => ⟨hc.symm, rfl⟩) fun h => nomatch h
  · next hw =>
    generalize hr : httpReadSocket env s = q
    obtain ⟨o, s₁⟩ := q
    have hs := httpReadSocket_stamped hw hr
    cases o with
    | none => exact hs
    | some r =>
      simp only
      split
      · exact @Stamped.idle _ _ .reqM2minfo rfl (by decide)
      · exact hs

theorem reqM2minfoAckCase_stamped : Stamped s (reqM2minfoAckCase env s) := by
  unfold reqM2minfoAckCase
  split
  · exact @Stamped.idle _ _ .reqM2minfo rfl (by decide)
  · next hw =>
    generalize hr : httpReadSocket env s = q
    obtain ⟨o, s₁⟩ := q
    have hs := httpReadSocket_stamped hw hr
    cases o with
    | none => exact hs
    | some r =>
      simp only
      split
      · exact @Stamped.idle _ _ .reqLogin rfl (by decide)
      · exact hs

theorem reqLoginCase_stamped (hc : s.gConCloudStatus = .reqLogin) : Stamped s (reqLoginCase env s) := by
  unfold reqLoginCase
  split
  · exact .same s
  · unfold mqttLogin2Server
    generalize hi : cloudMQTTInitSocket env
      { s with connect2CloudLastTime := nl6621GetTimeS s, seq := 1 } = q
    obtain ⟨ok, s₁⟩ := q
    obtain ⟨i, fds, o, rfl, -, -⟩ := cloudMQTTInitSocket_frame hi
    simp only
    cases ok && env.send with
    | true => exact .connected hc rfl rfl rfl
    | false => exact .idle hc (by decide)

theorem dispatchPublish_login (buf : List UInt8) (s : CloudSt) :
    (mqttDispatchPublishPacket buf s).connect2CloudLastTime = s.connect2CloudLastTime ∧
      (mqttDispatchPublishPacket buf s).gMQTTStatus = s.gMQTTStatus := by
  have hp (t : CloudSt) : (mcuSendPublish t).connect2CloudLastTime = t.connect2CloudLastTime ∧
      (mcuSendPublish t).gMQTTStatus = t.gMQTTStatus := by
    unfold mcuSendPublish
    split <;> exact ⟨rfl, rfl⟩
  have hd (n : Nat) :
      (if s.dIdLen = 0 then { s with dIdLen := n } else s).connect2CloudLastTime = s.connect2CloudLastTime ∧
        (if s.dIdLen = 0 then { s with dIdLen := n } else s).gMQTTStatus = s.gMQTTStatus := by
    split <;> exact ⟨rfl, rfl⟩
  unfold mqttDispatchPublishPacket
  simp only
  split
  · split
    · split
      · exact ⟨(hp _).1.trans (hd _).1, (hp _).2.trans (hd _).2⟩
      · exact hd _
    · exact hd _
  · exact ⟨rfl, rfl⟩

/-- A packet leaves the time stamp alone and does not lead back to the beginning of the login. -/
theorem Handled.login {s' : CloudSt} (h : Handled env s s') :
    s'.connect2CloudLastTime = s.connect2CloudLastTime ∧ (s'.gMQTTStatus = .login → s.gMQTTStatus = .login) := by
  have hsub (t : CloudSt) : (mqttSubLoginTopic env.send t).connect2CloudLastTime = t.connect2CloudLastTime ∧
      ((mqttSubLoginTopic env.send t).gMQTTStatus = .login → t.gMQTTStatus = .login) := by
    unfold mqttSubLoginTopic
    cases ht : t.gMQTTStatus with
    | login =>
      unfold subscribeTopic
      cases env.send <;> exact ⟨rfl, fun _ => rfl⟩
    | loginTopic1 =>
      unfold subscribeTopic
      cases env.send
      · exact ⟨rfl, fun h => absurd (ht.symm.trans h) (by decide)⟩
      · exact ⟨rfl, fun h => nomatch h⟩
    | loginTopic2 =>
      unfold subscribeTopic
      cases env.send
      · exact ⟨rfl, fun h => absurd (ht.symm.trans h) (by decide)⟩
      · exact ⟨rfl, fun h => nomatch h⟩
    | loginTopic3 => exact ⟨rfl, fun h => nomatch h⟩
    | start => exact ⟨rfl, fun h => absurd (ht.symm.trans h) (by decide)⟩
    | running => exact ⟨rfl, fun h => absurd (ht.symm.trans h) (by decide)⟩
  cases h with
  | nothing => exact ⟨rfl, id⟩
  | quiet => exact ⟨rfl, id⟩
  | passedOver o ho => exact ⟨rfl, id⟩
  | refused code hs => exact ⟨rfl, id⟩
  | accepted hs => exact ⟨(hsub _).1, fun _ => hs⟩
  | acked buf hb ht hm => exact ⟨(hsub _).1, (hsub _).2⟩
  | publication buf hs =>
    obtain ⟨h, hm⟩ := dispatchPublish_login buf (cloudHBStatusInit s)
    exact ⟨h, fun hl => absurd (hs.symm.trans (hm.symm.trans hl)) (by decide)⟩

theorem runningCase_stamped (hc : s.gConCloudStatus = .running) : Stamped s (runningCase env s) := by
  unfold runningCase
  split
  · exact @Stamped.idle _ _ .reqLogin rfl (by decide)
  · have h := handlePacket_handled env s
    refine .other ?_ fun _ => ⟨hc, h.login⟩
    rcases h.frame.con with hk | hk
    · rw [hk, hc]
      rintro (h | h) <;> cases h
    · rw [hk]
      rintro (h | h) <;> cases h

theorem gAgentLoginCloud_stamped (env : CloudEnv) (s : CloudSt) : Stamped s (gAgentLoginCloud env s) := by
  cases hst : env.station with
  | false =>
    unfold gAgentLoginCloud
    rw [hst]
    exact .same s
  | true =>
    cases hc : s.gConCloudStatus with
    | invalid =>
      unfold gAgentLoginCloud
      rw [hst, hc]
      exact .same s
    | reqDid => exact login_reqDid hst hc ▸ reqDidCase_stamped hc
    | reqDidAck => exact login_reqDidAck hst hc ▸ reqDidAckCase_stamped hc
    | reqM2minfo => exact login_reqM2minfo hst hc ▸ reqM2minfoCase_stamped hc
    | reqM2minfoAck => exact login_reqM2minfoAck hst hc ▸ reqM2minfoAckCase_stamped
    | reqLogin => exact login_reqLogin hst hc ▸ reqLoginCase_stamped hc
    | running => exact login_running hst hc ▸ runningCase_stamped hc

end

/-! ## The invariant over a run -/

section
variable {s : TimedSt}

theorem counter_sent (stamp before : UInt32) : stamp + before + .ofNat 0 + 0 = stamp + before := by simp

theorem elapse_clock (ticks : UInt32) (h : ClockInv s) : ClockInv (elapse ticks s) := by
  refine ⟨?_, h.http, h.login⟩
  show s.cloud.ticks + ticks = s.req.stamp + s.req.before + .ofNat (s.req.elapsed + ticks.toNat) + s.req.jump
  rw [h.ticks, UInt32.ofNat_add, UInt32.ofNat_toNat]
  ac_rfl

theorem modifyLocalTime_clock (tvSec : UInt32) (h : ClockInv s) : ClockInv (modifyLocalTime tvSec s) := by
  refine ⟨?_, h.http, h.login⟩
  show (tvSec - 1417305600) * 100 = s.req.stamp + s.req.before + .ofNat s.req.elapsed +
    (s.req.jump + ((tvSec - 1417305600) * 100 - s.cloud.ticks))
  rw [← UInt32.add_assoc, ← h.ticks, UInt32.add_comm, UInt32.sub_add_cancel]

theorem timedLogin_clock (env : CloudEnv) (h : ClockInv s) : ClockInv (timedLogin env s) := by
  have hst := gAgentLoginCloud_stamped env s.cloud
  unfold timedLogin
  dsimp only
  generalize gAgentLoginCloud env s.cloud = c at hst
  cases hst with
  | connected hs hc ht hk =>
    rw [if_pos ⟨hs, hc⟩]
    refine ⟨?_, ?_, fun _ => ht⟩
    · show c.ticks + env.spent = s.cloud.ticks + env.spent + .ofNat 0 + 0
      rw [hk, counter_sent]
    · rintro (hr | hr) <;> exact absurd (hc.symm.trans hr) (by decide)
  | sent hr ht =>
    rw [if_neg (fun hn => by rcases hr with ⟨hr, -⟩ | ⟨hr, -⟩ <;> exact absurd (hn.1.symm.trans hr) (by decide)),
      if_pos hr]
    refine ⟨?_, fun _ => ht, ?_⟩
    · show c.ticks = c.ticks + 0 + .ofNat 0 + 0
      rw [counter_sent, UInt32.add_zero]
    · rintro ⟨hn, -⟩
      rcases hr with ⟨-, hr⟩ | ⟨-, hr⟩ <;> exact absurd (hn.symm.trans hr) (by decide)
  | other http run =>
    have h1 : ¬ (s.cloud.gConCloudStatus = .reqLogin ∧ c.gConCloudStatus = .running) := by
      rintro ⟨hs, hc⟩
      exact absurd (hs.symm.trans (run hc).1) (by decide)
    have h2 : ¬ httpSent s.cloud c := by
      rintro (⟨hs, hc⟩ | ⟨hs, hc⟩)
      · exact absurd (hs.symm.trans ((http (.inl hc)).1.symm.trans hc)) (by decide)
      · exact absurd (hs.symm.trans ((http (.inr hc)).1.symm.trans hc)) (by decide)
    rw [if_neg h1, if_neg h2]
    refine ⟨?_, fun hc => ?_, fun ⟨hc, hl⟩ => ?_⟩
    · show c.ticks = s.req.stamp + s.req.before + .ofNat (s.req.elapsed + (c.ticks - s.cloud.ticks).toNat) +
        s.req.jump
      calc c.ticks = s.cloud.ticks + (c.ticks - s.cloud.ticks) := by
            rw [UInt32.add_comm, UInt32.sub_add_cancel]
        _ = s.req.stamp + s.req.before + .ofNat s.req.elapsed + s.req.jump + (c.ticks - s.cloud.ticks) := by
            rw [← h.ticks]
        _ = _ := by
            rw [UInt32.ofNat_add, UInt32.ofNat_toNat]
            ac_rfl
    · obtain ⟨hs, ht⟩ := http hc
      exact ht.trans (h.http (hs ▸ hc))
    · obtain ⟨hs, ht, hm⟩ := run hc
      exact ht.trans (h.login ⟨hs, hm hl⟩)

theorem timedStep_clock (e : TimedEv) (h : ClockInv s) : ClockInv (timedStep s e) := by
  cases e with
  | loginCloud env => exact timedLogin_clock env h
  | elapse ticks => exact elapse_clock ticks h
  | ntp tvSec => exact modifyLocalTime_clock tvSec h

theorem timedBoot_clock (ticks : UInt32) (stored : Bool) : ClockInv (timedBoot ticks stored) := by
  refine ⟨?_, ?_, ?_⟩
  · show ticks = ticks + 0 + .ofNat 0 + 0
    rw [counter_sent, UInt32.add_zero]
  · cases stored <;> rintro (h | h) <;> cases h
  · cases stored <;> rintro ⟨h, -⟩ <;> cases h

end

/-! ## When a state is left -/

section
variable {env : CloudEnv} {s : CloudSt}

theorem not_leaves_off (h : env.station = false) : ¬ leaves env s := by
  unfold leaves gAgentLoginCloud
  rw [h]
  rintro (h | h) <;> exact h rfl

theorem leaves_reqDidAck (hst : env.station = true) (hc : s.gConCloudStatus = .reqDidAck) :
    leaves env s ↔ ¬ waitOver s ∧ httpAnswered env fun r => r.code = 201 ∧ r.did := by
  unfold leaves
  rw [login_reqDidAck hst hc]
  unfold reqDidAckCase
  by_cases hw : waitOver s
  · rw [if_pos hw]
    exact ⟨fun h => absurd h (by simp [hc]), fun h => absurd hw h.1⟩
  · rw [if_neg hw]
    unfold httpReadSocket httpAnswered
    cases hr : env.http with
    | reply r =>
      by_cases hg : r.code = 201 ∧ r.did = true
      · simp [hw, hg, hc]
      · simp [hw, hg]
    | selectError => simp
    | notReady => simp
    | closed => simp [closeCloud]

theorem leaves_reqM2minfoAck (hst : env.station = true) (hc : s.gConCloudStatus = .reqM2minfoAck) :
    leaves env s ↔ waitOver s ∨ httpAnswered env fun r => r.code = 200 ∧ r.domainPort := by
  unfold leaves
  rw [login_reqM2minfoAck hst hc]
  unfold reqM2minfoAckCase
  by_cases hw : waitOver s
  · rw [if_pos hw]
    simp [hw, hc]
  · rw [if_neg hw]
    unfold httpReadSocket httpAnswered
    cases hr : env.http with
    | reply r =>
      by_cases hg : r.code = 200 ∧ r.domainPort = true
      · simp [hg, hc]
      · simp [hw, hg]
    | selectError => simp [hw]
    | notReady => simp [hw]
    | closed => simp [hw, closeCloud]

theorem subLoginTopic_leaves (send : Bool) {t : CloudSt} (hc : t.gConCloudStatus = .running)
    (hl : t.gMQTTStatus = .login) :
    (mqttSubLoginTopic send t).gConCloudStatus ≠ .running ∨ (mqttSubLoginTopic send t).gMQTTStatus ≠ .login ↔
      send = true := by
  unfold mqttSubLoginTopic
  rw [hl]
  dsimp only
  unfold subscribeTopic
  cases send <;> simp [hl, hc]

theorem connack_leaves (send : Bool) (buf : List UInt8) {t : CloudSt} (hc : t.gConCloudStatus = .running)
    (hl : t.gMQTTStatus = .login) :
    (mqttDoLogin send buf t).gConCloudStatus ≠ .running ∨ (mqttDoLogin send buf t).gMQTTStatus ≠ .login ↔
      buf.getD 3 0 ≠ 0 ∨ send = true := by
  unfold mqttDoLogin
  by_cases h0 : buf.getD 3 0 = 0
  · rw [if_neg (not_not.mpr h0)]
    exact (subLoginTopic_leaves send hc hl).trans (or_iff_right (not_not.mpr h0)).symm
  · rw [if_pos h0]
    exact ⟨fun _ => .inl h0, fun _ => .inl (ConCloud.noConfusion ·)⟩

theorem dispatchPacket_leaves (buf : List UInt8) (hc : s.gConCloudStatus = .running)
    (hl : s.gMQTTStatus = .login) :
    (dispatchPacket env.send buf (cloudHBStatusInit s)).gConCloudStatus ≠ s.gConCloudStatus ∨
        (dispatchPacket env.send buf (cloudHBStatusInit s)).gMQTTStatus ≠ s.gMQTTStatus ↔
      mqttParseMessageType buf = 0x20 ∧ (buf.getD 3 0 ≠ 0 ∨ env.send = true) ∨
        mqttParseMessageType buf = 0x90 ∧ s.gMsgsubId = (mqttParseMsgId buf).toUInt16 ∧ env.send = true := by
  have hco (o : List MqttObs) : ({ cloudHBStatusInit s with obs := o } : CloudSt).gConCloudStatus = .running := hc
  have hi (o : List MqttObs) : ({ cloudHBStatusInit s with obs := o } : CloudSt).gMQTTStatus = .login := hl
  have hstay {q : Prop} (hq : ¬ q) :
      s.gConCloudStatus ≠ .running ∨ s.gMQTTStatus ≠ .login ↔ q :=
    iff_of_false (fun h => h.elim (absurd hc) (absurd hl)) hq
  unfold dispatchPacket
  dsimp only
  rw [hl, hc]
  by_cases h20 : mqttParseMessageType buf = 0x20
  · have h90 : mqttParseMessageType buf ≠ 0x90 := by rw [h20]; decide
    rw [if_pos h20, if_pos (hi _)]
    have hleaves := connack_leaves env.send buf (hco (s.obs ++ [.connack (buf.getD 3 0)])) (hi _)
    refine hleaves.trans ?_
    exact ⟨fun h => .inl ⟨h20, h⟩, fun h => h.elim And.right fun h => absurd h.1 h90⟩
  · rw [if_neg h20]
    by_cases h90 : mqttParseMessageType buf = 0x90
    · rw [if_pos h90]
      by_cases hm : s.gMsgsubId = (mqttParseMsgId buf).toUInt16
      · rw [if_pos (show (cloudHBStatusInit s).gMsgsubId = _ from hm)]
        have hleaves := subLoginTopic_leaves env.send (hco (s.obs ++ [.suback (subackId buf)])) (hi _)
        refine hleaves.trans ?_
        exact ⟨fun h => .inr ⟨h90, hm, h⟩, fun h => h.elim (fun h => absurd h.1 h20) fun h => h.2.2⟩
      · rw [if_neg (show ¬ (cloudHBStatusInit s).gMsgsubId = _ from hm)]
        exact hstay fun h => h.elim (fun h => h20 h.1) fun h => hm h.2.1
    · have hr : (cloudHBStatusInit s).gMQTTStatus ≠ .running := by
        rw [show (cloudHBStatusInit s).gMQTTStatus = .login from hl]
        decide
      rw [if_neg h90, if_neg hr, ite_self]
      exact hstay fun h => h.elim (fun h => h20 h.1) fun h => h90 h.1

theorem leaves_running (hst : env.station = true) (hc : s.gConCloudStatus = .running)
    (hl : s.gMQTTStatus = .login) : leaves env s ↔ connectTimeout s ∨ loginAnswered env s := by
  unfold leaves
  rw [login_running hst hc]
  unfold runningCase
  by_cases ht : connectTimeout s
  · rw [if_pos ht]
    simp [ht, hc]
  · rw [if_neg ht]
    unfold handlePacket loginAnswered
    cases hb : packetTakenUp env.mqtt s with
    | none => simp [ht]
    | some buf =>
      simp only [ht, false_or, Option.some.injEq, exists_eq_left']
      exact dispatchPacket_leaves buf hc hl

end

/-! ## In time -/

section
variable {s : TimedSt}

theorem timedOut_http (h : ClockInv s)
    (hc : s.cloud.gConCloudStatus = .reqDidAck ∨ s.cloud.gConCloudStatus = .reqM2minfoAck) :
    timedOut s.cloud ↔ shown 60 s.req := by
  have hr : s.cloud.gConCloudStatus ≠ .running := by rcases hc with hc | hc <;> rw [hc] <;> decide
  unfold timedOut
  rw [if_neg hr]
  exact shown_http h hc 60

theorem waitOver_clock (h : ClockInv s)
    (hc : s.cloud.gConCloudStatus = .reqDidAck ∨ s.cloud.gConCloudStatus = .reqM2minfoAck) :
    waitOver s.cloud ↔ shown 60 s.req ∨ s.cloud.httpSocketid ≤ 0 := or_congr (shown_http h hc 60) .rfl

theorem inTime_iff {env : CloudEnv} {limit : UInt32} {answered : Prop} (hw : waitLimit s.cloud = some limit)
    (hout : timedOut s.cloud ↔ shown limit s.req)
    (hleave : env.station = true → (leaves env s.cloud ↔ shown limit s.req ∨ answered)) :
    LeftInTime s (.loginCloud env) ↔ (env.station = true ∧ shown limit s.req → due limit s.req) ∧
      (due limit s.req → env.station = true ∧ (shown limit s.req ∨ answered)) := by
  unfold LeftInTime
  rw [hw]
  simp only [Option.some.injEq, forall_eq']
  cases hst : env.station with
  | true =>
    have hl := hleave hst
    constructor
    · exact fun ⟨h1, h2⟩ => ⟨fun ⟨_, hs⟩ => h1 ⟨rfl, hout.mpr hs, hl.mpr (.inl hs)⟩,
        fun hd => ⟨rfl, hl.mp (h2 hd)⟩⟩
    · exact fun ⟨h1, h2⟩ => ⟨fun ⟨_, ho, _⟩ => h1 ⟨rfl, hout.mp ho⟩, fun hd => hl.mpr (h2 hd).2⟩
  | false =>
    have hn := not_leaves_off (s := s.cloud) hst
    constructor
    · exact fun ⟨_, h2⟩ => ⟨fun ⟨h, _⟩ => absurd h (by decide), fun hd => absurd (h2 hd) hn⟩
    · exact fun ⟨_, h2⟩ => ⟨fun ⟨h, _⟩ => absurd h (by decide), fun hd => absurd (h2 hd).1 (by decide)⟩

/-- The wait for a DID has no way out by the counter. -/
theorem inTime_reqDidAck {env : CloudEnv} (h : ClockInv s) (hc : s.cloud.gConCloudStatus = .reqDidAck) :
    LeftInTime s (.loginCloud env) ↔
      (due 60 s.req → env.station = true ∧ ¬ shown 60 s.req ∧ 0 < s.cloud.httpSocketid ∧
        httpAnswered env fun r => r.code = 201 ∧ r.did) := by
  have hw : waitLimit s.cloud = some 60 := by unfold waitLimit; rw [hc]
  have hover := waitOver_clock h (.inl hc)
  have hno : ¬ (env.station = true ∧ timedOut s.cloud ∧ leaves env s.cloud) := by
    rintro ⟨hst, ho, hl⟩
    exact ((leaves_reqDidAck hst hc).mp hl).1 (hover.mpr (.inl ((timedOut_http h (.inl hc)).mp ho)))
  constructor
  · intro hi hd
    have hl := (hi 60 hw).2 hd
    have hst : env.station = true := by
      by_contra hst
      exact not_leaves_off (eq_false_of_ne_true hst) hl
    obtain ⟨hn, ha⟩ := (leaves_reqDidAck hst hc).mp hl
    rw [hover, not_or, not_le] at hn
    exact ⟨hst, hn.1, hn.2, ha⟩
  · rintro ht limit hl
    obtain rfl := Option.some.inj (hw.symm.trans hl)
    refine ⟨fun hn => absurd hn hno, fun hd => ?_⟩
    obtain ⟨hst, hs, hp, ha⟩ := ht hd
    rw [leaves_reqDidAck hst hc, hover, not_or, not_le]
    exact ⟨⟨hs, hp⟩, ha⟩

theorem inTime_login {env : CloudEnv} (h : ClockInv s) (hc : s.cloud.gConCloudStatus = .running)
    (hl : s.cloud.gMQTTStatus = .login) :
    LeftInTime s (.loginCloud env) ↔ (env.station = true ∧ shown 300 s.req → due 300 s.req) ∧
      (due 300 s.req → env.station = true ∧ (shown 300 s.req ∨ loginAnswered env s.cloud)) := by
  have hw : waitLimit s.cloud = some 300 := by
    unfold waitLimit
    rw [hc]
    exact if_pos hl
  have hto : connectTimeout s.cloud ↔ shown 300 s.req := by
    unfold connectTimeout
    rw [shown_login h hc hl]
    exact and_iff_right hl
  have hout : timedOut s.cloud ↔ shown 300 s.req := by
    unfold timedOut
    rw [if_pos hc, hto]
  have hleave (hst : env.station = true) : leaves env s.cloud ↔ shown 300 s.req ∨ loginAnswered env s.cloud := by
    rw [leaves_running hst hc hl, hto]
  exact inTime_iff hw hout hleave

theorem leftInTime_iff (h : ClockInv s) (e : TimedEv) : LeftInTime s e ↔ clockTrue s e := by
  cases e with
  | elapse ticks => exact .rfl
  | ntp tvSec => exact .rfl
  | loginCloud env =>
    have hidle (hw : waitLimit s.cloud = none) : LeftInTime s (.loginCloud env) :=
      fun limit hl => absurd (hw.symm.trans hl) (by simp)
    unfold clockTrue
    cases hc : s.cloud.gConCloudStatus with
    | reqDidAck => exact inTime_reqDidAck h hc
    | reqM2minfoAck =>
      refine inTime_iff (by unfold waitLimit; rw [hc]) (timedOut_http h (.inr hc)) fun hst => ?_
      rw [leaves_reqM2minfoAck hst hc, waitOver_clock h (.inr hc), or_assoc]
    | running =>
      by_cases hl : s.cloud.gMQTTStatus = .login
      · exact (inTime_login h hc hl).trans ⟨fun h _ => h, fun h => h hl⟩
      · refine ⟨fun _ h => absurd h hl, fun _ => hidle ?_⟩
        unfold waitLimit
        rw [hc]
        exact if_neg hl
    | invalid => exact ⟨fun _ => trivial, fun _ => hidle (by unfold waitLimit; rw [hc])⟩
    | reqDid => exact ⟨fun _ => trivial, fun _ => hidle (by unfold waitLimit; rw [hc])⟩
    | reqM2minfo => exact ⟨fun _ => trivial, fun _ => hidle (by unfold waitLimit; rw [hc])⟩
    | reqLogin => exact ⟨fun _ => trivial, fun _ => hidle (by unfold waitLimit; rw [hc])⟩

end

/-- **Time-outs in time**: the waits of a run end in time exactly when, at every
step in one of them, the counter agrees with the ticks that have passed and the
wait for a DID has not outlived its limit. -/
theorem timeouts_in_time_iff (ticks : UInt32) (stored : Bool) (es : List TimedEv) :
    Meets timedStep LeftInTime (timedBoot ticks stored) es ↔
      Meets timedStep clockTrue (timedBoot ticks stored) es :=
  meets_congr (timedBoot_clock ticks stored) (fun _ e h => timedStep_clock e h) fun _ e h => leftInTime_iff h e

/-- The clock is set while the device waits for the broker's address: the wait is over at once. -/
theorem corrected_clock_times_out :
    ¬ ∀ (ticks : UInt32) (stored : Bool) (es : List TimedEv),
      Meets timedStep LeftInTime (timedBoot ticks stored) es := by
  intro h
  have hm := h 0 true [.elapse 100, .loginCloud { socket := 1 }, .ntp 1417306200, .loginCloud {}]
    [.elapse 100, .loginCloud { socket := 1 }, .ntp 1417306200] (.loginCloud {}) (List.prefix_refl _)
  have hd := (hm 60 (by decide +kernel)).1 ⟨rfl, by decide +kernel, by decide +kernel⟩
  revert hd
  decide +kernel

end GizwitsSdk
