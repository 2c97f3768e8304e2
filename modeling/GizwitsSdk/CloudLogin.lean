import GizwitsSdk.Lib.Machine
import GizwitsSdk.MqttPublish
import GizwitsSdk.MqttRead
import GizwitsSdk.P0Frame

/-!
# Logging in to the cloud

`GAgent_Login_Cloud` registers the device over HTTP, asks for the broker,
connects to it and hands the packets of the broker on. The heartbeat timer runs
beside it and takes a silent connection down. What the network and the clock do
is the input of a step. The observations and the publications are not in the
source: the first are what happened on the present connection, in order.
-/

namespace GizwitsSdk

inductive ConCloud
  | invalid
  | reqDid
  | reqDidAck
  | reqM2minfo
  | reqM2minfoAck
  | reqLogin
  | running
  deriving DecidableEq

inductive MqttStatus
  | start
  | login
  | loginTopic1
  | loginTopic2
  | loginTopic3
  | running
  deriving DecidableEq

inductive MqttObs
  | connack (code : UInt8)
  /-- a `SUBSCRIBE` has been sent -/
  | subscribe (id : UInt16)
  | suback (id : UInt16)
  | intoRunning
  deriving DecidableEq

/-- A `PUBLISH` that `MCU_SendPublishPacket` has handed to a socket. -/
structure Published where
  fd : Int
  /-- an open connection on which the login was complete -/
  live : Bool
  deriving DecidableEq

structure CloudSt where
  gConCloudStatus : ConCloud
  gMQTTStatus : MqttStatus := .start
  /-- `g_stMQTTBroker.socketid` and `seq` -/
  socketid : Int := -1
  seq : UInt16 := 0
  gMsgsubId : UInt16 := 0
  httpSocketid : Int := 0
  dIdLen : Nat
  connect2CloudLastTime : UInt32
  send2HttpLastTime : UInt32 := 0
  ticks : UInt32
  pingTime : Nat := 0
  loseTime : Nat := 0
  /-- the descriptors of the cloud task that are open -/
  openFds : List Int := []
  obs : List MqttObs := []
  published : List Published := []

/-- What `Http_Response_Code` and the two parsers of fields find in a reply. -/
structure HttpReply where
  code : Int
  did : Bool
  domainPort : Bool

/-- What `select` and `recv` give `Http_ReadSocket`. -/
inductive HttpRead
  | selectError
  | notReady
  | closed
  | reply (r : HttpReply)

/-- The surroundings of one step: the Wi-Fi mode, what the calls of the network
return and the ticks that pass while a request is made. -/
structure CloudEnv where
  station : Bool := true
  getHostByName : Bool := true
  socket : Int := 0
  connect : Bool := true
  /-- memory for a packet can be had, and `send` takes it; `Http_POST` looks at the memory alone -/
  send : Bool := true
  spent : UInt32 := 0
  http : HttpRead := .notReady
  mqtt : SocketRead := .notReady

def nl6621GetTimeS (s : CloudSt) : UInt32 := s.ticks / 100

/-! ## Sockets -/

def closeCloud (fd : Int) (s : CloudSt) : CloudSt := { s with openFds := s.openFds.filter (· ≠ fd) }

/-- `socket` and `connect`: a descriptor that was free, or the end of the call. -/
def newSocket (env : CloudEnv) (s : CloudSt) : Option Int :=
  if 0 ≤ env.socket ∧ env.socket ∉ s.openFds ∧ env.connect = true then some env.socket else none

/-! ## HTTP -/

def httpInitSocket (env : CloudEnv) (s : CloudSt) : Bool × CloudSt :=
  if !env.getHostByName then (false, s)
  else
    let s := if 0 < s.httpSocketid then { closeCloud s.httpSocketid s with httpSocketid := 0 } else s
    match newSocket env s with
    | some fd => (true, { s with httpSocketid := fd, openFds := fd :: s.openFds })
    | none => (false, s)

def httpReadSocket (env : CloudEnv) (s : CloudSt) : Option HttpReply × CloudSt :=
  match env.http with
  | .reply r => (some r, s)
  | .closed => (none, { closeCloud s.httpSocketid s with httpSocketid := -1 })
  | _ => (none, s)

/-- `Mqtt_Register2Server`: `Http_POST` fails without memory only. -/
def mqttRegister2Server (env : CloudEnv) (s : CloudSt) : Bool × CloudSt :=
  let (ok, s) := httpInitSocket env s
  (ok && env.send, s)

def httpSentProvision (env : CloudEnv) (s : CloudSt) : Bool × CloudSt :=
  if s.dIdLen = 0 then (false, s)
  else
    let (ok, s) := httpInitSocket env s
    (ok && env.send, s)

/-! ## MQTT -/

def cloudHBStatusInit (s : CloudSt) : CloudSt := { s with pingTime := 0, loseTime := 0 }

/-- The present connection is open and its login is complete. -/
def LiveConnection (s : CloudSt) : Prop :=
  s.socketid ≠ -1 ∧ s.socketid ∈ s.openFds ∧ .intoRunning ∈ s.obs

instance (s : CloudSt) : Decidable (LiveConnection s) := inferInstanceAs (Decidable (_ ∧ _ ∧ _))

/-- `MCU_SendPublishPacket` on a status frame. -/
def mcuSendPublish (s : CloudSt) : CloudSt :=
  if s.gMQTTStatus = .running then
    { s with published := { fd := s.socketid, live := LiveConnection s } :: s.published }
  else s

/-- A `mqtt_subscribe` and the status it leads to. The message id and `seq`
change whether or not the packet can be sent. -/
def subscribeTopic (send : Bool) (next : MqttStatus) (s : CloudSt) : CloudSt :=
  let id := s.seq
  let s := { s with gMsgsubId := id, seq := id + 1 }
  if send then { s with gMQTTStatus := next, obs := s.obs ++ [.subscribe id] } else s

def mqttIntoRunning (s : CloudSt) : CloudSt :=
  { s with gMQTTStatus := .running, obs := s.obs ++ [.intoRunning] }

def mqttSubLoginTopic (send : Bool) (s : CloudSt) : CloudSt :=
  match s.gMQTTStatus with
  | .login => subscribeTopic send .loginTopic1 s
  | .loginTopic1 => subscribeTopic send .loginTopic2 s
  | .loginTopic2 => subscribeTopic send .loginTopic3 s
  | .loginTopic3 => mqttIntoRunning s
  | _ => s

def mqttDoLogin (send : Bool) (packet : List UInt8) (s : CloudSt) : CloudSt :=
  if packet.getD 3 0 ≠ 0 then { s with gConCloudStatus := .reqDid }
  else cloudHBStatusInit (mqttSubLoginTopic send s)

def subackId (buf : List UInt8) : UInt16 :=
  let rlb := mqttNumRemLenBytes buf
  ((buf.getD (1 + rlb) 0).toUInt16 <<< 8) ||| (buf.getD (1 + rlb + 1) 0).toUInt16

/-- `mqtt_parse_msg_id` of a `SUBACK`: the id goes through a `uint8_t`. -/
def mqttParseMsgId (buf : List UInt8) : UInt8 :=
  let rlb := mqttNumRemLenBytes buf
  ((buf.getD (1 + rlb) 0).toUInt16 <<< 8).toUInt8 ||| buf.getD (1 + rlb + 1) 0

def app2dev : List UInt8 := [0x61, 0x70, 0x70, 0x32, 0x64, 0x65, 0x76, 0x2f]

/-- `Mqtt_DispatchPublishPacket`; the device answers a command that it takes with
a report. More zeros behind the message make no difference, so that the block is
that for the packet alone. -/
def mqttDispatchPublishPacket (packetBuffer : List UInt8) (s : CloudSt) : CloudSt :=
  let (topiclen, topic) := mqttParsePubTopic packetBuffer
  let packetLen := packetLength packetBuffer ((mqttParseRemLen packetBuffer).getD 0)
  if topic.take 8 = app2dev then
    let did := (topic.drop 8).takeWhile (· ≠ 0x2f)
    let s := if s.dIdLen = 0 then { s with dIdLen := did.length } else s
    match (messageBlock (packetLen - topiclen.toNat) packetBuffer).bind mqttDoCloudMCUCmd with
    | some (_, len) => if len.toNat ≤ 4 * 1024 then mcuSendPublish s else s
    | none => s
  else s

/-- The `switch` of `MQTT_handlePacket`. -/
def dispatchPacket (send : Bool) (buf : List UInt8) (s : CloudSt) : CloudSt :=
  let packettype := mqttParseMessageType buf
  if packettype = 0x20 then
    let s := { s with obs := s.obs ++ [.connack (buf.getD 3 0)] }
    if s.gMQTTStatus = .login then mqttDoLogin send buf s else s
  else if packettype = 0x90 then
    let s := { s with obs := s.obs ++ [.suback (subackId buf)] }
    if s.gMsgsubId = (mqttParseMsgId buf).toUInt16 then mqttSubLoginTopic send s else s
  else if packettype = 0x30 then
    if s.gMQTTStatus = .running then mqttDispatchPublishPacket buf s else s
  else s

def packetTakenUp (r : SocketRead) (s : CloudSt) : Option (List UInt8) :=
  if s.socketid = -1 then none
  else (mqttReadPacket mqttSocketBufferLen r).bind fun p => if 0 < p.1 then some p.2 else none

def handlePacket (env : CloudEnv) (s : CloudSt) : CloudSt :=
  match packetTakenUp env.mqtt s with
  | some buf => dispatchPacket env.send buf (cloudHBStatusInit s)
  | none => s

/-- `Cloud_MQTT_initSocket`. The packet that it looks for is looked for without a socket. -/
def cloudMQTTInitSocket (env : CloudEnv) (s : CloudSt) : Bool × CloudSt :=
  if !env.getHostByName then (false, s)
  else
    let s := if s.socketid ≠ -1 then { closeCloud s.socketid s with socketid := -1 } else s
    match newSocket env s with
    | some fd =>
      (true, { handlePacket env s with socketid := fd, openFds := fd :: s.openFds, obs := [] })
    | none => (false, s)

def mqttLogin2Server (env : CloudEnv) (s : CloudSt) : Bool × CloudSt :=
  let (ok, s) := cloudMQTTInitSocket env { s with seq := 1 }
  (ok && env.send, s)

/-! ## The login machine -/

section
variable (env : CloudEnv) (s : CloudSt)

def tooSoon : Prop := nl6621GetTimeS s - s.connect2CloudLastTime < 1

/-- The wait for a reply is over, or there is no socket to wait at. -/
def waitOver : Prop := 60 ≤ nl6621GetTimeS s - s.send2HttpLastTime ∨ s.httpSocketid ≤ 0

instance : Decidable (tooSoon s) := inferInstanceAs (Decidable (_ < _))

instance : Decidable (waitOver s) := inferInstanceAs (Decidable (_ ∨ _))

/-- The end of a request: when it was sent, the state that waits for the reply. -/
def requested (next : ConCloud) (r : Bool × CloudSt) : CloudSt :=
  let s := { r.2 with ticks := r.2.ticks + env.spent }
  if r.1 then { s with gConCloudStatus := next, send2HttpLastTime := nl6621GetTimeS s } else s

def reqDidCase : CloudSt :=
  if tooSoon s then s
  else
    requested env .reqDidAck
      (mqttRegister2Server env { s with connect2CloudLastTime := nl6621GetTimeS s })

def reqDidAckCase : CloudSt :=
  if waitOver s then { s with gConCloudStatus := .reqDidAck }
  else
    match httpReadSocket env s with
    | (some r, s) =>
      if r.code = 201 ∧ r.did = true then { s with dIdLen := 22, gConCloudStatus := .reqM2minfo } else s
    | (none, s) => s

def reqM2minfoCase : CloudSt :=
  if tooSoon s then s
  else
    requested env .reqM2minfoAck
      (httpSentProvision env { s with connect2CloudLastTime := nl6621GetTimeS s })

def reqM2minfoAckCase : CloudSt :=
  if waitOver s then { s with gConCloudStatus := .reqM2minfo }
  else
    match httpReadSocket env s with
    | (some r, s) =>
      if r.code = 200 ∧ r.domainPort = true then { s with gConCloudStatus := .reqLogin } else s
    | (none, s) => s

def reqLoginCase : CloudSt :=
  if tooSoon s then s
  else
    match mqttLogin2Server env { s with connect2CloudLastTime := nl6621GetTimeS s } with
    | (true, s) => { s with gConCloudStatus := .running, gMQTTStatus := .login }
    | (false, s) => s

def connectTimeout : Prop :=
  s.gMQTTStatus = .login ∧ 300 ≤ nl6621GetTimeS s - s.connect2CloudLastTime

instance : Decidable (connectTimeout s) := inferInstanceAs (Decidable (_ ∧ _))

def runningCase : CloudSt :=
  if connectTimeout s then { s with gConCloudStatus := .reqLogin } else handlePacket env s

def gAgentLoginCloud : CloudSt :=
  if !env.station then s
  else
    match s.gConCloudStatus with
    | .reqDid => reqDidCase env s
    | .reqDidAck => reqDidAckCase env s
    | .reqM2minfo => reqM2minfoCase env s
    | .reqM2minfoAck => reqM2minfoAckCase env s
    | .reqLogin => reqLoginCase env s
    | .running => runningCase env s
    | .invalid => s

/-! ## The heartbeat timer -/

def hbCount : CloudSt :=
  if 50 ≤ s.pingTime + 1 then { s with pingTime := 0, loseTime := s.loseTime + 1 }
  else { s with pingTime := s.pingTime + 1 }

/-- The second that comes is one too many without a packet. -/
def hbExpired : Prop := 2 ≤ (hbCount s).loseTime ∧ 20 ≤ (hbCount s).pingTime

instance : Decidable (hbExpired s) := inferInstanceAs (Decidable (_ ∧ _))

def cloudMqttHBTimer : CloudSt :=
  if s.socketid < 0 then s
  else if hbExpired s then
    cloudHBStatusInit
      { closeCloud s.socketid (hbCount s) with gConCloudStatus := .reqLogin, socketid := -1 }
  else hbCount s

end

/-! ## Runs -/

inductive CloudEv
  | loginCloud (env : CloudEnv)
  | hbTimer
  | report
  | elapse (ticks : UInt32)

def cloudStep (s : CloudSt) : CloudEv → CloudSt
  | .loginCloud env => gAgentLoginCloud env s
  | .hbTimer => cloudMqttHBTimer s
  | .report => mcuSendPublish s
  | .elapse ticks => { s with ticks := s.ticks + ticks }

def cloudRun (s : CloudSt) (es : List CloudEv) : CloudSt := Lib.run cloudStep s es

/-- After `GAgent_Init`, with a DID in the flash or without one. -/
def cloudBoot (ticks : UInt32) (stored : Bool) : CloudSt :=
  { gConCloudStatus := if stored then .reqM2minfo else .reqDid
    dIdLen := if stored then 22 else 0
    connect2CloudLastTime := ticks / 100
    ticks }

end GizwitsSdk
