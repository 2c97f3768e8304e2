import GizwitsSdk.MqttLib
import Mathlib.Logic.Function.Basic
import Mathlib.Data.List.FinRange

/-!
# Frames from the local network: `lan.c`

`dispatchTCPData` reads the command of a frame and says what it calls.
`g_SocketLogin` lists the sockets that have logged in, 0 in a free entry.
-/

namespace GizwitsSdk

abbrev SocketLogin := Fin 8 → Int

/-- The call that `DispatchTCPData` makes; `mcuData` has the offset and the
length of the payload. -/
inductive LanCall
  | nothing
  | handlePasscode
  | handleLogin
  | mcuData (offset : Nat) (len : UInt16)
  | getWifiVersion
  | getWifiHotspots
  | getWifiInfo
  | lanAppTickAck
  deriving DecidableEq

/-- `varlen` is counted from the fifth byte on, `datalen` from the fourth. -/
def lanVarlen (pData : List UInt8) : Nat := mqttNumRemLenBytes (pData.drop 4)

def lanCmd (pData : List UInt8) : UInt8 := pData.getD (7 + lanVarlen pData - 1) 0

def loggedIn (gSocketLogin : SocketLogin) (nSocket : Int) : Bool :=
  (List.finRange 8).any fun i => nSocket = gSocketLogin i

-- `datalen - 3` reaches `GAgentV4_CtlDev_with_p0` as an unsigned short
def lanSwitch (gSocketLogin : SocketLogin) (gPasscodeEnable : Bool) (nSocket : Int)
    (pData : List UInt8) (datalen : UInt16) : LanCall :=
  let cmd := lanCmd pData
  if cmd = 0x06 then if gPasscodeEnable then .handlePasscode else .nothing
  else if cmd = 0x08 then .handleLogin
  else if cmd = 0x90 then
    if loggedIn gSocketLogin nSocket then .mcuData (7 + lanVarlen pData) (datalen - 3) else .nothing
  else if cmd = 0x0A then .getWifiVersion
  else if cmd = 0x0C then .getWifiHotspots
  else if cmd = 0x13 then .getWifiInfo
  else if cmd = 0x15 then .lanAppTickAck
  else .nothing

/-- `none` when the length field runs out of the buffer. -/
def dispatchTCPData (gSocketLogin : SocketLogin) (gPasscodeEnable : Bool) (nSocket : Int)
    (pData : List UInt8) : Option LanCall :=
  if pData.take 4 = [0, 0, 0, 3] then
    (mqttParseRemLen (pData.drop 3)).map (lanSwitch gSocketLogin gPasscodeEnable nSocket pData)
  else some .nothing

def passcodeOk (wifipasscode pData : List UInt8) : Bool :=
  (pData.drop 10).take 10 = wifipasscode.take 10

/-- `handleLogin`, less its answer: the first free entry is taken. -/
def handleLogin (wifipasscode : List UInt8) (gSocketLogin : SocketLogin) (tcpclient : Int)
    (buf : List UInt8) : SocketLogin :=
  if passcodeOk wifipasscode buf then
    match (List.finRange 8).find? fun i => gSocketLogin i = 0 with
    | some i => Function.update gSocketLogin i tcpclient
    | none => gSocketLogin
  else gSocketLogin

end GizwitsSdk
