import GizwitsSdk.P0Frame
import GizwitsSdk.LanServer

/-!
# Frames of the device: `mcu_v4.c`

Two static structures hold the frames that the device sends: the status frame
and the acknowledgement of a control command. Every call writes over the one
it sends. The build is the one of `control.h`, a power strip; the processor
stores a `short` low byte first.
-/

namespace GizwitsSdk

/-- `socket_status_t`, which has the layout of `status_writable`. -/
structure SocketStatus where
  onoff : UInt8 := 0
  weekRepeat : UInt8 := 0
  timeOnMinute : UInt16 := 0
  timeOffMinute : UInt16 := 0
  countdownMinute : UInt16 := 0
  powerConsumption : UInt16 := 0

structure ProHeadPart where
  head : UInt8 × UInt8 := (0, 0)
  len : UInt16 := 0
  cmd : UInt8 := 0
  sn : UInt8 := 0
  flags : UInt8 × UInt8 := (0, 0)

structure ProCommonCmd where
  headPart : ProHeadPart := {}
  sum : UInt8 := 0

structure M2wMcuStatus where
  headPart : ProHeadPart := {}
  subCmd : UInt8 := 0
  statusW : SocketStatus := {}
  sum : UInt8 := 0

/-! ## Bytes in memory -/

def shortBytes (x : UInt16) : List UInt8 := [x.toUInt8, (x >>> 8).toUInt8]

def SocketStatus.bytes (s : SocketStatus) : List UInt8 :=
  [s.onoff, s.weekRepeat] ++ shortBytes s.timeOnMinute ++ shortBytes s.timeOffMinute ++
    shortBytes s.countdownMinute ++ shortBytes s.powerConsumption

def ProHeadPart.bytes (h : ProHeadPart) : List UInt8 :=
  [h.head.1, h.head.2] ++ shortBytes h.len ++ [h.cmd, h.sn, h.flags.1, h.flags.2]

def ProCommonCmd.body (f : ProCommonCmd) : List UInt8 := f.headPart.bytes

def M2wMcuStatus.body (f : M2wMcuStatus) : List UInt8 :=
  f.headPart.bytes ++ f.subCmd :: f.statusW.bytes

def ProCommonCmd.bytes (f : ProCommonCmd) : List UInt8 := f.body ++ [f.sum]

def M2wMcuStatus.bytes (f : M2wMcuStatus) : List UInt8 := f.body ++ [f.sum]

def htons (x : UInt16) : UInt16 := ((x &&& 0xff) <<< 8) ||| ((x &&& 0xff00) >>> 8)

/-- `decodeInt16` on the two bytes that `input` points to. -/
def decodeInt16 (input : UInt8 × UInt8) : UInt16 := (input.1.toUInt16 <<< 8) ||| input.2.toUInt16

def decodeInPlace (x : UInt16) : UInt16 := decodeInt16 (x.toUInt8, (x >>> 8).toUInt8)

def gAgentSetCheckSum (buf : List UInt8) (packLen : Nat) : UInt8 :=
  ((buf.take packLen).drop 2).foldl (· + ·) 0

/-! ## Calls -/

structure McuSt where
  mProCommonCmd : ProCommonCmd := {}
  mM2wMcuStatus : M2wMcuStatus := {}
  /-- `strip_data.strip_table[0].socket_status` -/
  socketStatus : SocketStatus := {}

def REPORT_STATUS : UInt8 := 0

def REQUEST_STATUS : UInt8 := 1

/-- The frame that `SendCtlAckCmd` builds. `low` is what lies at the addresses
5 and 6: `decodeInt16` gets the number 5 for a pointer. -/
def ctlAckFrame (low : UInt8 × UInt8) (cmd sn : UInt8) : ProCommonCmd :=
  let f : ProCommonCmd := { headPart := { head := (0xff, 0xff), len := decodeInt16 low, cmd, sn } }
  { f with sum := gAgentSetCheckSum f.bytes f.bytes.length }

def sendCtlAckCmd (low : UInt8 × UInt8) (cmd sn : UInt8) (s : McuSt) : McuSt :=
  { s with mProCommonCmd := ctlAckFrame low cmd sn }

/-- The status frame under `tag`, with the sum of the frame before it. -/
def reportFrame (tag sn : UInt8) (st : SocketStatus) (sum : UInt8) : M2wMcuStatus :=
  if tag = REPORT_STATUS then
    { headPart := { head := (0xff, 0xff), len := htons 16, cmd := 0x05, sn := sn + 1 }
      subCmd := 0x04
      statusW :=
        { st with
          timeOnMinute := decodeInPlace st.timeOnMinute
          timeOffMinute := decodeInPlace st.timeOffMinute
          countdownMinute := decodeInPlace st.countdownMinute }
      sum }
  else
    { headPart := { head := (0xff, 0xff), len := htons 11, cmd := 0x04, sn := sn + 1 }
      subCmd := 0x03
      statusW := st
      sum }

def reportStatus (tag sn : UInt8) (s : McuSt) : McuSt :=
  if tag = REPORT_STATUS ∨ tag = REQUEST_STATUS then
    let f := reportFrame tag sn s.socketStatus s.mM2wMcuStatus.sum
    { s with mM2wMcuStatus := { f with sum := gAgentSetCheckSum f.bytes f.bytes.length } }
  else s

/-! ## Reports -/

def phonePLen (uartbuf : List UInt8) (uartbufLen : Nat) (cmd : UInt8) : Int :=
  if cmd = 0x91 then ((uartbuf.getD 2 0).toNat * 256 + (uartbuf.getD 3 0).toNat : Nat) - 5
  else if cmd = 0x12 then uartbufLen
  else 0

def getUartPload (reBuf : List UInt8) (plen : Nat) (cmd : UInt8) : List UInt8 :=
  if cmd = 0x91 then (reBuf.drop 8).take plen else reBuf.take plen

/-- The packets sent, each with its socket. -/
def socketSendData2Client (clients : Fin 8 → SocketClent) (gSocketLogin : SocketLogin)
    (pdata : List UInt8) (cmd : UInt8) : List (Int × List UInt8) :=
  (List.finRange 8).flatMap fun j =>
    let fd := (clients j).socketFD
    if 0 < fd then
      if cmd = 0x91 then ((List.finRange 8).filter fun i => fd = gSocketLogin i).map fun _ => (fd, pdata)
      else [(fd, pdata)]
    else []

/-- `uartbuf` is the memory from the frame on. A negative `PLen` is more than
the heap has. -/
def devSendPacket2Phone (clients : Fin 8 → SocketClent) (gSocketLogin : SocketLogin)
    (uartbuf : List UInt8) (uartbufLen : Nat) (cmd : UInt8) (fd : Int) : List (Int × List UInt8) :=
  let plen := phonePLen uartbuf uartbufLen cmd
  if plen < 0 then []
  else
    let sendPack := phoneSendPack (getUartPload uartbuf plen.toNat cmd) cmd
    if 0 < fd then (if loggedIn gSocketLogin fd then [(fd, sendPack)] else [])
    else socketSendData2Client clients gSocketLogin sendPack cmd

structure DevReport where
  st : McuSt
  /-- what goes to the local network -/
  lan : List (Int × List UInt8)
  /-- what goes to the cloud -/
  cloud : Option (List UInt8)

/-- `ResponseDevStatus`; `after` is what follows the status frame in memory. -/
def responseDevStatus (running : Bool) (clients : Fin 8 → SocketClent) (gSocketLogin : SocketLogin)
    (after : List UInt8) (s : McuSt) : DevReport :=
  let s := reportStatus REPORT_STATUS 0 s
  let f := s.mM2wMcuStatus.bytes
  { st := s
    lan := devSendPacket2Phone clients gSocketLogin (f ++ after) (f.length + 1) 0x91 0
    cloud := mcuSendPublishPacket running f }

end GizwitsSdk
