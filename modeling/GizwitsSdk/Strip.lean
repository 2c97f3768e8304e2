import GizwitsSdk.McuV4
import GizwitsSdk.Lib.Machine

/-!
# The power strip: `strip.c`

Frames, two timers and a button switch one relay. A frame says by its flags
which of its bytes count. A timer is armed with a delay in milliseconds or not
at all; it is disarmed when it fires, and its callback may arm it again.
-/

namespace GizwitsSdk

open Lib

structure StripSt where
  mcu : McuSt := {}
  socketGpio : Bool := false
  ledGpio : Bool := false
  repeatFlag : Bool := false
  timerOn : Option UInt32 := none
  timerOff : Option UInt32 := none

/-- `strip_data.strip_table[0].socket_status` -/
def StripSt.status (s : StripSt) : SocketStatus := s.mcu.socketStatus

def StripSt.setStatus (st : SocketStatus) (s : StripSt) : StripSt :=
  { s with mcu := { s.mcu with socketStatus := st } }

def setBit (x : UInt8) (y : UInt8) : UInt8 := x ||| (1 <<< y)

def clrBit (x : UInt8) (y : UInt8) : UInt8 := x &&& ~~~(1 <<< y)

/-! ## The clock -/

/-- Seconds, from a fixed date on. -/
def systemSec (ticks : UInt32) : UInt32 := ticks / 100 + 1417305600 + 28800

/-- 1 to 7 -/
def timingWeek (ticks : UInt32) : UInt32 :=
  let wday := (4 + systemSec ticks / 60 / 60 / 24) % 7
  if wday = 0 then 7 else wday

def timingValue (ticks : UInt32) (socketStatusMinute : UInt16) : UInt32 :=
  let systemMinute := systemSec ticks / 60 % 60 + systemSec ticks / 60 / 60 % 24 * 60
  let minute := socketStatusMinute.toUInt32
  if systemMinute = minute then 10
  else if systemMinute < minute then (minute - systemMinute) * 1000 * 60 - systemSec ticks % 60 * 1000
  else (24 * 60 - (systemMinute - minute)) * 1000 * 60

/-! ## Timers -/

/-- The relay, its light and bit 0 of the status. -/
def switchSocket (on : Bool) (s : StripSt) : StripSt :=
  let s := { s with socketGpio := on, ledGpio := !on }
  s.setStatus { s.status with onoff := if on then setBit s.status.onoff 0 else clrBit s.status.onoff 0 }

/-- What both timer callbacks do but for the timer that they set again. -/
def switchOnTime (on : Bool) (ticks : UInt32) (setTimer : StripSt → StripSt) (s : StripSt) : StripSt :=
  let s := if s.status.weekRepeat = 0 then switchSocket on s else s
  let s := if s.status.weekRepeat ≠ 0 ∧ s.repeatFlag then setTimer s else s
  if s.repeatFlag ∧ s.status.weekRepeat >>> (timingWeek ticks - 1).toUInt8 &&& 1 ≠ 0 then switchSocket on s
  else s

def timerOnTask (ticks : UInt32) : StripSt → StripSt :=
  switchOnTime true ticks fun s => { s with timerOn := some (24 * 60 * 1000 * 60) }

def timerOffTask (ticks : UInt32) : StripSt → StripSt :=
  switchOnTime false ticks fun s => { s with timerOff := some (24 * 60 * 1000 * 60) }

/-! ## Frames -/

/-- The flag of an attribute, or an on/off bit. -/
def isSet (flags m : UInt8) : Bool := flags &&& m = m

def setTimeOnOff (on : Bool) (ticks : UInt32) (s : StripSt) : StripSt :=
  if on then
    { s.setStatus { s.status with onoff := setBit s.status.onoff 1 } with
      repeatFlag := s.repeatFlag || s.status.weekRepeat ≠ 0
      timerOn := some (timingValue ticks s.status.timeOnMinute)
      timerOff := some (timingValue ticks s.status.timeOffMinute) }
  else
    { s.setStatus { s.status with onoff := clrBit s.status.onoff 1 } with
      repeatFlag := false
      timerOn := none
      timerOff := none }

def setCountDown (on : Bool) (s : StripSt) : StripSt :=
  s.setStatus { s.status with onoff := if on then setBit s.status.onoff 2 else clrBit s.status.onoff 2 }

def setWeekRepeat (w : UInt8) (s : StripSt) : StripSt :=
  { s.setStatus { s.status with weekRepeat := w } with repeatFlag := w ≠ 0 }

def setTimeOnMinute (m : UInt16) (ticks : UInt32) (s : StripSt) : StripSt :=
  { s.setStatus { s.status with timeOnMinute := m } with timerOn := some (timingValue ticks m) }

def setTimeOffMinute (m : UInt16) (ticks : UInt32) (s : StripSt) : StripSt :=
  { s.setStatus { s.status with timeOffMinute := m } with timerOff := some (timingValue ticks m) }

def setCountdownMinute (m : UInt16) (s : StripSt) : StripSt :=
  s.setStatus { s.status with countdownMinute := m }

def stripDataParse (attrFlags : UInt8) (ctrl : Nat → UInt8) (ticks : UInt32) (s : StripSt) : StripSt :=
  let s := if isSet attrFlags 0x01 then switchSocket (isSet (ctrl 0) 0x01) s else s
  let s := if isSet attrFlags 0x02 then setTimeOnOff (isSet (ctrl 0) 0x02) ticks s else s
  let s := if isSet attrFlags 0x04 then setCountDown (isSet (ctrl 0) 0x04) s else s
  let s := if isSet attrFlags 0x08 then setWeekRepeat (ctrl 1) s else s
  let s := if isSet attrFlags 0x10 then setTimeOnMinute (decodeInt16 (ctrl 2, ctrl 3)) ticks s else s
  let s := if isSet attrFlags 0x20 then setTimeOffMinute (decodeInt16 (ctrl 4, ctrl 5)) ticks s else s
  if isSet attrFlags 0x40 then setCountdownMinute (decodeInt16 (ctrl 6, ctrl 7)) s else s

/-! ## The button -/

/-- `check_socket`, with what two readings of the button give; 0 is pressed. -/
def checkSocket (gpio10 gpio10' : UInt8) (s : StripSt) : StripSt :=
  if gpio10 = 0 ∧ gpio10' = 0 then
    let s := switchSocket (!s.socketGpio) s
    { s with mcu := reportStatus REPORT_STATUS 0 s.mcu }
  else s

/-! ## Steps -/

def stripInit : StripSt := {}

inductive StripEv
  | frame (attrFlags : UInt8) (ctrl : Nat → UInt8) (ticks : UInt32)
  | timerOn (ticks : UInt32)
  | timerOff (ticks : UInt32)
  | button (gpio10 gpio10' : UInt8)

/-- A timer that is not armed does not fire. -/
def stripStep (s : StripSt) : StripEv → StripSt
  | .frame attrFlags ctrl ticks => stripDataParse attrFlags ctrl ticks s
  | .timerOn ticks => if s.timerOn.isSome then timerOnTask ticks { s with timerOn := none } else s
  | .timerOff ticks => if s.timerOff.isSome then timerOffTask ticks { s with timerOff := none } else s
  | .button gpio10 gpio10' => checkSocket gpio10 gpio10' s

/-! ## What the functions do -/

section
variable (attrFlags : UInt8) (ctrl : Nat → UInt8) (ticks : UInt32) (s : StripSt)

/-- The on/off byte after a frame: each flag that is set brings its bit. -/
def frameOnoff (onoff : UInt8) : UInt8 :=
  let x := if isSet attrFlags 0x01 then (if isSet (ctrl 0) 0x01 then setBit onoff 0 else clrBit onoff 0) else onoff
  let x := if isSet attrFlags 0x02 then (if isSet (ctrl 0) 0x02 then setBit x 1 else clrBit x 1) else x
  if isSet attrFlags 0x04 then (if isSet (ctrl 0) 0x04 then setBit x 2 else clrBit x 2) else x

theorem parse_socketGpio : (stripDataParse attrFlags ctrl ticks s).socketGpio =
    if isSet attrFlags 0x01 then isSet (ctrl 0) 0x01 else s.socketGpio := by
  simp only [stripDataParse, apply_ite StripSt.socketGpio, setCountdownMinute, setTimeOffMinute,
    setTimeOnMinute, setWeekRepeat, setCountDown, setTimeOnOff, switchSocket, StripSt.setStatus, ite_self]

theorem parse_onoff : (stripDataParse attrFlags ctrl ticks s).status.onoff =
    frameOnoff attrFlags ctrl s.status.onoff := by
  simp only [stripDataParse, apply_ite StripSt.mcu, apply_ite McuSt.socketStatus,
    apply_ite SocketStatus.onoff,
    setCountdownMinute, setTimeOffMinute, setTimeOnMinute, setWeekRepeat, setCountDown, setTimeOnOff,
    switchSocket, StripSt.setStatus, StripSt.status, ite_self, frameOnoff]

theorem parse_weekRepeat : (stripDataParse attrFlags ctrl ticks s).status.weekRepeat =
    if isSet attrFlags 0x08 then ctrl 1 else s.status.weekRepeat := by
  simp only [stripDataParse, apply_ite StripSt.mcu, apply_ite McuSt.socketStatus,
    apply_ite SocketStatus.weekRepeat,
    setCountdownMinute, setTimeOffMinute, setTimeOnMinute, setWeekRepeat, setCountDown, setTimeOnOff,
    switchSocket, StripSt.setStatus, StripSt.status, ite_self]

theorem parse_timeOnMinute : (stripDataParse attrFlags ctrl ticks s).status.timeOnMinute =
    if isSet attrFlags 0x10 then decodeInt16 (ctrl 2, ctrl 3) else s.status.timeOnMinute := by
  simp only [stripDataParse, apply_ite StripSt.mcu, apply_ite McuSt.socketStatus,
    apply_ite SocketStatus.timeOnMinute,
    setCountdownMinute, setTimeOffMinute, setTimeOnMinute, setWeekRepeat, setCountDown, setTimeOnOff,
    switchSocket, StripSt.setStatus, StripSt.status, ite_self]

theorem parse_timeOffMinute : (stripDataParse attrFlags ctrl ticks s).status.timeOffMinute =
    if isSet attrFlags 0x20 then decodeInt16 (ctrl 4, ctrl 5) else s.status.timeOffMinute := by
  simp only [stripDataParse, apply_ite StripSt.mcu, apply_ite McuSt.socketStatus,
    apply_ite SocketStatus.timeOffMinute,
    setCountdownMinute, setTimeOffMinute, setTimeOnMinute, setWeekRepeat, setCountDown, setTimeOnOff,
    switchSocket, StripSt.setStatus, StripSt.status, ite_self]

theorem parse_countdownMinute : (stripDataParse attrFlags ctrl ticks s).status.countdownMinute =
    if isSet attrFlags 0x40 then decodeInt16 (ctrl 6, ctrl 7) else s.status.countdownMinute := by
  simp only [stripDataParse, apply_ite StripSt.mcu, apply_ite McuSt.socketStatus,
    apply_ite SocketStatus.countdownMinute,
    setCountdownMinute, setTimeOffMinute, setTimeOnMinute, setWeekRepeat, setCountDown, setTimeOnOff,
    switchSocket, StripSt.setStatus, StripSt.status, ite_self]

theorem parse_powerConsumption : (stripDataParse attrFlags ctrl ticks s).status.powerConsumption =
    s.status.powerConsumption := by
  simp only [stripDataParse, apply_ite StripSt.mcu, apply_ite McuSt.socketStatus,
    apply_ite SocketStatus.powerConsumption,
    setCountdownMinute, setTimeOffMinute, setTimeOnMinute, setWeekRepeat, setCountDown, setTimeOnOff,
    switchSocket, StripSt.setStatus, StripSt.status, ite_self]

end

end GizwitsSdk
