import GizwitsSdk.LanDispatch
import GizwitsSdk.Ota

/-!
# The TCP server: `Socket.c`

Eight slots hold the clients, by descriptor; the socket layer may give out any
descriptor that is not open. A step is what the thread of the TCP server does
between two calls that can block, a tick of the slot timer, or a part of
`FwUpgradeProcess`. The observations are not in the source: they are what a
rule about logins speaks of.
-/

namespace GizwitsSdk

open Lib

structure SocketClent where
  socketFD : Int := -1
  timeOut : Nat := 0

inductive Obs
  | accept (fd : Int)
  | login (fd : Int)
  | mcuData (fd : Int)
  deriving DecidableEq

structure LanSt where
  ota : OtaSt
  pc : OtaPc := .idle
  newClientfd : Int := 0
  clients : Fin 8 → SocketClent := fun _ => {}
  gSocketLogin : SocketLogin := fun _ => 0
  isOpen : Int → Bool := fun _ => false
  wifipasscode : List UInt8
  gPasscodeEnable : Bool
  /-- latest first -/
  obs : List Obs := []

/-! ## Clients -/

def closeFd (fd : Int) (s : LanSt) : LanSt := { s with isOpen := Function.update s.isOpen fd false }

def setSlot (i : Fin 8) (c : SocketClent) (s : LanSt) : LanSt :=
  { s with clients := Function.update s.clients i c }

/-- The end of a client: its descriptor is closed, its logins are forgotten. -/
def dropSocket (i : Fin 8) (s : LanSt) : LanSt :=
  let fd := (s.clients i).socketFD
  let s := if 0 < fd then closeFd fd s else s
  let s := { s with gSocketLogin := fun j => if s.gSocketLogin j = fd then 0 else s.gSocketLogin j }
  setSlot i { s.clients i with socketFD := -1 } s

/-- The end of `Socket_CheckNewTCPClient`: a slot is found for the descriptor. -/
def insertClient (fd : Int) (s : LanSt) : LanSt :=
  match (List.finRange 8).find? fun i => (s.clients i).socketFD = -1 with
  | some i => setSlot i { socketFD := fd, timeOut := 12 } s
  | none => closeFd fd s

def socketResetSlotTimeout (fd : Int) (s : LanSt) : LanSt :=
  match (List.finRange 8).find? fun i => (s.clients i).socketFD = fd with
  | some i => setSlot i { s.clients i with timeOut := 12 } s
  | none => s

def timeoutSlot (s : LanSt) (i : Fin 8) : LanSt :=
  let c := s.clients i
  if 0 < c.timeOut then
    let s := setSlot i { c with timeOut := c.timeOut - 1 } s
    if c.timeOut - 1 = 0 ∧ 0 < c.socketFD then dropSocket i s else s
  else s

def socketClientTimeoutTimer (s : LanSt) : LanSt := (List.finRange 8).foldl timeoutSlot s

/-! ## Frames -/

def dispatch (fd : Int) (buf : List UInt8) (s : LanSt) : LanSt :=
  match dispatchTCPData s.gSocketLogin s.gPasscodeEnable fd buf with
  | some .handleLogin =>
    { s with
      gSocketLogin := handleLogin s.wifipasscode s.gSocketLogin fd buf
      obs := if passcodeOk s.wifipasscode buf then .login fd :: s.obs else s.obs }
  | some (.mcuData _ _) => { s with obs := .mcuData fd :: s.obs }
  | _ => s

inductive RecvResult
  | data (bs : List UInt8)
  | closed
  | error

/-- One slot of `Socket_DoTCPServer`. The receive buffer is cleared before; a
frame that fills it is dropped. On a closed descriptor `recv` fails. -/
def serveSlot (i : Fin 8) (r : RecvResult) (s : LanSt) : LanSt :=
  let fd := (s.clients i).socketFD
  if fd = -1 ∨ s.isOpen fd = false then s
  else
    match r with
    | .data bs =>
      if 0 < bs.length ∧ bs.length < 1024 then
        dispatch fd (bs ++ List.replicate (1024 - bs.length) 0) (socketResetSlotTimeout fd s)
      else s
    | .closed => dropSocket i s
    | .error => s

/-! ## New connections and uploads -/

/-- Up to the upload loop or, when none is announced, past it. -/
def acceptClient (fd : Int) (s : LanSt) : LanSt :=
  let s := { s with isOpen := Function.update s.isOpen fd true, obs := .accept fd :: s.obs }
  if s.ota.upgradeFlag.start then { s with pc := .top, newClientfd := fd } else insertClient fd s

/-- Every descriptor in a slot is closed; neither the slots nor the logins change. -/
def closeClients (s : LanSt) : LanSt :=
  { s with isOpen := fun fd =>
      s.isOpen fd && !(List.finRange 8).any fun i => 0 < fd ∧ (s.clients i).socketFD = fd }

def uploadTop (s : LanSt) : LanSt :=
  match otaTop s.ota with
  | (ota, .again) => closeClients { s with ota, pc := .recv }
  | (ota, _) => insertClient s.newClientfd { s with ota, pc := .idle }

def lanBoot (flash : Flash) (wifipasscode : List UInt8) (gPasscodeEnable : Bool) : LanSt :=
  { ota := { flash }, wifipasscode, gPasscodeEnable }

-- a failed sector write closes the descriptor and leaves it to a slot
def uploadRecv (chip : Chip) (bs : List UInt8) (s : LanSt) : LanSt :=
  match otaRecv chip (if s.isOpen s.newClientfd then bs else []) s.ota with
  | (ota, .again) => { s with ota, pc := .top }
  | (ota, .failed) => insertClient s.newClientfd (closeFd s.newClientfd { s with ota, pc := .idle })
  | (ota, .done) => { lanBoot ota.flash s.wifipasscode s.gPasscodeEnable with obs := s.obs }
  | (ota, _) => closeFd s.newClientfd { s with ota, pc := .idle }

inductive LanEv
  | accept (fd : Int)
  | serve (i : Fin 8) (r : RecvResult)
  | timer
  | announce (size : UInt32)
  | ackFailed
  | top
  | recv (bs : List UInt8)
  | configure (wifipasscode : List UInt8) (gPasscodeEnable : Bool)

def lanStep (chip : Chip) (s : LanSt) : LanEv → LanSt
  | .accept fd => if s.pc = .idle ∧ 0 < fd ∧ s.isOpen fd = false then acceptClient fd s else s
  | .serve i r => if s.pc = .idle then serveSlot i r s else s
  | .timer => socketClientTimeoutTimer s
  | .announce size => { s with ota.upgradeFlag.start := true, ota.fileSize := size.toNat }
  | .ackFailed => { s with ota.upgradeFlag := {} }
  | .top => if s.pc = .top then uploadTop s else s
  | .recv bs => if s.pc = .recv then uploadRecv chip bs s else s
  | .configure wifipasscode gPasscodeEnable => { s with wifipasscode, gPasscodeEnable }

def lanRun (chip : Chip) (s : LanSt) (es : List LanEv) : LanSt := es.foldl (lanStep chip) s

end GizwitsSdk
