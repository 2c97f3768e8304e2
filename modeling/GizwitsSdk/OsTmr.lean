import GizwitsSdk.Lib.Line
import GizwitsSdk.Lib.Trace

/-!
# The timers of `os_tmr.c`

A timer that runs is in the spoke of a wheel that its match falls on, in a list
that is linked both ways. With each signal the timer task goes through one
spoke. It calls back in the middle of the list, and a callback may start, stop,
create and delete timers itself: its calls are steps of their own, after the
one that has called back.

`OS_TMR_CFG_MAX` is 16, `OS_TMR_CFG_WHEEL_SIZE` is 8 and `OS_ARG_CHK_EN` is 0.
Calls from an interrupt are refused and are not part of the model.
-/

namespace GizwitsSdk

open Lib

/-- An `OS_TMR *` into `OSTmrTbl`. -/
abbrev TmrId := Fin 16

inductive TmrState
  | unused
  | stopped
  | completed
  | running
  deriving DecidableEq, Repr

abbrev osTmrOptNone : UInt8 := 0
abbrev osTmrOptOneShot : UInt8 := 1
abbrev osTmrOptPeriodic : UInt8 := 2
abbrev osTmrOptCallback : UInt8 := 3
abbrev osTmrOptCallbackArg : UInt8 := 4

/-- `OS_TMR`. A callback is a function with its argument. -/
structure OsTmr (C : Type) where
  osTmrCallback : Option C := none
  osTmrNext : Option TmrId := none
  osTmrPrev : Option TmrId := none
  osTmrMatch : UInt32 := 0
  osTmrDly : UInt32 := 0
  osTmrPeriod : UInt32 := 0
  osTmrOpt : UInt8 := osTmrOptNone
  osTmrState : TmrState := .unused

structure OsTmrWheel where
  osTmrFirst : Option TmrId := none
  osTmrEntries : UInt16 := 0

/-- The globals, and where the loop of `OSTmr_Task` stands: `none` while it
waits for a signal, and else the timer that it looks at next. -/
structure Timers (C : Type) where
  osTmrTbl : TmrId → OsTmr C
  osTmrWheelTbl : Fin 8 → OsTmrWheel
  osTmrFreeList : Option TmrId
  osTmrFree : UInt16
  osTmrUsed : UInt16
  osTmrTime : UInt32
  ptmr : Option (Option TmrId)

section
variable {C : Type}

namespace Timers

def setTmr (s : Timers C) (id : TmrId) (t : OsTmr C) : Timers C :=
  { s with osTmrTbl := Function.update s.osTmrTbl id t }

def setNext (s : Timers C) (id : TmrId) (next : Option TmrId) : Timers C :=
  s.setTmr id { s.osTmrTbl id with osTmrNext := next }

def setPrev (s : Timers C) (id : TmrId) (prev : Option TmrId) : Timers C :=
  s.setTmr id { s.osTmrTbl id with osTmrPrev := prev }

def setSpoke (s : Timers C) (i : Fin 8) (w : OsTmrWheel) : Timers C :=
  { s with osTmrWheelTbl := Function.update s.osTmrWheelTbl i w }

end Timers

/-! ## The free list -/

def osTmrAlloc (s : Timers C) : Option (TmrId × Timers C) :=
  s.osTmrFreeList.map fun ptmr =>
    let t := s.osTmrTbl ptmr
    (ptmr, { s.setTmr ptmr { t with osTmrNext := none, osTmrPrev := none } with
      osTmrFreeList := t.osTmrNext, osTmrUsed := s.osTmrUsed + 1, osTmrFree := s.osTmrFree - 1 })

/-- The delay stays. -/
def osTmrFree (s : Timers C) (ptmr : TmrId) : Timers C :=
  let t := { s.osTmrTbl ptmr with
    osTmrState := .unused, osTmrOpt := osTmrOptNone, osTmrPeriod := 0, osTmrMatch := 0, osTmrCallback := none
    osTmrPrev := none, osTmrNext := s.osTmrFreeList }
  { s.setTmr ptmr t with
    osTmrFreeList := some ptmr, osTmrUsed := s.osTmrUsed - 1, osTmrFree := s.osTmrFree + 1 }

/-! ## The wheel -/

def spoke (m : UInt32) : Fin 8 := ⟨m.toNat % 8, Nat.mod_lt _ (Nat.succ_pos 7)⟩

/-- The ticks that `OSTmr_Link` adds to the time. -/
def OsTmr.linkTicks (t : OsTmr C) (periodic : Bool) : UInt32 :=
  if periodic then t.osTmrPeriod else if t.osTmrDly = 0 then t.osTmrPeriod else t.osTmrDly

def osTmrLink (s : Timers C) (ptmr : TmrId) (periodic : Bool) : Timers C :=
  let t := s.osTmrTbl ptmr
  let osTmrMatch := t.linkTicks periodic + s.osTmrTime
  let s := s.setTmr ptmr { t with osTmrState := .running, osTmrMatch := osTmrMatch }
  let i := spoke osTmrMatch
  let pspoke := s.osTmrWheelTbl i
  let s := match pspoke.osTmrFirst with
    | none => (s.setSpoke i { osTmrFirst := some ptmr, osTmrEntries := 1 }).setNext ptmr none
    | some ptmr1 =>
      let s := s.setSpoke i { osTmrFirst := some ptmr, osTmrEntries := pspoke.osTmrEntries + 1 }
      (s.setNext ptmr (some ptmr1)).setPrev ptmr1 (some ptmr)
  s.setPrev ptmr none

/-- A timer that is not the first of its spoke has one before it. -/
def osTmrUnlink (s : Timers C) (ptmr : TmrId) : Timers C :=
  let t := s.osTmrTbl ptmr
  let i := spoke t.osTmrMatch
  let pspoke := s.osTmrWheelTbl i
  let s :=
    if pspoke.osTmrFirst = some ptmr then
      let s := s.setSpoke i { pspoke with osTmrFirst := t.osTmrNext }
      match t.osTmrNext with
      | none => s
      | some ptmr1 => s.setPrev ptmr1 none
    else
      let s := match t.osTmrPrev with
        | none => s
        | some ptmr1 => s.setNext ptmr1 t.osTmrNext
      match t.osTmrNext with
      | none => s
      | some ptmr2 => s.setPrev ptmr2 t.osTmrPrev
  let s := s.setTmr ptmr { s.osTmrTbl ptmr with osTmrState := .stopped, osTmrNext := none, osTmrPrev := none }
  s.setSpoke i { s.osTmrWheelTbl i with osTmrEntries := (s.osTmrWheelTbl i).osTmrEntries - 1 }

/-! ## Calls -/

inductive TmrErr
  | none
  | nonAvail
  | inactive
  | stopped
  | noCallback
  | invalidOpt
  deriving DecidableEq, Repr

/-- What a step gives back: the error, the value, the timer, and what it has called back. -/
structure TmrRet (C : Type) where
  err : TmrErr := .none
  ret : Bool := true
  ptmr : Option TmrId := none
  remain : UInt32 := 0
  called : Option C := none

def osTmrCreate (s : Timers C) (dly period : UInt32) (opt : UInt8) (callback : Option C) : Timers C × TmrRet C :=
  match osTmrAlloc s with
  | none => (s, { err := .nonAvail })
  | some (ptmr, s) =>
    let t := { s.osTmrTbl ptmr with
      osTmrState := .stopped, osTmrDly := dly, osTmrPeriod := period, osTmrOpt := opt, osTmrCallback := callback }
    (s.setTmr ptmr t, { ptmr := some ptmr })

def osTmrDel (s : Timers C) (ptmr : TmrId) : Timers C × TmrRet C :=
  match (s.osTmrTbl ptmr).osTmrState with
  | .running => (osTmrFree (osTmrUnlink s ptmr) ptmr, {})
  | .stopped | .completed => (osTmrFree s ptmr, {})
  | .unused => (s, { err := .inactive, ret := false })

def osTmrRemainGet (s : Timers C) (ptmr : TmrId) : TmrRet C :=
  let t := s.osTmrTbl ptmr
  match t.osTmrState with
  | .running => { remain := t.osTmrMatch - s.osTmrTime }
  | .stopped =>
    { remain := if t.osTmrOpt = osTmrOptPeriodic ∧ t.osTmrDly = 0 then t.osTmrPeriod else t.osTmrDly }
  | .completed => {}
  | .unused => { err := .inactive }

def osTmrStart (s : Timers C) (ptmr : TmrId) : Timers C × TmrRet C :=
  match (s.osTmrTbl ptmr).osTmrState with
  | .running => (osTmrLink (osTmrUnlink s ptmr) ptmr false, {})
  | .stopped | .completed => (osTmrLink s ptmr false, {})
  | .unused => (s, { err := .inactive, ret := false })

/-- `callbackArg` is the callback with the argument of this call. -/
def osTmrStop (s : Timers C) (ptmr : TmrId) (opt : UInt8) (callbackArg : C → C) : Timers C × TmrRet C :=
  match (s.osTmrTbl ptmr).osTmrState with
  | .running =>
    let s := osTmrUnlink s ptmr
    let pfnct := (s.osTmrTbl ptmr).osTmrCallback
    let err := if pfnct.isNone then .noCallback else .none
    if opt = osTmrOptCallback then (s, { err := err, called := pfnct })
    else if opt = osTmrOptCallbackArg then (s, { err := err, called := pfnct.map callbackArg })
    else (s, { err := if opt = osTmrOptNone then .none else .invalidOpt })
  | .completed | .stopped => (s, { err := .stopped })
  | .unused => (s, { err := .inactive, ret := false })

/-! ## The timers of `util.c` -/

/-- A handle that is set already stays. -/
def nstInitTimer (s : Timers C) (pTimer : Option TmrId) (timerFunc : Option C) (repeating : Bool) :
    Timers C × Option TmrId :=
  match pTimer with
  | some ptmr => (s, some ptmr)
  | none =>
    let (s, r) := osTmrCreate s 0 0 (if repeating then osTmrOptPeriodic else osTmrOptOneShot) timerFunc
    (s, r.ptmr)

/-- Ticks of 10 ms, at least one. -/
def nstTicks (value : UInt32) : UInt32 := if value / 10 = 0 then 1 else value / 10

/-- The settings that `NST_SetTimer` writes into the timer before it starts it. -/
def OsTmr.nstSet (t : OsTmr C) (value : UInt32) : OsTmr C :=
  if t.osTmrOpt = osTmrOptPeriodic then { t with osTmrPeriod := nstTicks value, osTmrDly := 0 }
  else { t with osTmrPeriod := 0, osTmrDly := nstTicks value }

/-- `NST_SetTimer` of a handle that is not `NULL`. -/
def nstStart (s : Timers C) (ptmr : TmrId) (value : UInt32) : Timers C × TmrRet C :=
  osTmrStart (s.setTmr ptmr ((s.osTmrTbl ptmr).nstSet value)) ptmr

def nstSetTimer (s : Timers C) (pTimer : Option TmrId) (value : UInt32) : Timers C :=
  match pTimer with
  | none => s
  | some ptmr => (nstStart s ptmr value).1

def nstCancelTimer (s : Timers C) (pTimer : Option TmrId) : Timers C :=
  match pTimer with
  | none => s
  | some ptmr => (osTmrStop s ptmr osTmrOptNone fun c => c).1

/-! ## The timer task -/

/-- A signal: `OSTmrTime++`, up to the loop. -/
def osTmrTick (s : Timers C) : Timers C :=
  let osTmrTime := s.osTmrTime + 1
  { s with osTmrTime := osTmrTime, ptmr := some (s.osTmrWheelTbl (spoke osTmrTime)).osTmrFirst }

/-- One turn of the loop, up to the callback. -/
def osTmrTurn (s : Timers C) (ptmr : TmrId) : Timers C × TmrRet C :=
  let t := s.osTmrTbl ptmr
  let s := { s with ptmr := some t.osTmrNext }
  if s.osTmrTime = t.osTmrMatch then
    let s := osTmrUnlink s ptmr
    let s :=
      if t.osTmrOpt = osTmrOptPeriodic then osTmrLink s ptmr true
      else s.setTmr ptmr { s.osTmrTbl ptmr with osTmrState := .completed }
    (s, { ptmr := some ptmr, called := t.osTmrCallback })
  else (s, {})

/-! ## Steps -/

inductive TmrCall (C : Type)
  | create (dly period : UInt32) (opt : UInt8) (callback : Option C)
  | del (ptmr : TmrId)
  | start (ptmr : TmrId)
  | stop (ptmr : TmrId) (opt : UInt8) (callbackArg : C → C)
  | nstStart (ptmr : TmrId) (value : UInt32)

def TmrCall.exec (s : Timers C) : TmrCall C → Timers C × TmrRet C
  | create dly period opt callback => osTmrCreate s dly period opt callback
  | del ptmr => osTmrDel s ptmr
  | start ptmr => osTmrStart s ptmr
  | stop ptmr opt callbackArg => osTmrStop s ptmr opt callbackArg
  | nstStart ptmr value => GizwitsSdk.nstStart s ptmr value

/-- `call`s are those of the tasks while the timer task waits, and of the callbacks while it does not. -/
inductive TmrAction (C : Type)
  | call (c : TmrCall C)
  | signal
  | turn
  | finish

def tmrStep (s : Timers C) : TmrAction C → Option (Timers C × TmrRet C)
  | .call c => some (c.exec s)
  | .signal => if s.ptmr = none then some (osTmrTick s, {}) else none
  | .turn =>
    match s.ptmr with
    | some (some ptmr) => some (osTmrTurn s ptmr)
    | _ => none
  | .finish => if s.ptmr = some none then some ({ s with ptmr := none }, {}) else none

def osTmrInit : Timers C where
  osTmrTbl i := { osTmrNext := if h : i.val + 1 < 16 then some ⟨i.val + 1, h⟩ else none }
  osTmrWheelTbl _ := {}
  osTmrFreeList := some ⟨0, Nat.succ_pos 15⟩
  osTmrFree := 16
  osTmrUsed := 0
  osTmrTime := 0
  ptmr := none

end

end GizwitsSdk
