import GizwitsSdk.Lib.Machine
import GizwitsSdk.Lib.Sweep
import GizwitsSdk.Lib.Wrap

/-!
# Software timers: `core_gagent.c`

Thirty-two slots hold the timers. A tick counts each one down by a second; at 0
its callback is called, and a timer for one time gives its slot back. The
interrupt only counts the ticks that the main loop is to make.
-/

namespace GizwitsSdk

open Lib

def gagentTimerPeriod : Int := 1
def gagentTimerClock : Int := 2

/-- `F` stands for the callbacks. The number `id` is not in the source: it tells
a timer from those that had its slot before. -/
structure CoreGAgentTimer (F : Type) where
  flag : Int := 0
  nextSeconds : Int32 := 0
  initSecods : Int32 := 0
  pfFunc : Option F := none
  id : Nat := 0

structure TimerCall (F : Type) where
  slot : Fin 32
  id : Nat
  pfFunc : Option F
  deriving DecidableEq

structure TimerSt (F : Type) where
  timers : Fin 32 → CoreGAgentTimer F := fun _ => {}
  interruptTime : Nat := 0
  /-- Timers created, ticks made and calls, none of them in the source. -/
  created : Nat := 0
  ticks : Nat := 0
  calls : List (TimerCall F) := []

section
variable {F : Type}

/-! ## Creating -/

def timerSeconds (ms : UInt32) : Int32 := ((ms + 900) / 1000).toInt32

/-- The slot that a timer is given, -1 being `none`. -/
def freeSlot (flag : Int) (s : TimerSt F) : Option (Fin 32) :=
  if flag ≠ gagentTimerPeriod ∧ flag ≠ gagentTimerClock then none
  else (List.finRange 32).find? fun i => (s.timers i).flag = 0

def gAgentCreateTimer (flag : Int) (ms : UInt32) (pfFunc : F) (s : TimerSt F) : TimerSt F :=
  match freeSlot flag s with
  | some i =>
    { s with
      timers := Function.update s.timers i
        { flag, nextSeconds := timerSeconds ms, initSecods := timerSeconds ms, pfFunc := some pfFunc, id := s.created }
      created := s.created + 1 }
  | none => s

/-! ## Ticks -/

/-- A timer in use comes to 0. -/
def expires (t : CoreGAgentTimer F) : Bool := t.flag ≠ 0 && t.nextSeconds - 1 = 0

def countDown (t : CoreGAgentTimer F) : CoreGAgentTimer F :=
  if t.flag = 0 then t
  else if t.nextSeconds - 1 = 0 then
    if t.flag = gagentTimerClock then { t with nextSeconds := 0, flag := 0, initSecods := 0 }
    else { t with nextSeconds := t.initSecods }
  else { t with nextSeconds := t.nextSeconds - 1 }

/-- One slot of the loop of `GAgent_Timer`. -/
def timerSlot (s : TimerSt F) (i : Fin 32) : TimerSt F :=
  let t := s.timers i
  { s with
    timers := Function.update s.timers i (countDown t)
    calls := if expires t then ⟨i, t.id, t.pfFunc⟩ :: s.calls else s.calls }

def gAgentTimer (s : TimerSt F) : TimerSt F :=
  (List.finRange 32).foldl timerSlot { s with ticks := s.ticks + 1 }

/-- The loop of `GAgent_TimerRun`, with as many passes as there are ticks to make. -/
def timerLoop : Nat → TimerSt F → TimerSt F
  | 0, s => s
  | n + 1, s => timerLoop n (gAgentTimer { s with interruptTime := n })

def gAgentTimerRun (s : TimerSt F) : TimerSt F := timerLoop s.interruptTime s

inductive TimerEv (F : Type)
  | create (flag : Int) (ms : UInt32) (pfFunc : F)
  | handler
  | timerRun

def timerStep (s : TimerSt F) : TimerEv F → TimerSt F
  | .create flag ms pfFunc => gAgentCreateTimer flag ms pfFunc s
  | .handler => { s with interruptTime := s.interruptTime + 1 }
  | .timerRun => gAgentTimerRun s

end

end GizwitsSdk
