import GizwitsSdk.Lib.BitTable
import GizwitsSdk.Lib.RingBuffer

/-!
# The kernel of `os_core.c`

The tasks that may run are the flags of a bit table, and so are the tasks that
wait for an event. The processor is given to the least flag of the ready table.
A task that has to wait leaves the ready table in one critical section and
comes back to the rest of its call in another, with everything that other tasks
and interrupts did in between.

`OS_LOWEST_PRIO` is 63 and `OS_ARG_CHK_EN` is 0. A priority names a task, so
the two are one type here. Mutexes, event flags and waits for several events
are not part of the model.
-/

namespace GizwitsSdk

open Lib

abbrev Prio := Fin 64

/-- A `void *`. -/
abbrev Ptr := UInt32

abbrev osTaskIdlePrio : Prio := 63

/-- `OSUnMapTbl`, sixteen values a line as in the source. -/
def osUnMapTbl : Vector (Vector UInt8 16) 16 :=
  #v[#v[0, 0, 1, 0, 2, 0, 1, 0, 3, 0, 1, 0, 2, 0, 1, 0],
     #v[4, 0, 1, 0, 2, 0, 1, 0, 3, 0, 1, 0, 2, 0, 1, 0],
     #v[5, 0, 1, 0, 2, 0, 1, 0, 3, 0, 1, 0, 2, 0, 1, 0],
     #v[4, 0, 1, 0, 2, 0, 1, 0, 3, 0, 1, 0, 2, 0, 1, 0],
     #v[6, 0, 1, 0, 2, 0, 1, 0, 3, 0, 1, 0, 2, 0, 1, 0],
     #v[4, 0, 1, 0, 2, 0, 1, 0, 3, 0, 1, 0, 2, 0, 1, 0],
     #v[5, 0, 1, 0, 2, 0, 1, 0, 3, 0, 1, 0, 2, 0, 1, 0],
     #v[4, 0, 1, 0, 2, 0, 1, 0, 3, 0, 1, 0, 2, 0, 1, 0],
     #v[7, 0, 1, 0, 2, 0, 1, 0, 3, 0, 1, 0, 2, 0, 1, 0],
     #v[4, 0, 1, 0, 2, 0, 1, 0, 3, 0, 1, 0, 2, 0, 1, 0],
     #v[5, 0, 1, 0, 2, 0, 1, 0, 3, 0, 1, 0, 2, 0, 1, 0],
     #v[4, 0, 1, 0, 2, 0, 1, 0, 3, 0, 1, 0, 2, 0, 1, 0],
     #v[6, 0, 1, 0, 2, 0, 1, 0, 3, 0, 1, 0, 2, 0, 1, 0],
     #v[4, 0, 1, 0, 2, 0, 1, 0, 3, 0, 1, 0, 2, 0, 1, 0],
     #v[5, 0, 1, 0, 2, 0, 1, 0, 3, 0, 1, 0, 2, 0, 1, 0],
     #v[4, 0, 1, 0, 2, 0, 1, 0, 3, 0, 1, 0, 2, 0, 1, 0]]

def osUnMap (b : BitVec 8) : Fin 8 :=
  have := b.isLt
  ⟨osUnMapTbl[b.toNat / 16][b.toNat % 16].toNat % 8, Nat.mod_lt _ (Nat.succ_pos 7)⟩

theorem osUnMap_isLowest : BitTable.IsLowest osUnMap := by
  constructor
  · decide +kernel
  · decide +kernel

/-! ## Task control blocks -/

abbrev osStatRdy : BitVec 8 := 0x00
abbrev osStatSuspend : BitVec 8 := 0x08
abbrev osStatPendAny : BitVec 8 := 0x37

inductive StatPend
  | ok
  | to
  | abort
  deriving DecidableEq, Repr

/-- `OS_TCB`. `OSTCBY`, `OSTCBX` and their bits are the row and the column of
the priority. `creating` is where the code of the task stands in
`OSTaskCreate`: the priority it has reserved. -/
structure Tcb (E : Type) where
  osTcbStat : BitVec 8 := osStatRdy
  osTcbStatPend : StatPend := .ok
  osTcbDly : Nat := 0
  osTcbEventPtr : Option E := none
  osTcbMsg : Ptr := 0
  creating : Option Prio := none
  deriving DecidableEq

inductive Slot (E : Type)
  | null
  | reserved
  | tcb (t : Tcb E)

/-! ## Event control blocks -/

inductive EventType
  | sem
  | mbox
  | q
  deriving DecidableEq, Repr

/-- `OS_STAT_SEM`, `OS_STAT_MBOX` and `OS_STAT_Q`. -/
def EventType.stat : EventType → BitVec 8
  | sem => 0x01
  | mbox => 0x02
  | q => 0x04

/-- `OS_EVENT`. `OSEventPtr` is the message of a mailbox, and for a queue it
leads to the `OS_Q`, the ring `osQ`. -/
structure OsEvent where
  osEventType : EventType
  osEventTbl : BitTable := BitTable.empty
  osEventCnt : Nat := 0
  osEventPtr : Ptr := 0
  osQ : RingBuffer Ptr := ⟨0, fun _ => 0, 0, 0, 0⟩

/-! ## The kernel -/

/-- The globals of the kernel, while it runs. `tick` is an `OSTimeTick` on its
way: how deep its interrupt is nested, and the tasks it has still to look at. -/
structure Kernel (E : Type) where
  osRdy : BitTable
  osTcbPrioTbl : Prio → Slot E
  osTcbList : List Prio
  osTcbFree : Nat
  osEvent : E → OsEvent
  osPrioCur : Prio
  osIntNesting : Nat := 0
  osLockNesting : Nat := 0
  osTime : UInt32 := 0
  tick : Option (Nat × List Prio) := none

namespace Kernel

variable {E : Type} [DecidableEq E]

def tcb (k : Kernel E) (p : Prio) : Option (Tcb E) :=
  match k.osTcbPrioTbl p with
  | .tcb t => some t
  | _ => none

def setSlot (k : Kernel E) (p : Prio) (s : Slot E) : Kernel E :=
  { k with osTcbPrioTbl := Function.update k.osTcbPrioTbl p s }

def setTcb (k : Kernel E) (p : Prio) (t : Tcb E) : Kernel E := k.setSlot p (.tcb t)

def setEvent (k : Kernel E) (e : E) (ev : OsEvent) : Kernel E :=
  { k with osEvent := Function.update k.osEvent e ev }

/-- `OSRdyGrp |= BitY; OSRdyTbl[Y] |= BitX`. -/
def makeReady (k : Kernel E) (p : Prio) : Kernel E := { k with osRdy := k.osRdy.insert p }

/-- `OSRdyTbl[Y] &= ~BitX`, and `OSRdyGrp &= ~BitY` for an empty row. -/
def unready (k : Kernel E) (p : Prio) : Kernel E := { k with osRdy := k.osRdy.remove p }

def waits (k : Kernel E) (e : E) : BitTable := (k.osEvent e).osEventTbl

def setWaits (k : Kernel E) (e : E) (t : BitTable) : Kernel E :=
  k.setEvent e { k.osEvent e with osEventTbl := t }

end Kernel

section
variable {E : Type} [DecidableEq E]

/-! ## The scheduler -/

/-- `OS_SchedNew`: `OSPrioHighRdy`. -/
def osSchedNew (k : Kernel E) : Prio := k.osRdy.highest osUnMap

/-- `OS_Sched`. No switch where the highest is the task that runs. -/
def osSched (k : Kernel E) : Kernel E :=
  if k.osIntNesting = 0 ∧ k.osLockNesting = 0 then { k with osPrioCur := osSchedNew k } else k

def osIntEnter (k : Kernel E) : Kernel E :=
  if k.osIntNesting < 255 then { k with osIntNesting := k.osIntNesting + 1 } else k

def osIntExit (k : Kernel E) : Kernel E := osSched { k with osIntNesting := k.osIntNesting - 1 }

def osSchedLock (k : Kernel E) : Kernel E :=
  if k.osIntNesting = 0 ∧ k.osLockNesting < 255 then { k with osLockNesting := k.osLockNesting + 1 } else k

def osSchedUnlock (k : Kernel E) : Kernel E :=
  if 0 < k.osLockNesting then osSched { k with osLockNesting := k.osLockNesting - 1 } else k

/-! ## Wait lists -/

def osEventTaskRemove (k : Kernel E) (p : Prio) (e : E) : Kernel E := k.setWaits e ((k.waits e).remove p)

def osEventTaskWait (k : Kernel E) (t : Tcb E) (e : E) : Kernel E :=
  ((k.setTcb k.osPrioCur { t with osTcbEventPtr := some e }).setWaits e ((k.waits e).insert k.osPrioCur)).unready
    k.osPrioCur

/-- The fields that `OS_EventTaskRdy` sets. -/
def Tcb.wake (t : Tcb E) (pmsg : Ptr) (msk : BitVec 8) (pendStat : StatPend) : Tcb E :=
  { t with osTcbDly := 0, osTcbMsg := pmsg, osTcbStat := t.osTcbStat &&& ~~~msk, osTcbStatPend := pendStat }

/-- The control block of `p`, and its place in the ready table, after its wait. -/
def readyUnlessSuspended (k : Kernel E) (p : Prio) (t : Tcb E) : Kernel E :=
  let k := k.setTcb p t
  if t.osTcbStat &&& osStatSuspend = osStatRdy then k.makeReady p else k

/-- The task with the highest priority of those that wait for `e` is ready, unless it is suspended. -/
def osEventTaskRdy (k : Kernel E) (e : E) (pmsg : Ptr) (msk : BitVec 8) (pendStat : StatPend) : Kernel E × Prio :=
  let prio := (k.waits e).highest osUnMap
  match k.tcb prio with
  | none => (k, prio)
  | some ptcb => (osEventTaskRemove (readyUnlessSuspended k prio (ptcb.wake pmsg msk pendStat)) prio e, prio)

/-- The loop `while (pevent->OSEventGrp != 0)`, with as many turns as there may be tasks. -/
def osEventTasksRdy (e : E) (pmsg : Ptr) (msk : BitVec 8) (pendStat : StatPend) :
    Nat → Kernel E → Kernel E × List Prio
  | 0, k => (k, [])
  | n + 1, k =>
    if (k.waits e).grp = 0 then (k, [])
    else
      let r := osEventTaskRdy k e pmsg msk pendStat
      let rs := osEventTasksRdy e pmsg msk pendStat n r.1
      (rs.1, r.2 :: rs.2)

/-! ## The tick -/

/-- The start of `OSTimeTick`: the time, and the list up to the idle task. -/
def osTimeTick (k : Kernel E) : Kernel E :=
  { k with
    osTime := k.osTime + 1
    tick := some (k.osIntNesting, k.osTcbList.takeWhile (· ≠ osTaskIdlePrio)) }

/-- The delay of a task has run out, or `OSTimeDlyResume` ends it. -/
def Tcb.expire (t : Tcb E) : Tcb E :=
  if t.osTcbStat &&& osStatPendAny ≠ osStatRdy then
    { t with osTcbDly := 0, osTcbStat := t.osTcbStat &&& ~~~osStatPendAny, osTcbStatPend := .to }
  else { t with osTcbDly := 0, osTcbStatPend := .ok }

/-- One critical section of the loop of `OSTimeTick`. -/
def osTimeTickTask (k : Kernel E) (p : Prio) : Kernel E :=
  match k.tcb p with
  | none => k
  | some t =>
    if t.osTcbDly ≠ 0 then
      let t := { t with osTcbDly := t.osTcbDly - 1 }
      if t.osTcbDly = 0 then readyUnlessSuspended k p t.expire else k.setTcb p t
    else k

end

end GizwitsSdk
