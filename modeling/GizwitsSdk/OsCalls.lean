import GizwitsSdk.OsKernel

/-!
# The calls of the kernel

Semaphores, mailboxes and queues (`os_sem.c`, `os_mbox.c`, `os_q.c`) differ in
what an event holds, and share the rest. Tasks and time are those of
`os_task.c` and `os_time.c`. A call is one step, from its first critical section
to the switch that its `OS_Sched` makes: an interrupt in between makes the same
switch on its way out. What a pend does after the switch is a step of its own,
and so is `OS_TCBInit` in `OSTaskCreate`.
-/

namespace GizwitsSdk

open Lib

inductive KernelErr
  | none
  | eventType
  | pendIsr
  | timeout
  | pendLocked
  | pendAbort
  | mboxFull
  | qFull
  | qEmpty
  | prioExist
  | prioInvalid
  | semOvf
  | taskCreateIsr
  | taskDel
  | taskDelIdle
  | taskDelIsr
  | taskNoMoreTcb
  | taskNotExist
  | taskNotSuspended
  | taskResumePrio
  | taskSuspendPrio
  | taskWaiting
  | timeNotDly
  deriving DecidableEq, Repr

/-- What a call gives back: the error, the message, a count. `rdy` are the
priorities that `OS_EventTaskRdy` gave back inside the call. -/
structure Ret where
  err : KernelErr := .none
  msg : Ptr := 0
  cnt : Nat := 0
  rdy : List Prio := []
  deriving DecidableEq, Repr

/-! ## What an event holds -/

namespace OsEvent

def take : EventType → OsEvent → Option (Ptr × OsEvent)
  | .sem, ev => if 0 < ev.osEventCnt then some (0, { ev with osEventCnt := ev.osEventCnt - 1 }) else none
  | .mbox, ev => if ev.osEventPtr ≠ 0 then some (ev.osEventPtr, { ev with osEventPtr := 0 }) else none
  | .q, ev => if 0 < ev.osQ.entries then some (ev.osQ.head, { ev with osQ := ev.osQ.pop }) else none

def semPut (ev : OsEvent) : Option OsEvent :=
  if ev.osEventCnt < 65535 then some { ev with osEventCnt := ev.osEventCnt + 1 } else none

def mboxPut (pmsg : Ptr) (ev : OsEvent) : Option OsEvent :=
  if ev.osEventPtr ≠ 0 then none else some { ev with osEventPtr := pmsg }

def qPut (pmsg : Ptr) (ev : OsEvent) : Option OsEvent :=
  if ev.osQ.size ≤ ev.osQ.entries then none else some { ev with osQ := ev.osQ.push pmsg }

def qPutFront (pmsg : Ptr) (ev : OsEvent) : Option OsEvent :=
  if ev.osQ.size ≤ ev.osQ.entries then none else some { ev with osQ := ev.osQ.pushFront pmsg }

end OsEvent

section
variable {E : Type} [DecidableEq E]

/-! ## Accept, pend, post and abort -/

def osAccept (typ : EventType) (k : Kernel E) (e : E) : Kernel E × Option Ptr :=
  if (k.osEvent e).osEventType ≠ typ then (k, none)
  else match (k.osEvent e).take typ with
    | none => (k, none)
    | some (pmsg, ev) => (k.setEvent e ev, some pmsg)

/-- The count that the semaphore had. -/
def osSemAccept (k : Kernel E) (e : E) : Kernel E × Ret :=
  let cnt := if (k.osEvent e).osEventType ≠ .sem then 0 else (k.osEvent e).osEventCnt
  ((osAccept .sem k e).1, { cnt := cnt })

def osMboxAccept (k : Kernel E) (e : E) : Kernel E × Ret :=
  let r := osAccept .mbox k e
  (r.1, { msg := r.2.getD 0 })

def osQAccept (k : Kernel E) (e : E) : Kernel E × Ret :=
  let r := osAccept .q k e
  if (k.osEvent e).osEventType ≠ .q then (r.1, { err := .eventType })
  else match r.2 with
    | none => (r.1, { err := .qEmpty })
    | some pmsg => (r.1, { msg := pmsg })

/-- Up to the switch. Nothing is given back by a call that waits. -/
def osPend (typ : EventType) (k : Kernel E) (e : E) (timeout : UInt32) : Kernel E × Option Ret :=
  if (k.osEvent e).osEventType ≠ typ then (k, some { err := .eventType })
  else if 0 < k.osIntNesting then (k, some { err := .pendIsr })
  else if 0 < k.osLockNesting then (k, some { err := .pendLocked })
  else match (k.osEvent e).take typ with
    | some (pmsg, ev) => (k.setEvent e ev, some { msg := pmsg })
    | none =>
      match k.tcb k.osPrioCur with
      | none => (k, none)
      | some t =>
        let t := { t with
          osTcbStat := t.osTcbStat ||| typ.stat, osTcbStatPend := .ok, osTcbDly := timeout.toNat }
        (osSched (osEventTaskWait k t e), none)

def osSemPend (k : Kernel E) (e : E) (timeout : UInt32) : Kernel E × Option Ret := osPend .sem k e timeout
def osMboxPend (k : Kernel E) (e : E) (timeout : UInt32) : Kernel E × Option Ret := osPend .mbox k e timeout
def osQPend (k : Kernel E) (e : E) (timeout : UInt32) : Kernel E × Option Ret := osPend .q k e timeout

/-- The end of a pend, from `switch (OSTCBCur->OSTCBStatPend)` on. A semaphore leaves the message alone. -/
def osPendReturn (k : Kernel E) (t : Tcb E) (e : E) : Kernel E × Ret :=
  let sem : Bool := (k.osEvent e).osEventType = .sem
  let ret : Ret := match t.osTcbStatPend with
    | .ok => { msg := if sem then 0 else t.osTcbMsg }
    | .abort => { err := .pendAbort }
    | .to => { err := .timeout }
  let k := if t.osTcbStatPend = .to then osEventTaskRemove k k.osPrioCur e else k
  let t := { t with
    osTcbStat := osStatRdy, osTcbStatPend := .ok, osTcbEventPtr := none
    osTcbMsg := if sem then t.osTcbMsg else 0 }
  (k.setTcb k.osPrioCur t, ret)

def osPost (typ : EventType) (full : KernelErr) (put : OsEvent → Option OsEvent) (k : Kernel E) (e : E) (pmsg : Ptr) :
    Kernel E × Ret :=
  if (k.osEvent e).osEventType ≠ typ then (k, { err := .eventType })
  else if (k.waits e).grp ≠ 0 then
    let r := osEventTaskRdy k e pmsg typ.stat .ok
    (osSched r.1, { rdy := [r.2] })
  else match put (k.osEvent e) with
    | none => (k, { err := full })
    | some ev => (k.setEvent e ev, {})

def osSemPost (k : Kernel E) (e : E) : Kernel E × Ret := osPost .sem .semOvf OsEvent.semPut k e 0

def osMboxPost (k : Kernel E) (e : E) (pmsg : Ptr) : Kernel E × Ret :=
  osPost .mbox .mboxFull (OsEvent.mboxPut pmsg) k e pmsg

def osQPost (k : Kernel E) (e : E) (pmsg : Ptr) : Kernel E × Ret :=
  osPost .q .qFull (OsEvent.qPut pmsg) k e pmsg

def osQPostFront (k : Kernel E) (e : E) (pmsg : Ptr) : Kernel E × Ret :=
  osPost .q .qFull (OsEvent.qPutFront pmsg) k e pmsg

/-- `broadcast` is the option `OS_PEND_OPT_BROADCAST`. -/
def osPendAbort (typ : EventType) (k : Kernel E) (e : E) (broadcast : Bool) : Kernel E × Ret :=
  if (k.osEvent e).osEventType ≠ typ then (k, { err := .eventType })
  else if (k.waits e).grp ≠ 0 then
    let r := osEventTasksRdy e 0 typ.stat .abort (if broadcast then 64 else 1) k
    (osSched r.1, { err := .pendAbort, cnt := r.2.length, rdy := r.2 })
  else (k, {})

def osSemPendAbort (k : Kernel E) (e : E) (broadcast : Bool) : Kernel E × Ret := osPendAbort .sem k e broadcast
def osMboxPendAbort (k : Kernel E) (e : E) (broadcast : Bool) : Kernel E × Ret := osPendAbort .mbox k e broadcast
def osQPendAbort (k : Kernel E) (e : E) (broadcast : Bool) : Kernel E × Ret := osPendAbort .q k e broadcast

def osSemSet (k : Kernel E) (e : E) (cnt : UInt16) : Kernel E × Ret :=
  let ev := k.osEvent e
  if ev.osEventType ≠ .sem then (k, { err := .eventType })
  else if 0 < ev.osEventCnt ∨ ev.osEventTbl.grp = 0 then
    (k.setEvent e { ev with osEventCnt := cnt.toNat }, {})
  else (k, { err := .taskWaiting })

def osQFlush (k : Kernel E) (e : E) : Kernel E × Ret :=
  (k.setEvent e { k.osEvent e with osQ := (k.osEvent e).osQ.flush }, {})

/-! ## Time and tasks -/

/-- Nothing is left of the call when the delay is over. -/
def osTimeDly (k : Kernel E) (ticks : UInt32) : Kernel E × Ret :=
  if 0 < k.osIntNesting ∨ 0 < k.osLockNesting ∨ ticks = 0 then (k, {})
  else match k.tcb k.osPrioCur with
    | none => (k, {})
    | some t => (osSched ((k.unready k.osPrioCur).setTcb k.osPrioCur { t with osTcbDly := ticks.toNat }), {})

def osTimeDlyResume (k : Kernel E) (p : Prio) : Kernel E × Ret :=
  if osTaskIdlePrio ≤ p then (k, { err := .prioInvalid })
  else match k.tcb p with
    | none => (k, { err := .taskNotExist })
    | some t =>
      if t.osTcbDly = 0 then (k, { err := .timeNotDly })
      else
        let t := t.expire
        let k := readyUnlessSuspended k p t
        (if t.osTcbStat &&& osStatSuspend = osStatRdy then osSched k else k, {})

/-- `none` is `OS_PRIO_SELF`. -/
def osTaskSuspend (k : Kernel E) (prio : Option Prio) : Kernel E × Ret :=
  let p := prio.getD k.osPrioCur
  match k.osTcbPrioTbl p with
  | .null => (k, { err := .taskSuspendPrio })
  | .reserved => (k, { err := .taskNotExist })
  | .tcb t =>
    let k := (k.unready p).setTcb p { t with osTcbStat := t.osTcbStat ||| osStatSuspend }
    (if p = k.osPrioCur then osSched k else k, {})

def osTaskResume (k : Kernel E) (p : Prio) : Kernel E × Ret :=
  match k.osTcbPrioTbl p with
  | .null => (k, { err := .taskResumePrio })
  | .reserved => (k, { err := .taskNotExist })
  | .tcb t =>
    if t.osTcbStat &&& osStatSuspend ≠ osStatRdy then
      let t := { t with osTcbStat := t.osTcbStat &&& ~~~osStatSuspend }
      let k := k.setTcb p t
      (if t.osTcbStat = osStatRdy ∧ t.osTcbDly = 0 then osSched (k.makeReady p) else k, {})
    else (k, { err := .taskNotSuspended })

/-- Up to `OS_TCBInit`: the priority is reserved. -/
def osTaskCreate (k : Kernel E) (p : Prio) : Kernel E × Option Ret :=
  if 0 < k.osIntNesting then (k, some { err := .taskCreateIsr })
  else match k.osTcbPrioTbl p, k.tcb k.osPrioCur with
    | .null, some t => ((k.setSlot p .reserved).setTcb k.osPrioCur { t with creating := some p }, none)
    | _, _ => (k, some { err := .prioExist })

def newTask (k : Kernel E) (p : Prio) (free : Nat) : Kernel E :=
  ({ k.setTcb p {} with osTcbList := p :: k.osTcbList, osTcbFree := free } : Kernel E).makeReady p

/-- `OS_TCBInit`, and the rest of `OSTaskCreate`. -/
def osTcbInit (k : Kernel E) (t : Tcb E) (p : Prio) : Kernel E × Ret :=
  let k := k.setTcb k.osPrioCur { t with creating := none }
  if 0 < k.osTcbFree then (osSched (newTask k p (k.osTcbFree - 1)), {})
  else (k.setSlot p .null, { err := .taskNoMoreTcb })

def delTask (k : Kernel E) (p : Prio) (t : Tcb E) : Kernel E :=
  let k₁ := match t.osTcbEventPtr with
    | some e => osEventTaskRemove (k.unready p) p e
    | none => k.unready p
  { k₁.setSlot p .null with osTcbList := k.osTcbList.erase p, osTcbFree := k.osTcbFree + 1 }

/-- Between its two critical sections the scheduler is locked, and no interrupt
finds the task in a list any more. `none` is `OS_PRIO_SELF`. -/
def osTaskDel (k : Kernel E) (prio : Option Prio) : Kernel E × Ret :=
  let p := prio.getD k.osPrioCur
  if 0 < k.osIntNesting then (k, { err := .taskDelIsr })
  else if prio = some osTaskIdlePrio then (k, { err := .taskDelIdle })
  else match k.osTcbPrioTbl p with
    | .null => (k, { err := .taskNotExist })
    | .reserved => (k, { err := .taskDel })
    | .tcb t => (osSched (delTask k p t), {})

/-! ## Steps -/

inductive Call (E : Type)
  | semAccept (e : E)
  | mboxAccept (e : E)
  | qAccept (e : E)
  | semPend (e : E) (timeout : UInt32)
  | mboxPend (e : E) (timeout : UInt32)
  | qPend (e : E) (timeout : UInt32)
  | semPost (e : E)
  | mboxPost (e : E) (pmsg : Ptr)
  | qPost (e : E) (pmsg : Ptr)
  | qPostFront (e : E) (pmsg : Ptr)
  | semPendAbort (e : E) (broadcast : Bool)
  | mboxPendAbort (e : E) (broadcast : Bool)
  | qPendAbort (e : E) (broadcast : Bool)
  | semSet (e : E) (cnt : UInt16)
  | qFlush (e : E)
  | timeDly (ticks : UInt32)
  | timeDlyResume (p : Prio)
  | taskSuspend (prio : Option Prio)
  | taskResume (p : Prio)
  | taskCreate (p : Prio)
  | taskDel (prio : Option Prio)
  | schedLock
  | schedUnlock

def Call.exec (k : Kernel E) : Call E → Kernel E × Option Ret
  | semAccept e => (osSemAccept k e).map id some
  | mboxAccept e => (osMboxAccept k e).map id some
  | qAccept e => (osQAccept k e).map id some
  | semPend e timeout => osSemPend k e timeout
  | mboxPend e timeout => osMboxPend k e timeout
  | qPend e timeout => osQPend k e timeout
  | semPost e => (osSemPost k e).map id some
  | mboxPost e pmsg => (osMboxPost k e pmsg).map id some
  | qPost e pmsg => (osQPost k e pmsg).map id some
  | qPostFront e pmsg => (osQPostFront k e pmsg).map id some
  | semPendAbort e broadcast => (osSemPendAbort k e broadcast).map id some
  | mboxPendAbort e broadcast => (osMboxPendAbort k e broadcast).map id some
  | qPendAbort e broadcast => (osQPendAbort k e broadcast).map id some
  | semSet e cnt => (osSemSet k e cnt).map id some
  | qFlush e => (osQFlush k e).map id some
  | timeDly ticks => (osTimeDly k ticks).map id some
  | timeDlyResume p => (osTimeDlyResume k p).map id some
  | taskSuspend prio => (osTaskSuspend k prio).map id some
  | taskResume p => (osTaskResume k p).map id some
  | taskCreate p => osTaskCreate k p
  | taskDel prio => (osTaskDel k prio).map id some
  | schedLock => (osSchedLock k, some {})
  | schedUnlock => (osSchedUnlock k, some {})

/-- What the callers keep to, where the code has no check of its own. The idle
task is not suspended, only queues are flushed, and no task deletes itself with
the scheduler locked. -/
def Call.legal (k : Kernel E) : Call E → Prop
  | taskSuspend prio => prio.getD k.osPrioCur ≠ osTaskIdlePrio
  | qFlush e => (k.osEvent e).osEventType = .q
  | taskDel prio => prio.getD k.osPrioCur = k.osPrioCur → k.osLockNesting = 0
  | _ => True

instance (k : Kernel E) : (c : Call E) → Decidable (c.legal k)
  | .taskSuspend _ => inferInstanceAs (Decidable (_ ≠ _))
  | .qFlush _ => inferInstanceAs (Decidable (_ = _))
  | .taskDel _ => inferInstanceAs (Decidable (_ → _))
  | .semAccept _ | .mboxAccept _ | .qAccept _ | .semPend _ _ | .mboxPend _ _ | .qPend _ _ | .semPost _ | .mboxPost _ _
  | .qPost _ _ | .qPostFront _ _ | .semPendAbort _ _ | .mboxPendAbort _ _ | .qPendAbort _ _ | .semSet _ _
  | .timeDly _ | .timeDlyResume _ | .taskResume _ | .taskCreate _ | .schedLock | .schedUnlock => isTrue trivial

inductive Action (E : Type)
  | call (c : Call E)
  | pendReturn
  | tcbInit
  | intEnter
  | intExit
  | timeTick
  | tickTask

/-- Where the code of the task that runs stands: in no call of the kernel, after
the switch of a pend, or in `OSTaskCreate`. -/
inductive Place (E : Type)
  | own
  | pend (t : Tcb E) (e : E)
  | create (t : Tcb E) (p : Prio)

def Kernel.place (k : Kernel E) : Option (Place E) :=
  match k.tcb k.osPrioCur with
  | none => none
  | some t =>
    match t.osTcbEventPtr, t.creating with
    | some e, _ => some (.pend t e)
    | none, some p => some (.create t p)
    | none, none => some .own

def Kernel.inOwn (k : Kernel E) : Bool :=
  match k.place with
  | some .own => true
  | _ => false

/-- Does the tick interrupt stand above all others? -/
def Kernel.tickOnTop (k : Kernel E) : Bool :=
  match k.tick with
  | some (level, _) => level = k.osIntNesting
  | none => false

/-- One step, or `none` where the action cannot be next. The idle task makes no
calls. An interrupt goes off before what it has interrupted goes on. -/
def kernelStep (k : Kernel E) : Action E → Option (Kernel E × Option Ret)
  | .call c =>
    if c.legal k ∧ ¬k.tickOnTop ∧ (k.osIntNesting = 0 → k.osPrioCur ≠ osTaskIdlePrio ∧ k.inOwn) then some (c.exec k)
    else none
  | .pendReturn =>
    match k.place with
    | some (.pend t e) => if k.osIntNesting = 0 then some ((osPendReturn k t e).map id some) else none
    | _ => none
  | .tcbInit =>
    match k.place with
    | some (.create t p) => if k.osIntNesting = 0 then some ((osTcbInit k t p).map id some) else none
    | _ => none
  | .intEnter => if k.osIntNesting < 255 then some (osIntEnter k, none) else none
  | .intExit => if 0 < k.osIntNesting ∧ ¬k.tickOnTop then some (osIntExit k, none) else none
  | .timeTick => if 0 < k.osIntNesting ∧ k.tick = none then some (osTimeTick k, none) else none
  | .tickTask =>
    match k.tick with
    | some (level, p :: ps) =>
      if level = k.osIntNesting then some ({ osTimeTickTask k p with tick := some (level, ps) }, none) else none
    | some (level, []) => if level = k.osIntNesting then some ({ k with tick := none }, none) else none
    | none => none

end

end GizwitsSdk
