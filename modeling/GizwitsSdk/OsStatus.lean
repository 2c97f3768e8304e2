import GizwitsSdk.OsCalls

/-!
# What a task is doing

The bytes of a task control block, a flag of the ready table and a flag of each
wait list say one thing between them: where the task stands with the kernel.
`Shows` ties the three to that one status, task by task, so that a change to
one task is a change to its status and to nothing else.
-/

namespace GizwitsSdk

open Lib

/-- Where a task stands: in its own code, in `OSTimeDly`, or in a pend. A
timeout of 0 ticks is none. A task whose timeout has run out is still in the
wait list until it runs. -/
inductive Phase (E : Type)
  | own
  | delayed (n : Nat)
  | waiting (e : E) (n : Nat)
  | timedOut (e : E)
  | given (e : E) (pmsg : Ptr)
  | aborted (e : E)
  deriving DecidableEq

structure Status (E : Type) where
  phase : Phase E
  suspended : Bool
  deriving DecidableEq

namespace Phase

variable {E : Type}

/-- Does the task run, once it is not suspended? -/
def awake : Phase E → Bool
  | delayed _ | waiting _ _ => false
  | own | timedOut _ | given _ _ | aborted _ => true

def waitsFor : Phase E → Option E
  | waiting e _ | timedOut e => some e
  | own | delayed _ | given _ _ | aborted _ => none

/-- The event of the pend that the code of the task is in. -/
def inPend : Phase E → Option E
  | waiting e _ | timedOut e | given e _ | aborted e => some e
  | own | delayed _ => none

theorem inPend_of_waitsFor {ph : Phase E} {e : E} (h : ph.waitsFor = some e) : ph.inPend = some e := by
  cases ph with
  | waiting e' n | timedOut e' => exact h
  | own | delayed n | given e' m | aborted e' => cases h

def ticks : Phase E → Nat
  | delayed n | waiting _ n => n
  | own | timedOut _ | given _ _ | aborted _ => 0

def expire : Phase E → Phase E
  | delayed _ => own
  | waiting e _ => timedOut e
  | ph => ph

def tick : Phase E → Phase E
  | delayed n => if n = 1 then own else delayed (n - 1)
  | waiting e n => if n = 0 then waiting e 0 else if n = 1 then timedOut e else waiting e (n - 1)
  | ph => ph

end Phase

def Status.runnable {E : Type} (s : Status E) : Bool := s.phase.awake && !s.suspended

/-! ## The status byte -/

def statOf (suspended : Bool) (pend : Option EventType) : BitVec 8 :=
  (if suspended then osStatSuspend else 0) ||| pend.elim 0 EventType.stat

section
variable (b : Bool) (typ : EventType)

theorem statOf_set : statOf b none ||| typ.stat = statOf b (some typ) := by
  cases b <;> cases typ <;> rfl

theorem statOf_clear : statOf b (some typ) &&& ~~~typ.stat = statOf b none := by
  cases b <;> cases typ <;> rfl

theorem statOf_clear_none : statOf b none &&& ~~~typ.stat = statOf b none := by
  cases b <;> cases typ <;> rfl

theorem statOf_clear_any (pend : Option EventType) : statOf b pend &&& ~~~osStatPendAny = statOf b none := by
  cases b <;> rcases pend with _ | _ | _ | _ <;> rfl

theorem statOf_pending (pend : Option EventType) :
    statOf b pend &&& osStatPendAny ≠ osStatRdy ↔ pend.isSome = true := by
  cases b <;> rcases pend with _ | _ | _ | _ <;> decide

theorem statOf_suspended (pend : Option EventType) : statOf b pend &&& osStatSuspend = osStatRdy ↔ b = false := by
  cases b <;> rcases pend with _ | _ | _ | _ <;> decide

theorem statOf_suspend (pend : Option EventType) : statOf b pend ||| osStatSuspend = statOf true pend := by
  cases b <;> rcases pend with _ | _ | _ | _ <;> rfl

theorem statOf_resume (pend : Option EventType) : statOf b pend &&& ~~~osStatSuspend = statOf false pend := by
  cases b <;> rcases pend with _ | _ | _ | _ <;> rfl

theorem statOf_rdy (pend : Option EventType) : statOf b pend = osStatRdy ↔ b = false ∧ pend = none := by
  cases b <;> rcases pend with _ | _ | _ | _ <;> decide

theorem statOf_bit : statOf b (some typ) &&& typ.stat ≠ osStatRdy := by
  cases b <;> cases typ <;> decide

theorem statOf_bit_none : statOf b none &&& typ.stat = osStatRdy := by
  cases b <;> cases typ <;> rfl

end

def Phase.pendBit {E : Type} (typ : E → EventType) : Phase E → Option EventType
  | waiting e _ => some (typ e)
  | _ => none

/-- The control block of a task with this status. -/
structure Tcb.Is {E : Type} (typ : E → EventType) (t : Tcb E) (s : Status E) : Prop where
  stat : t.osTcbStat = statOf s.suspended (s.phase.pendBit typ)
  eventPtr : t.osTcbEventPtr = s.phase.inPend
  dly : t.osTcbDly = s.phase.ticks
  statPend : match s.phase with
    | .own => True
    | .delayed n => 0 < n
    | .waiting _ _ => t.osTcbStatPend = .ok
    | .timedOut _ => t.osTcbStatPend = .to
    | .given _ pmsg => t.osTcbStatPend = .ok ∧ t.osTcbMsg = pmsg
    | .aborted _ => t.osTcbStatPend = .abort

def Tcb.status {E : Type} (typ : E → EventType) (t : Tcb E) : Status E where
  suspended := t.osTcbStat &&& osStatSuspend ≠ osStatRdy
  phase := match t.osTcbEventPtr with
    | none => if t.osTcbDly = 0 then .own else .delayed t.osTcbDly
    | some e =>
      if t.osTcbStat &&& (typ e).stat ≠ osStatRdy then .waiting e t.osTcbDly
      else match t.osTcbStatPend with
        | .ok => .given e t.osTcbMsg
        | .to => .timedOut e
        | .abort => .aborted e

section
variable {E : Type}

namespace Kernel

def typ (k : Kernel E) (e : E) : EventType := (k.osEvent e).osEventType

def status (k : Kernel E) (p : Prio) : Option (Status E) := (k.tcb p).map (Tcb.status k.typ)

def creating (k : Kernel E) (p : Prio) : Option Prio := (k.tcb p).bind Tcb.creating

/-- The tables and the control block of `p` agree on a status. -/
structure Shows (k : Kernel E) (p : Prio) (os : Option (Status E)) : Prop where
  tcb : match os with
    | none => k.tcb p = none
    | some s => ∃ t, k.tcb p = some t ∧ t.Is k.typ s
  rdy : p ∈ k.osRdy ↔ os.any Status.runnable = true
  waits : ∀ e, p ∈ k.waits e ↔ ∃ s, os = some s ∧ s.phase.waitsFor = some e

end Kernel

/-- All of an event control block but its wait list. -/
def OsEvent.held (ev : OsEvent) : OsEvent := { ev with osEventTbl := BitTable.empty }

/-- Only what the tables say of `p` may change. -/
structure Moves (k k' : Kernel E) (p : Prio) : Prop where
  rdyWf : k.osRdy.Wf → k'.osRdy.Wf
  waitsWf : ∀ e, (k.waits e).Wf → (k'.waits e).Wf
  rdy : ∀ q, q ≠ p → (q ∈ k'.osRdy ↔ q ∈ k.osRdy)
  waits : ∀ e q, q ≠ p → (q ∈ k'.waits e ↔ q ∈ k.waits e)
  slot : ∀ q, q ≠ p → k'.osTcbPrioTbl q = k.osTcbPrioTbl q
  held : ∀ e, (k'.osEvent e).held = (k.osEvent e).held

namespace Moves

variable {k k₁ k₂ : Kernel E} {p q : Prio} {e : E}

theorem refl (k : Kernel E) (p : Prio) : Moves k k p :=
  ⟨id, fun _ => id, fun _ _ => Iff.rfl, fun _ _ _ => Iff.rfl, fun _ _ => rfl, fun _ => rfl⟩

theorem trans (h₁ : Moves k k₁ p) (h₂ : Moves k₁ k₂ p) : Moves k k₂ p where
  rdyWf h := h₂.rdyWf (h₁.rdyWf h)
  waitsWf e h := h₂.waitsWf e (h₁.waitsWf e h)
  rdy q hq := (h₂.rdy q hq).trans (h₁.rdy q hq)
  waits _ q hq := (h₂.waits _ q hq).trans (h₁.waits _ q hq)
  slot q hq := (h₂.slot q hq).trans (h₁.slot q hq)
  held e := (h₂.held e).trans (h₁.held e)

theorem typ_eq (h : Moves k k₁ p) : k₁.typ = k.typ := by
  funext e
  have he : (k₁.osEvent e).held.osEventType = (k.osEvent e).held.osEventType := congrArg _ (h.held e)
  exact he

theorem tcb_eq (h : Moves k k₁ p) (hq : q ≠ p) : k₁.tcb q = k.tcb q := by
  rw [Kernel.tcb, Kernel.tcb, h.slot q hq]

theorem creating_eq (h : Moves k k₁ p) (hq : q ≠ p) : k₁.creating q = k.creating q := by
  rw [Kernel.creating, Kernel.creating, h.tcb_eq hq]

theorem shows_other (h : Moves k k₁ p) (hq : q ≠ p) {os : Option (Status E)} (hs : k.Shows q os) :
    k₁.Shows q os := by
  refine ⟨?_, (h.rdy q hq).trans hs.rdy, fun e => (h.waits e q hq).trans (hs.waits e)⟩
  rw [h.typ_eq, h.tcb_eq hq]
  exact hs.tcb

end Moves

/-- The processor, the time and the list of the tasks stay as they are. -/
structure Still (k k' : Kernel E) : Prop where
  cur : k'.osPrioCur = k.osPrioCur
  intNesting : k'.osIntNesting = k.osIntNesting
  lockNesting : k'.osLockNesting = k.osLockNesting
  time : k'.osTime = k.osTime
  tick : k'.tick = k.tick
  list : k'.osTcbList = k.osTcbList
  free : k'.osTcbFree = k.osTcbFree

theorem Still.refl (k : Kernel E) : Still k k := ⟨rfl, rfl, rfl, rfl, rfl, rfl, rfl⟩

theorem Still.trans {k k₁ k₂ : Kernel E} (h₁ : Still k k₁) (h₂ : Still k₁ k₂) : Still k k₂ :=
  ⟨h₂.cur.trans h₁.cur, h₂.intNesting.trans h₁.intNesting, h₂.lockNesting.trans h₁.lockNesting,
    h₂.time.trans h₁.time, h₂.tick.trans h₁.tick, h₂.list.trans h₁.list, h₂.free.trans h₁.free⟩

end

/-! ## The operations one by one -/

section
variable {E : Type}

namespace Kernel

variable (k : Kernel E) (p q : Prio) (e : E) (t : Tcb E)

@[simp] theorem mem_makeReady : q ∈ (k.makeReady p).osRdy ↔ q = p ∨ q ∈ k.osRdy := BitTable.mem_insert
@[simp] theorem tcb_makeReady : (k.makeReady p).tcb q = k.tcb q := rfl
@[simp] theorem typ_makeReady : (k.makeReady p).typ = k.typ := rfl
@[simp] theorem waits_makeReady : (k.makeReady p).waits e = k.waits e := rfl

@[simp] theorem mem_unready : q ∈ (k.unready p).osRdy ↔ q ≠ p ∧ q ∈ k.osRdy := BitTable.mem_remove
@[simp] theorem tcb_unready : (k.unready p).tcb q = k.tcb q := rfl
@[simp] theorem typ_unready : (k.unready p).typ = k.typ := rfl
@[simp] theorem waits_unready : (k.unready p).waits e = k.waits e := rfl

@[simp] theorem tcb_setTcb : (k.setTcb p t).tcb p = some t := by simp [tcb, setTcb, setSlot]
@[simp] theorem osRdy_setTcb : (k.setTcb p t).osRdy = k.osRdy := rfl
@[simp] theorem typ_setTcb : (k.setTcb p t).typ = k.typ := rfl
@[simp] theorem waits_setTcb : (k.setTcb p t).waits e = k.waits e := rfl

theorem moves_makeReady : Moves k (k.makeReady p) p where
  rdyWf h := h.insert p
  waitsWf _ := id
  rdy q hq := by simp [hq]
  waits _ _ _ := Iff.rfl
  slot _ _ := rfl
  held _ := rfl

theorem moves_unready : Moves k (k.unready p) p where
  rdyWf h := h.remove p
  waitsWf _ := id
  rdy q hq := by simp [hq]
  waits _ _ _ := Iff.rfl
  slot _ _ := rfl
  held _ := rfl

theorem moves_setSlot (s : Slot E) : Moves k (k.setSlot p s) p where
  rdyWf := id
  waitsWf _ := id
  rdy _ _ := Iff.rfl
  waits _ _ _ := Iff.rfl
  slot _ hq := Function.update_of_ne hq ..
  held _ := rfl

theorem moves_setTcb : Moves k (k.setTcb p t) p := k.moves_setSlot p (.tcb t)

end Kernel

end

section
variable {E : Type} [DecidableEq E]

namespace Kernel

variable (k : Kernel E) (p q : Prio) (e e' : E) (tbl : BitTable)

theorem waits_setWaits : (k.setWaits e tbl).waits e' = if e' = e then tbl else k.waits e' := by
  by_cases h : e' = e
  · subst h
    simp [waits, setWaits, setEvent]
  · simp [waits, setWaits, setEvent, h]

@[simp] theorem osRdy_setWaits : (k.setWaits e tbl).osRdy = k.osRdy := rfl
@[simp] theorem tcb_setWaits : (k.setWaits e tbl).tcb q = k.tcb q := rfl

theorem held_setWaits : ((k.setWaits e tbl).osEvent e').held = (k.osEvent e').held := by
  by_cases h : e' = e
  · subst h
    simp [setWaits, setEvent, OsEvent.held]
  · simp [setWaits, setEvent, h]

theorem moves_setWaits (hwf : (k.waits e).Wf → tbl.Wf) (hmem : ∀ q, q ≠ p → (q ∈ tbl ↔ q ∈ k.waits e)) :
    Moves k (k.setWaits e tbl) p where
  rdyWf := id
  waitsWf e' h := by
    rw [waits_setWaits]
    split
    · case isTrue he => exact hwf (he ▸ h)
    · case isFalse he => exact h
  rdy _ _ := Iff.rfl
  waits e' q hq := by
    rw [waits_setWaits]
    split
    · case isTrue he => exact he ▸ hmem q hq
    · case isFalse he => exact Iff.rfl
  slot _ _ := rfl
  held e' := k.held_setWaits e e' tbl

@[simp] theorem typ_setWaits : (k.setWaits e tbl).typ = k.typ := by
  funext e'
  have h : ((k.setWaits e tbl).osEvent e').held.osEventType = (k.osEvent e').held.osEventType :=
    congrArg _ (k.held_setWaits e e' tbl)
  exact h

theorem moves_remove : Moves k (osEventTaskRemove k p e) p :=
  k.moves_setWaits p e _ (fun h => h.remove p) fun q hq => by simp [BitTable.mem_remove, hq]

theorem moves_insert : Moves k (k.setWaits e ((k.waits e).insert p)) p :=
  k.moves_setWaits p e _ (fun h => h.insert p) fun q hq => by simp [BitTable.mem_insert, hq]

end Kernel

end

end GizwitsSdk
