import GizwitsSdk.OsTmrRuns
import GizwitsSdk.StripRuns

/-!
# The strip on the timers of the kernel

`strip.c` sets its timers through `util.c`, and the timer task calls it back.
The strip of `Strip.lean` has each timer as armed or not; here they are timers
among others on the wheel, and a run of the whole is a run of that strip.
-/

namespace GizwitsSdk

open Lib

/-- What a timer calls back: a timer of the strip, or something else. -/
inductive StripCallback
  | strip (on : Bool)
  | countDown
  | other (n : Nat)
  deriving DecidableEq

inductive NstCall
  | set (on : Bool) (value : UInt32)
  | cancel (on : Bool)

/-- `Timer_on` and `Timer_off` are `handle true` and `handle false`. -/
structure StripSys where
  strip : StripSt
  timers : Timers StripCallback
  handle : Bool → Option TmrId

def nstCall (handle : Bool → Option TmrId) (s : Timers StripCallback) : NstCall → Timers StripCallback
  | .set on value => nstSetTimer s (handle on) value
  | .cancel on => nstCancelTimer s (handle on)

def frameCalls (attrFlags : UInt8) (ctrl : Nat → UInt8) (ticks : UInt32) (st : SocketStatus) : List NstCall :=
  (if isSet attrFlags 0x02 then
    if isSet (ctrl 0) 0x02 then
      [.set true (timingValue ticks st.timeOnMinute), .set false (timingValue ticks st.timeOffMinute)]
    else [.cancel true, .cancel false]
  else []) ++
  (if isSet attrFlags 0x10 then [.set true (timingValue ticks (decodeInt16 (ctrl 2, ctrl 3)))] else []) ++
  (if isSet attrFlags 0x20 then [.set false (timingValue ticks (decodeInt16 (ctrl 4, ctrl 5)))] else [])

/-- The calls of `timer_on_task` and `timer_off_task`. -/
def callbackCalls (on : Bool) (s : StripSt) : List NstCall :=
  if s.status.weekRepeat ≠ 0 ∧ s.repeatFlag then [.set on (24 * 60 * 1000 * 60)] else []

def StripSt.timer (s : StripSt) (on : Bool) : Option UInt32 := if on then s.timerOn else s.timerOff

/-- `timer_on_task` or `timer_off_task`. -/
def stripCallback (on : Bool) (ticks : UInt32) (s : StripSys) : StripSys :=
  { s with
    strip := if on then timerOnTask ticks { s.strip with timerOn := none }
      else timerOffTask ticks { s.strip with timerOff := none }
    timers := (callbackCalls on s.strip).foldl (nstCall s.handle) s.timers }

/-- `timer_task_init`, for the timers that it finds. -/
def stripSysInit (timers : Timers StripCallback) : StripSys :=
  let (timers, timerOn) := nstInitTimer timers none (some (.strip true)) false
  let (timers, timerOff) := nstInitTimer timers none (some (.strip false)) false
  let (timers, _) := nstInitTimer timers none (some .countDown) false
  { strip := stripInit, timers := timers, handle := fun on => if on then timerOn else timerOff }

inductive StripAct
  | frame (attrFlags : UInt8) (ctrl : Nat → UInt8) (ticks : UInt32)
  | button (gpio10 gpio10' : UInt8)
  | signal
  | turn (ticks : UInt32)
  | finish
  | other (c : TmrCall StripCallback)

def StripEv.timer (on : Bool) (ticks : UInt32) : StripEv := if on then .timerOn ticks else .timerOff ticks

/-- With what the strip sees of the step. No task runs while the timer task has
the scheduler locked. -/
def stripSysStep (s : StripSys) : StripAct → Option (StripSys × Option StripEv)
  | .frame attrFlags ctrl ticks =>
    if s.timers.ptmr = none then
      some ({ s with
        strip := stripDataParse attrFlags ctrl ticks s.strip
        timers := (frameCalls attrFlags ctrl ticks s.strip.status).foldl (nstCall s.handle) s.timers },
        some (.frame attrFlags ctrl ticks))
    else none
  | .button gpio10 gpio10' =>
    if s.timers.ptmr = none then
      some ({ s with strip := checkSocket gpio10 gpio10' s.strip }, some (.button gpio10 gpio10'))
    else none
  | .signal => (tmrStep s.timers .signal).map fun r => ({ s with timers := r.1 }, none)
  | .turn ticks =>
    (tmrStep s.timers .turn).map fun r =>
      match r.2.called with
      | some (.strip on) => (stripCallback on ticks { s with timers := r.1 }, some (.timer on ticks))
      | _ => ({ s with timers := r.1 }, none)
  | .finish => (tmrStep s.timers .finish).map fun r => ({ s with timers := r.1 }, none)
  | .other c => some ({ s with timers := (c.exec s.timers).1 }, none)

/-! ## The rule -/

/-- The others spare the saved timer, leave the timers of the strip alone and
do not make more of them. -/
def StripAct.Fair (s : StripSys) : StripAct → Prop
  | .other c => (TmrAction.call c).Spares s.timers ∧ (∀ on id, s.handle on = some id → c.ptmr ≠ some id) ∧
    ∀ on, c.callback ≠ some (.strip on)
  | _ => True

instance decidableFair (s : StripSys) : ∀ a : StripAct, Decidable (a.Fair s)
  | .other c => inferInstanceAs (Decidable ((TmrAction.call c).Spares s.timers ∧
    (∀ on id, s.handle on = some id → c.ptmr ≠ some id) ∧ ∀ on, c.callback ≠ some (.strip on)))
  | .frame .. | .button .. | .signal | .turn _ | .finish => isTrue trivial

/-! ## The calls and the strip -/

def NstCall.leaves (on : Bool) (o : Option UInt32) : NstCall → Option UInt32
  | .set on' value => if on' = on then some value else o
  | .cancel on' => if on' = on then none else o

theorem frameCalls_leaves (on : Bool) (attrFlags : UInt8) (ctrl : Nat → UInt8) (ticks : UInt32) (s : StripSt) :
    (frameCalls attrFlags ctrl ticks s.status).foldl (NstCall.leaves on) (s.timer on) =
      (stripDataParse attrFlags ctrl ticks s).timer on := by
  cases on with
  | true =>
    simp only [StripSt.timer, if_true, stripDataParse, apply_ite StripSt.timerOn, setCountdownMinute, setTimeOffMinute,
      setTimeOnMinute, setWeekRepeat, setCountDown, setTimeOnOff, switchSocket, StripSt.setStatus, ite_self, frameCalls]
    cases isSet attrFlags 0x01 <;> cases isSet attrFlags 0x02 <;> cases isSet (ctrl 0) 0x02 <;>
      cases isSet attrFlags 0x10 <;> cases isSet attrFlags 0x20 <;> rfl
  | false =>
    simp only [StripSt.timer, Bool.false_eq_true, if_false, stripDataParse, apply_ite StripSt.timerOff, setCountdownMinute,
      setTimeOffMinute, setTimeOnMinute, setWeekRepeat, setCountDown, setTimeOnOff, switchSocket, StripSt.setStatus,
      ite_self, frameCalls]
    cases isSet attrFlags 0x01 <;> cases isSet attrFlags 0x02 <;> cases isSet (ctrl 0) 0x02 <;>
      cases isSet attrFlags 0x10 <;> cases isSet attrFlags 0x20 <;> rfl

theorem ite_switch_timer (c : Prop) [Decidable c] (on on' : Bool) (s : StripSt) :
    (if c then switchSocket on s else s).timer on' = s.timer on' := by
  split <;> rfl

/-- A callback leaves the timers as its `NST_SetTimer` does. -/
theorem switchOnTime_timer (on on' : Bool) (ticks : UInt32) (setTimer : StripSt → StripSt) (s : StripSt) :
    (switchOnTime on ticks setTimer s).timer on' =
      if s.status.weekRepeat ≠ 0 ∧ s.repeatFlag then (setTimer s).timer on' else s.timer on' := by
  by_cases hw : s.status.weekRepeat = 0
  · have heq : switchOnTime on ticks setTimer s =
        if (switchSocket on s).repeatFlag ∧
          (switchSocket on s).status.weekRepeat >>> (timingWeek ticks - 1).toUInt8 &&& 1 ≠ 0 then
            switchSocket on (switchSocket on s) else switchSocket on s := by
      have hw' : (switchSocket on s).status.weekRepeat = 0 := hw
      simp only [switchOnTime, hw, if_true, hw', ne_eq, not_true, false_and, if_false]
    rw [heq, ite_switch_timer, if_neg fun e => e.1 hw]
    rfl
  · have heq : switchOnTime on ticks setTimer s =
        let s' := if s.repeatFlag then setTimer s else s
        if s'.repeatFlag ∧ s'.status.weekRepeat >>> (timingWeek ticks - 1).toUInt8 &&& 1 ≠ 0 then
          switchSocket on s' else s' := by
      simp only [switchOnTime, hw, if_false, ne_eq, not_false_iff, true_and]
    rw [heq]
    dsimp only
    rw [ite_switch_timer]
    simp only [ne_eq, hw, not_false_iff, true_and]
    split <;> rfl

theorem callbackCalls_leaves (on on' : Bool) (ticks : UInt32) (s : StripSt) :
    (callbackCalls on s).foldl (NstCall.leaves on') (if on' = on then none else s.timer on') =
      (if on then timerOnTask ticks { s with timerOn := none }
        else timerOffTask ticks { s with timerOff := none }).timer on' := by
  unfold callbackCalls
  by_cases h : s.status.weekRepeat ≠ 0 ∧ s.repeatFlag
  · rw [if_pos h]
    cases on with
    | true =>
      rw [if_pos rfl, timerOnTask, switchOnTime_timer]
      refine Eq.trans ?_ (if_pos h).symm
      cases on' <;> rfl
    | false =>
      rw [if_neg Bool.false_ne_true, timerOffTask, switchOnTime_timer]
      refine Eq.trans ?_ (if_pos h).symm
      cases on' <;> rfl
  · rw [if_neg h]
    cases on with
    | true =>
      rw [if_pos rfl, timerOnTask, switchOnTime_timer]
      refine Eq.trans ?_ (if_neg h).symm
      cases on' <;> rfl
    | false =>
      rw [if_neg Bool.false_ne_true, timerOffTask, switchOnTime_timer]
      refine Eq.trans ?_ (if_neg h).symm
      cases on' <;> rfl

end GizwitsSdk
