import GizwitsSdk.OsPromises

/-!
# What a step leaves alone

A call fills or empties one event at most. The others keep what they hold, no
event changes its type, and a tick on its way goes on where it was.
-/

namespace GizwitsSdk

open Lib

section
variable {E : Type}

/-- All that a call leaves alone. `o` is the event that it fills or empties. -/
structure Frame (o : Option E) (k k' : Kernel E) : Prop where
  held : ∀ e, o ≠ some e → (k'.osEvent e).held = (k.osEvent e).held
  typ : k'.typ = k.typ
  tick : k'.tick = k.tick
  nesting : k'.osIntNesting = k.osIntNesting

variable {o : Option E} {k k₁ k' : Kernel E}

theorem Frame.refl (o : Option E) (k : Kernel E) : Frame o k k := ⟨fun _ _ => rfl, rfl, rfl, rfl⟩

theorem Frame.trans (h₁ : Frame o k k₁) (h₂ : Frame o k₁ k') : Frame o k k' :=
  ⟨fun e he => (h₂.held e he).trans (h₁.held e he), h₂.typ.trans h₁.typ, h₂.tick.trans h₁.tick,
    h₂.nesting.trans h₁.nesting⟩

theorem Frame.contents (h : Frame o k k') {e : E} (he : o ≠ some e) :
    (k'.osEvent e).contents = (k.osEvent e).contents := OsEvent.contents_held (h.held e he)

/-- The events and the tick are the very same. -/
theorem Frame.of_eq (hev : k'.osEvent = k.osEvent) (ht : k'.tick = k.tick) (hn : k'.osIntNesting = k.osIntNesting)
    (o : Option E) : Frame o k k' := by
  refine ⟨fun e _ => by rw [hev], ?_, ht, hn⟩
  funext e
  rw [Kernel.typ, Kernel.typ, hev]

theorem Frame.moves {p : Prio} (hm : Moves k k' p) (hs : Still k k') (o : Option E) : Frame o k k' :=
  ⟨fun e _ => hm.held e, hm.typ_eq, hs.tick, hs.intNesting⟩

/-- A switch changes nothing but the processor. -/
theorem Frame.sched (h : Frame o k k') : Frame o k (osSched k') := by
  obtain ⟨hev, ht, hn, -⟩ := osSched_rest k'
  exact h.trans (.of_eq hev ht hn o)

theorem frame_ready (o : Option E) (k : Kernel E) (p : Prio) (t : Tcb E) :
    Frame o k (readyUnlessSuspended k p t) :=
  .moves (moves_readyUnlessSuspended k p t) (still_readyUnlessSuspended k p t) o

/-! ## Time and tasks -/

theorem osTimeDly_frame (k : Kernel E) (ticks : UInt32) : Frame o k (osTimeDly k ticks).1 := by
  unfold osTimeDly
  split
  · exact .refl o k
  · split
    · exact .refl o k
    · exact Frame.sched ⟨fun _ _ => rfl, rfl, rfl, rfl⟩

theorem osTimeDlyResume_frame (k : Kernel E) (p : Prio) : Frame o k (osTimeDlyResume k p).1 := by
  unfold osTimeDlyResume
  split
  · exact .refl o k
  · split
    · exact .refl o k
    · simp only
      split
      · exact .refl o k
      · split
        · exact (frame_ready o k p _).sched
        · exact frame_ready o k p _

theorem osTaskSuspend_frame (k : Kernel E) (prio : Option Prio) : Frame o k (osTaskSuspend k prio).1 := by
  unfold osTaskSuspend
  simp only
  split
  · exact .refl o k
  · exact .refl o k
  · split
    · exact Frame.sched ⟨fun _ _ => rfl, rfl, rfl, rfl⟩
    · exact ⟨fun _ _ => rfl, rfl, rfl, rfl⟩

theorem osTaskResume_frame (k : Kernel E) (p : Prio) : Frame o k (osTaskResume k p).1 := by
  unfold osTaskResume
  split
  · exact .refl o k
  · exact .refl o k
  · split
    · simp only
      split
      · exact Frame.sched ⟨fun _ _ => rfl, rfl, rfl, rfl⟩
      · exact ⟨fun _ _ => rfl, rfl, rfl, rfl⟩
    · exact .refl o k

theorem osTaskCreate_frame (k : Kernel E) (p : Prio) : Frame o k (osTaskCreate k p).1 := by
  unfold osTaskCreate
  split
  · exact .refl o k
  · split
    · exact ⟨fun _ _ => rfl, rfl, rfl, rfl⟩
    · exact .refl o k

theorem osTcbInit_frame (k : Kernel E) (t : Tcb E) (p : Prio) : Frame o k (osTcbInit k t p).1 := by
  unfold osTcbInit
  simp only
  split
  · exact Frame.sched ⟨fun _ _ => rfl, rfl, rfl, rfl⟩
  · exact ⟨fun _ _ => rfl, rfl, rfl, rfl⟩

theorem osTimeTickTask_frame (k : Kernel E) (p : Prio) : Frame o k (osTimeTickTask k p) := by
  unfold osTimeTickTask
  split
  · exact .refl o k
  · simp only
    split
    · split
      · exact frame_ready o k p _
      · exact ⟨fun _ _ => rfl, rfl, rfl, rfl⟩
    · exact .refl o k

theorem osSchedLock_frame (k : Kernel E) : Frame o k (osSchedLock k) := by
  unfold osSchedLock
  split
  · exact ⟨fun _ _ => rfl, rfl, rfl, rfl⟩
  · exact .refl o k

theorem osSchedUnlock_frame (k : Kernel E) : Frame o k (osSchedUnlock k) := by
  unfold osSchedUnlock
  split
  · exact Frame.sched ⟨fun _ _ => rfl, rfl, rfl, rfl⟩
  · exact .refl o k

/-! ## Puts and takes -/

variable {ev ev' : OsEvent} {pmsg : Ptr}

theorem take_typ {typ : EventType} (h : ev.take typ = some (pmsg, ev')) : ev'.osEventType = ev.osEventType := by
  cases typ with
  | sem | mbox | q =>
    simp only [OsEvent.take] at h
    split at h
    · obtain ⟨-, rfl⟩ := Prod.mk.inj (Option.some.inj h)
      rfl
    · cases h

theorem semPut_typ (h : ev.semPut = some ev') : ev'.osEventType = ev.osEventType := by
  unfold OsEvent.semPut at h
  split at h
  · obtain rfl := Option.some.inj h
    rfl
  · cases h

theorem mboxPut_typ (h : ev.mboxPut pmsg = some ev') : ev'.osEventType = ev.osEventType := by
  unfold OsEvent.mboxPut at h
  split at h
  · cases h
  · obtain rfl := Option.some.inj h
    rfl

theorem qPut_typ (h : ev.qPut pmsg = some ev') : ev'.osEventType = ev.osEventType := by
  unfold OsEvent.qPut at h
  split at h
  · cases h
  · obtain rfl := Option.some.inj h
    rfl

theorem qPutFront_typ (h : ev.qPutFront pmsg = some ev') : ev'.osEventType = ev.osEventType := by
  unfold OsEvent.qPutFront at h
  split at h
  · cases h
  · obtain rfl := Option.some.inj h
    rfl

end

section
variable {E : Type} [DecidableEq E] {o : Option E} {k k' : Kernel E} {e : E} {pmsg : Ptr}

theorem Frame.setEvent {ev : OsEvent} (h : ev.osEventType = (k.osEvent e).osEventType) :
    Frame (some e) k (k.setEvent e ev) := by
  refine ⟨fun e' he => ?_, ?_, rfl, rfl⟩
  · have hne : e' ≠ e := fun heq => he (congrArg some heq.symm)
    simp [Kernel.setEvent, hne]
  · funext e'
    by_cases he : e' = e
    · subst he
      simpa [Kernel.typ, Kernel.setEvent] using h
    · simp [Kernel.typ, Kernel.setEvent, he]

theorem osAccept_frame (typ : EventType) (k : Kernel E) (e : E) : Frame (some e) k (osAccept typ k e).1 := by
  unfold osAccept
  split
  · exact .refl _ k
  · split
    · exact .refl _ k
    · case h_2 m ev htake => exact .setEvent (take_typ htake)

theorem osQAccept_fst (k : Kernel E) (e : E) : (osQAccept k e).1 = (osAccept .q k e).1 := by
  unfold osQAccept
  simp only
  split
  · rfl
  · split <;> rfl

/-! ## Wait lists -/

theorem frame_remove (o : Option E) (k : Kernel E) (p : Prio) (e : E) : Frame o k (osEventTaskRemove k p e) :=
  ⟨fun e' _ => k.held_setWaits e e' _, Kernel.typ_setWaits .., rfl, rfl⟩

theorem osPend_frame (typ : EventType) (k : Kernel E) (e : E) (timeout : UInt32) :
    Frame (some e) k (osPend typ k e timeout).1 := by
  unfold osPend
  split
  · exact .refl _ k
  · split
    · exact .refl _ k
    · split
      · exact .refl _ k
      · split
        · case h_1 m ev htake => exact .setEvent (take_typ htake)
        · split
          · exact .refl _ k
          · refine Frame.sched ⟨fun e' _ => ?_, ?_, rfl, rfl⟩
            · exact (k.setTcb _ _).held_setWaits e e' _
            · exact Kernel.typ_setWaits ..

theorem osEventTaskRdy_frame (k : Kernel E) (e : E) (pmsg : Ptr) (msk : BitVec 8) (ps : StatPend) :
    Frame o k (osEventTaskRdy k e pmsg msk ps).1 := by
  unfold osEventTaskRdy
  simp only
  split
  · exact .refl o k
  · exact (frame_ready o k _ _).trans (frame_remove o _ _ e)

theorem osEventTasksRdy_frame (e : E) (pmsg : Ptr) (msk : BitVec 8) (ps : StatPend) (n : Nat) :
    ∀ k : Kernel E, Frame o k (osEventTasksRdy e pmsg msk ps n k).1 := by
  induction n with
  | zero => exact .refl o
  | succ n ih =>
    intro k
    unfold osEventTasksRdy
    split
    · exact .refl o k
    · exact (osEventTaskRdy_frame k e pmsg msk ps).trans (ih _)

theorem osPost_frame {typ : EventType} {full : KernelErr} {put : OsEvent → Option OsEvent}
    (hput : ∀ ev ev', put ev = some ev' → ev'.osEventType = ev.osEventType) (k : Kernel E) (e : E) (pmsg : Ptr) :
    Frame (some e) k (osPost typ full put k e pmsg).1 := by
  unfold osPost
  split
  · exact .refl _ k
  · split
    · exact (osEventTaskRdy_frame k e pmsg typ.stat .ok).sched
    · split
      · exact .refl _ k
      · case h_2 ev hev => exact .setEvent (hput _ _ hev)

theorem osPendAbort_frame (typ : EventType) (k : Kernel E) (e : E) (broadcast : Bool) :
    Frame o k (osPendAbort typ k e broadcast).1 := by
  unfold osPendAbort
  split
  · exact .refl o k
  · split
    · exact (osEventTasksRdy_frame e 0 typ.stat .abort _ k).sched
    · exact .refl o k

theorem osPendReturn_frame (k : Kernel E) (t : Tcb E) (e : E) : Frame o k (osPendReturn k t e).1 := by
  unfold osPendReturn
  simp only
  split
  · exact (frame_remove o k _ e).trans ⟨fun _ _ => rfl, rfl, rfl, rfl⟩
  · exact ⟨fun _ _ => rfl, rfl, rfl, rfl⟩

theorem osSemSet_frame (k : Kernel E) (e : E) (cnt : UInt16) : Frame (some e) k (osSemSet k e cnt).1 := by
  unfold osSemSet
  simp only
  split
  · exact .refl _ k
  · split
    · exact .setEvent rfl
    · exact .refl _ k

theorem osTaskDel_frame (k : Kernel E) (prio : Option Prio) : Frame o k (osTaskDel k prio).1 := by
  unfold osTaskDel
  simp only
  split
  · exact .refl o k
  · split
    · exact .refl o k
    · split
      · exact .refl o k
      · exact .refl o k
      · case h_3 t hslot =>
        have hm := moves_delTask k (prio.getD k.osPrioCur) t
        refine Frame.sched ⟨fun e _ => hm.held e, hm.typ_eq, ?_, ?_⟩
        · unfold delTask
          cases t.osTcbEventPtr <;> rfl
        · unfold delTask
          cases t.osTcbEventPtr <;> rfl

/-! ## Every call -/

def Call.event : Call E → Option E
  | semAccept e | mboxAccept e | qAccept e | semPend e _ | mboxPend e _ | qPend e _ | semPost e | mboxPost e _
  | qPost e _ | qPostFront e _ | semSet e _ | qFlush e => some e
  | _ => none

theorem call_frame (k : Kernel E) (c : Call E) : Frame c.event k (c.exec k).1 := by
  cases c with
  | semAccept e => exact osAccept_frame .sem k e
  | mboxAccept e => exact osAccept_frame .mbox k e
  | qAccept e =>
    have h := osAccept_frame .q k e
    rw [← osQAccept_fst] at h
    exact h
  | semPend e timeout => exact osPend_frame .sem k e timeout
  | mboxPend e timeout => exact osPend_frame .mbox k e timeout
  | qPend e timeout => exact osPend_frame .q k e timeout
  | semPost e => exact osPost_frame (fun _ _ => semPut_typ) k e 0
  | mboxPost e pmsg => exact osPost_frame (fun _ _ => mboxPut_typ) k e pmsg
  | qPost e pmsg => exact osPost_frame (fun _ _ => qPut_typ) k e pmsg
  | qPostFront e pmsg => exact osPost_frame (fun _ _ => qPutFront_typ) k e pmsg
  | semPendAbort e b => exact osPendAbort_frame .sem k e b
  | mboxPendAbort e b => exact osPendAbort_frame .mbox k e b
  | qPendAbort e b => exact osPendAbort_frame .q k e b
  | semSet e cnt => exact osSemSet_frame k e cnt
  | qFlush e => exact .setEvent rfl
  | timeDly ticks => exact osTimeDly_frame k ticks
  | timeDlyResume p => exact osTimeDlyResume_frame k p
  | taskSuspend prio => exact osTaskSuspend_frame k prio
  | taskResume p => exact osTaskResume_frame k p
  | taskCreate p => exact osTaskCreate_frame k p
  | taskDel prio => exact osTaskDel_frame k prio
  | schedLock => exact osSchedLock_frame k
  | schedUnlock => exact osSchedUnlock_frame k

/-! ## Every step -/

def Action.event : Action E → Option E
  | call c => c.event
  | _ => none

/-- The actions of `OSTimeTick`. -/
def Action.ticks : Action E → Bool
  | timeTick | tickTask => true
  | _ => false

variable {a : Action E} {r : Option Ret}

/-- All that a step leaves alone. -/
theorem step_frame (h : kernelStep k a = some (k', r)) :
    (∀ e, a.event ≠ some e → (k'.osEvent e).held = (k.osEvent e).held) ∧ k'.typ = k.typ ∧
      (a.ticks = false → k'.tick = k.tick) := by
  cases a with
  | call c =>
    have hf := call_frame k c
    rw [kernelStep_call h] at hf
    exact ⟨hf.held, hf.typ, fun _ => hf.tick⟩
  | pendReturn =>
    simp only [kernelStep] at h
    split at h
    · case h_1 t e hp =>
      split at h
      · obtain ⟨rfl, -⟩ := Prod.mk.inj (Option.some.inj h)
        have hf : Frame none k (osPendReturn k t e).1 := osPendReturn_frame k t e
        exact ⟨hf.held, hf.typ, fun _ => hf.tick⟩
      · cases h
    · cases h
  | tcbInit =>
    simp only [kernelStep] at h
    split at h
    · case h_1 t p hp =>
      split at h
      · obtain ⟨rfl, -⟩ := Prod.mk.inj (Option.some.inj h)
        have hf : Frame none k (osTcbInit k t p).1 := osTcbInit_frame k t p
        exact ⟨hf.held, hf.typ, fun _ => hf.tick⟩
      · cases h
    · cases h
  | intEnter =>
    simp only [kernelStep] at h
    split at h
    · case isTrue hn =>
      obtain ⟨rfl, -⟩ := Prod.mk.inj (Option.some.inj h)
      rw [osIntEnter, if_pos hn]
      exact ⟨fun _ _ => rfl, rfl, fun _ => rfl⟩
    · cases h
  | intExit =>
    simp only [kernelStep] at h
    split at h
    · obtain ⟨rfl, -⟩ := Prod.mk.inj (Option.some.inj h)
      obtain ⟨hev, htick, -⟩ := osSched_rest { k with osIntNesting := k.osIntNesting - 1 }
      have hev' : (osIntExit k).osEvent = k.osEvent := hev
      refine ⟨fun e _ => by rw [hev'], ?_, fun _ => htick⟩
      funext e
      rw [Kernel.typ, Kernel.typ, hev']
    · cases h
  | timeTick =>
    simp only [kernelStep] at h
    split at h
    · obtain ⟨rfl, -⟩ := Prod.mk.inj (Option.some.inj h)
      exact ⟨fun _ _ => rfl, rfl, fun ht => by cases ht⟩
    · cases h
  | tickTask =>
    simp only [kernelStep] at h
    split at h
    · case h_1 level p ps htick =>
      split at h
      · obtain ⟨rfl, -⟩ := Prod.mk.inj (Option.some.inj h)
        have hf : Frame none k (osTimeTickTask k p) := osTimeTickTask_frame k p
        exact ⟨hf.held, hf.typ, fun ht => by cases ht⟩
      · cases h
    · split at h
      · obtain ⟨rfl, -⟩ := Prod.mk.inj (Option.some.inj h)
        exact ⟨fun _ _ => rfl, rfl, fun ht => by cases ht⟩
      · cases h
    · cases h

end

end GizwitsSdk
