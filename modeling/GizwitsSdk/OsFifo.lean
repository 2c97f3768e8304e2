import GizwitsSdk.OsFrame
import GizwitsSdk.OsTaskRuns

/-!
# Every message once, and in order

What has been posted to an event is what has left it followed by what it holds.
What has left it for a task that waited is what the task has got, followed by
the one message that may be on its way to it.
-/

namespace GizwitsSdk

open Lib

section
variable {E : Type} [DecidableEq E]

/-! ## The records -/

/-- The message that a successful post adds. A mailbox that nobody waits for
does not take a null pointer. -/
def Call.posted (e : E) (ret : Ret) : Call E → List Ptr
  | semPost e' => if e' = e ∧ ret.err = .none then [0] else []
  | mboxPost e' pmsg => if e' = e ∧ ret.err = .none ∧ (pmsg ≠ 0 ∨ ret.rdy ≠ []) then [pmsg] else []
  | qPost e' pmsg => if e' = e ∧ ret.err = .none then [pmsg] else []
  | _ => []

/-- The message that has left the event, for a task that waited or, `none`, for the caller. -/
def Call.sent (e : E) (ret : Ret) : Call E → List (Option Prio × Ptr)
  | semPost e' => if e' = e then ret.rdy.map fun p => (some p, 0) else []
  | mboxPost e' pmsg | qPost e' pmsg | qPostFront e' pmsg =>
    if e' = e then ret.rdy.map fun p => (some p, pmsg) else []
  | semAccept e' => if e' = e ∧ 0 < ret.cnt then [(none, 0)] else []
  | mboxAccept e' => if e' = e ∧ ret.msg ≠ 0 then [(none, ret.msg)] else []
  | qAccept e' | semPend e' _ | mboxPend e' _ | qPend e' _ =>
    if e' = e ∧ ret.err = .none then [(none, ret.msg)] else []
  | _ => []

/-- The calls that set the contents of an event, or change their order. -/
def Call.disturbs (e : E) : Call E → Bool
  | qPostFront e' _ | semSet e' _ | qFlush e' => e' = e
  | _ => false

def Rec.posted (e : E) : Rec E → List Ptr
  | (_, .call c, some ret) => c.posted e ret
  | _ => []

def Rec.sent (e : E) : Rec E → List (Option Prio × Ptr)
  | (_, .call c, some ret) => c.sent e ret
  | _ => []

def Rec.disturbs (e : E) : Rec E → Bool
  | (_, .call c, _) => c.disturbs e
  | _ => false

/-! ## Messages in and out -/

variable {k k' : Kernel E} {e e' : E} {t : Tcb E} {p : Prio} {pmsg : Ptr}

theorem contents_setEvent (k : Kernel E) (e' : E) (ev : OsEvent) (e : E) :
    ((k.setEvent e' ev).osEvent e).contents = if e' = e then ev.contents else (k.osEvent e).contents := by
  by_cases h : e' = e
  · subst h
    simp [Kernel.setEvent]
  · simp [Kernel.setEvent, h, Ne.symm h]

/-- What has been taken was the first. -/
theorem contents_take (g : KernelOk k) {typ : EventType} {ev : OsEvent} (hty : (k.osEvent e').osEventType = typ)
    (htake : (k.osEvent e').take typ = some (pmsg, ev)) (e : E) :
    (k.osEvent e).contents = (if e' = e then [pmsg] else []) ++ ((k.setEvent e' ev).osEvent e).contents := by
  rw [contents_setEvent]
  split
  · case isTrue h =>
    subst h
    exact (OsEvent.take_eq_some (g.tables.ring e') hty htake).1
  · rfl

theorem osAccept_contents (g : KernelOk k) (typ : EventType) (e' e : E) :
    (k.osEvent e).contents =
      (if e' = e then (osAccept typ k e').2.toList else []) ++ ((osAccept typ k e').1.osEvent e).contents := by
  by_cases hty : (k.osEvent e').osEventType = typ
  · cases htake : (k.osEvent e').take typ with
    | none => simp [osAccept, hty, htake]
    | some r => simpa [osAccept, hty, htake] using contents_take g hty htake e
  · simp [osAccept, hty]

/-- What `take` gives for each type. -/
theorem osAccept_some {typ : EventType} (h : (osAccept typ k e).2 = some pmsg) :
    (k.osEvent e).osEventType = typ ∧ ∃ ev, (k.osEvent e).take typ = some (pmsg, ev) := by
  unfold osAccept at h
  split at h
  · cases h
  · case isFalse hty =>
    split at h
    · cases h
    · case h_2 m ev htake =>
      obtain rfl := Option.some.inj h
      exact ⟨not_not.mp hty, ev, htake⟩

theorem semAccept_toList (k : Kernel E) (e : E) :
    (osAccept .sem k e).2.toList = if 0 < (osSemAccept k e).2.cnt then [0] else [] := by
  by_cases hty : (k.osEvent e).osEventType = .sem
  · by_cases hpos : 0 < (k.osEvent e).osEventCnt
    · simp [osSemAccept, osAccept, OsEvent.take, hty, hpos]
    · simp [osSemAccept, osAccept, OsEvent.take, hty, hpos]
  · simp [osSemAccept, osAccept, hty]

theorem mboxAccept_toList (k : Kernel E) (e : E) :
    (osAccept .mbox k e).2.toList = if (osMboxAccept k e).2.msg ≠ 0 then [(osMboxAccept k e).2.msg] else [] := by
  unfold osMboxAccept
  simp only
  cases h : (osAccept .mbox k e).2 with
  | none => rfl
  | some m =>
    obtain ⟨-, ev, htake⟩ := osAccept_some h
    have hm : m ≠ 0 := by
      simp only [OsEvent.take] at htake
      split at htake
      · case isTrue hp =>
        obtain ⟨rfl, -⟩ := Prod.mk.inj (Option.some.inj htake)
        exact hp
      · cases htake
    simp [hm]

theorem qAccept_toList (k : Kernel E) (e : E) :
    (osAccept .q k e).2.toList = if (osQAccept k e).2.err = .none then [(osQAccept k e).2.msg] else [] := by
  unfold osQAccept
  simp only
  split
  · case isTrue hty =>
    have hnone : (osAccept .q k e).2 = none := by rw [osAccept, if_pos hty]
    rw [hnone]
    rfl
  · cases (osAccept .q k e).2 <;> rfl

theorem osPend_contents (g : KernelOk k) (typ : EventType) (e' e : E) (timeout : UInt32) :
    (k.osEvent e).contents =
      ((osPend typ k e' timeout).2.elim [] fun ret => if e' = e ∧ ret.err = .none then [ret.msg] else []) ++
        ((osPend typ k e' timeout).1.osEvent e).contents := by
  unfold osPend
  split
  · simp
  · case isFalse hty =>
    split
    · simp
    · split
      · simp
      · cases htake : (k.osEvent e').take typ with
        | some r => simpa using contents_take g (not_not.mp hty) htake e
        | none =>
          cases k.tcb k.osPrioCur with
          | none => simp
          | some t =>
            have hev := (osSched_rest (osEventTaskWait k { t with
              osTcbStat := t.osTcbStat ||| typ.stat, osTcbStatPend := .ok, osTcbDly := timeout.toNat } e')).1
            simp only [Option.elim_none, List.nil_append, hev]
            exact (OsEvent.contents_held ((k.setTcb _ _).held_setWaits e' e _)).symm

/-- A post to an event that nobody waits for goes to the end of its contents, as `stored`. -/
theorem osPost_contents (g : KernelOk k) (pmsg : Ptr) {typ : EventType} {full : KernelErr}
    {put : OsEvent → Option OsEvent} {stored : List Ptr} (hfull : full ≠ .none)
    (hput : ∀ ev ev', ev.osQ.Wf → ev.osEventType = typ → put ev = some ev' → ev'.contents = ev.contents ++ stored)
    (e' e : E) :
    (k.osEvent e).contents ++
        (if e' = e ∧ (osPost typ full put k e' pmsg).2.err = .none then
          (if (osPost typ full put k e' pmsg).2.rdy ≠ [] then [pmsg] else stored) else []) =
      (if e' = e ∧ (osPost typ full put k e' pmsg).2.rdy ≠ [] then [pmsg] else []) ++
        ((osPost typ full put k e' pmsg).1.osEvent e).contents := by
  unfold osPost
  split
  · simp
  · case isFalse hty =>
    split
    · case isTrue hg =>
      have hf : Frame none k (osSched (osEventTaskRdy k e' pmsg typ.stat .ok).1) :=
        (osEventTaskRdy_frame k e' pmsg typ.stat .ok).sched
      have hsame := hf.contents (e := e) nofun
      simp only [hsame, ne_eq, List.cons_ne_nil, not_false_eq_true, and_true, if_true]
      by_cases he : e' = e
      · subst he
        obtain ⟨q, hq⟩ := (g.tables.waitsWf e').grp_ne_zero.mp hg
        have hnil : (k.osEvent e').contents = [] := by
          by_contra hc
          exact g.tables.nobody e' hc q hq
        simp [hnil]
      · simp [he]
    · split
      · simp [hfull]
      · case h_2 ev hev =>
        have hc := hput _ _ (g.tables.ring e') (not_not.mp hty) hev
        simp only [contents_setEvent, ne_eq, not_true_eq_false, and_false, if_false, and_true, List.nil_append]
        split
        · case isTrue h =>
          subst h
          exact hc.symm
        · simp

/-- A post gives its message to one task at most. -/
theorem osPost_one (typ : EventType) (full : KernelErr) (put : OsEvent → Option OsEvent) (k : Kernel E) (e : E)
    (pmsg m : Ptr) :
    ((osPost typ full put k e pmsg).2.rdy.map fun p => (some p, m)).map Prod.snd =
      if (osPost typ full put k e pmsg).2.rdy ≠ [] then [m] else [] := by
  unfold osPost
  split
  · rfl
  · split
    · rfl
    · split <;> rfl

theorem post_contents (g : KernelOk k) {typ : EventType} {full : KernelErr} {put : OsEvent → Option OsEvent}
    (hfull : full ≠ .none)
    (hput : ∀ ev ev', ev.osQ.Wf → ev.osEventType = typ → put ev = some ev' → ev'.contents = ev.contents ++ [pmsg])
    (e' e : E) :
    (k.osEvent e).contents ++ (if e' = e ∧ (osPost typ full put k e' pmsg).2.err = .none then [pmsg] else []) =
      (if e' = e then (osPost typ full put k e' pmsg).2.rdy.map fun p => (some p, pmsg) else []).map Prod.snd ++
        ((osPost typ full put k e' pmsg).1.osEvent e).contents := by
  have h := osPost_contents g pmsg hfull hput e' e
  rw [ite_self] at h
  rw [h, apply_ite (List.map Prod.snd), osPost_one, ite_and]
  rfl

theorem pend_contents (g : KernelOk k) (typ : EventType) (e' : E) (timeout : UInt32) {c : Call E}
    (hx : c.exec k = osPend typ k e' timeout) (hp : ∀ ret, c.posted e ret = [])
    (hs : ∀ ret, c.sent e ret = if e' = e ∧ ret.err = .none then [(none, ret.msg)] else []) :
    (k.osEvent e).contents ++ Rec.posted e (k, .call c, (c.exec k).2) =
      (Rec.sent e (k, .call c, (c.exec k).2)).map Prod.snd ++ ((c.exec k).1.osEvent e).contents := by
  have h := osPend_contents g typ e' e timeout
  rw [← hx] at h
  rw [h]
  cases (c.exec k).2 with
  | none => simp [Rec.posted, Rec.sent]
  | some ret =>
    simp only [Rec.posted, Rec.sent, hp, hs, Option.elim_some, List.append_nil]
    split_ifs <;> rfl

theorem mboxPost_contents (g : KernelOk k) (e' e : E) (pmsg : Ptr) :
    (k.osEvent e).contents ++ Call.posted e (osMboxPost k e' pmsg).2 (.mboxPost e' pmsg) =
      (Call.sent e (osMboxPost k e' pmsg).2 (.mboxPost e' pmsg)).map Prod.snd ++
        ((osMboxPost k e' pmsg).1.osEvent e).contents := by
  have hfull : KernelErr.mboxFull ≠ .none := nofun
  have hput (ev ev' : OsEvent) (hq : ev.osQ.Wf) (ht : ev.osEventType = .mbox) (h : ev.mboxPut pmsg = some ev') :
      ev'.contents = ev.contents ++ if pmsg = 0 then [] else [pmsg] := (OsEvent.mboxPut_eq_some hq ht h).1
  have h := osPost_contents g pmsg hfull hput e' e
  have hone := osPost_one .mbox .mboxFull (OsEvent.mboxPut pmsg) k e' pmsg pmsg
  have hx : osPost .mbox .mboxFull (OsEvent.mboxPut pmsg) k e' pmsg = osMboxPost k e' pmsg := rfl
  rw [hx] at h hone
  have hposted (ret : Ret) : Call.posted e ret (.mboxPost e' pmsg) =
      if e' = e ∧ ret.err = .none then (if ret.rdy ≠ [] then [pmsg] else if pmsg = 0 then [] else [pmsg])
      else [] := by
    simp only [Call.posted, ite_and]
    by_cases hm : pmsg = 0
    · by_cases hr : ret.rdy = [] <;> simp [hm, hr]
    · simp [hm]
  rw [hposted, h, ite_and]
  simp only [Call.sent, apply_ite (List.map Prod.snd), hone]
  rfl

/-- A call moves messages at the ends only: in at the last, out at the first. -/
theorem call_contents (g : KernelOk k) (c : Call E) (hd : c.disturbs e = false) :
    (k.osEvent e).contents ++ Rec.posted e (k, .call c, (c.exec k).2) =
      (Rec.sent e (k, .call c, (c.exec k).2)).map Prod.snd ++ ((c.exec k).1.osEvent e).contents := by
  have hsame (hne : c.event ≠ some e) : (k.osEvent e).contents = ((c.exec k).1.osEvent e).contents :=
    ((call_frame k c).contents hne).symm
  cases c with
  | semAccept e' =>
    have h := osAccept_contents g .sem e' e
    rw [semAccept_toList] at h
    simp only [Call.exec, Prod.map, Rec.posted, Rec.sent, Call.posted, Call.sent, List.append_nil, ite_and]
    rw [h]
    split_ifs <;> rfl
  | mboxAccept e' =>
    have h := osAccept_contents g .mbox e' e
    rw [mboxAccept_toList] at h
    simp only [Call.exec, Prod.map, Rec.posted, Rec.sent, Call.posted, Call.sent, List.append_nil, ite_and]
    rw [h]
    split_ifs <;> rfl
  | qAccept e' =>
    have h := osAccept_contents g .q e' e
    rw [qAccept_toList, ← osQAccept_fst] at h
    simp only [Call.exec, Prod.map, Rec.posted, Rec.sent, Call.posted, Call.sent, List.append_nil, ite_and]
    rw [h]
    split_ifs <;> rfl
  | semPend e' timeout => exact pend_contents g .sem e' timeout rfl (fun _ => rfl) fun _ => rfl
  | mboxPend e' timeout => exact pend_contents g .mbox e' timeout rfl (fun _ => rfl) fun _ => rfl
  | qPend e' timeout => exact pend_contents g .q e' timeout rfl (fun _ => rfl) fun _ => rfl
  | semPost e' =>
    have hfull : KernelErr.semOvf ≠ .none := nofun
    exact post_contents g hfull (fun _ _ hq ht hput => (OsEvent.semPut_eq_some hq ht hput).1) e' e
  | mboxPost e' pmsg => exact mboxPost_contents g e' e pmsg
  | qPost e' pmsg =>
    have hfull : KernelErr.qFull ≠ .none := nofun
    exact post_contents g hfull (fun _ _ hq ht hput => (OsEvent.qPut_eq_some hq ht hput).1) e' e
  | qPostFront e' pmsg =>
    have hne : e' ≠ e := of_decide_eq_false hd
    rw [hsame fun he => hne (Option.some.inj he)]
    simp [Rec.posted, Rec.sent, Call.exec, Call.posted, Call.sent, hne]
  | semSet e' cnt | qFlush e' =>
    have hne : e' ≠ e := of_decide_eq_false hd
    rw [hsame fun he => hne (Option.some.inj he)]
    simp [Rec.posted, Rec.sent, Call.exec, Call.posted, Call.sent]
  | taskCreate p =>
    rw [hsame nofun]
    cases ((Call.taskCreate p : Call E).exec k).2 <;> simp [Rec.posted, Rec.sent, Call.posted, Call.sent]
  | semPendAbort e' b | mboxPendAbort e' b | qPendAbort e' b | timeDly ticks | timeDlyResume p | taskSuspend p
  | taskResume p | taskDel p | schedLock | schedUnlock =>
    rw [hsame nofun]
    simp [Rec.posted, Rec.sent, Call.exec, Call.posted, Call.sent]

theorem step_contents (g : KernelOk k) {a : Action E} {r : Option Ret} (h : kernelStep k a = some (k', r))
    (hd : Rec.disturbs e (k, a, r) = false) :
    (k.osEvent e).contents ++ Rec.posted e (k, a, r) =
      (Rec.sent e (k, a, r)).map Prod.snd ++ (k'.osEvent e).contents := by
  cases a with
  | call c =>
    have hcall := call_contents g c hd
    rw [kernelStep_call h] at hcall
    exact hcall
  | pendReturn | tcbInit | intEnter | intExit | timeTick | tickTask =>
    have hsame := OsEvent.contents_held ((step_frame h).1 e nofun)
    simp [Rec.posted, Rec.sent, hsame]

variable {free : Nat} {event : E → OsEvent} {ps : List Prio} {l : List (Rec E)}

omit [DecidableEq E] in
theorem osEvent_osStart (free : Nat) (event : E → OsEvent) (ps : List Prio) :
    (osStart free event ps).osEvent = event := by
  have hfold : ∀ (ps : List Prio) (k : Kernel E), (ps.foldl osCreate k).osEvent = k.osEvent := by
    intro ps
    induction ps with
    | nil => exact fun _ => rfl
    | cons p ps ih => exact fun k => ih (osCreate k p)
  exact hfold ps (osInit free event)

/-- What has been posted leaves the event once and in order, and the rest of it is still there. -/
theorem fifo (h : Reaches free event ps l k) (e : E) (hd : ∀ rec ∈ l, Rec.disturbs e rec = false) :
    (event e).contents ++ l.flatMap (Rec.posted e) =
      (l.flatMap (Rec.sent e)).map Prod.snd ++ (k.osEvent e).contents := by
  obtain ⟨hev, hnd, hi, ht⟩ := h
  have g₀ := osStart_ok free hev hnd hi
  have hstart : ((osStart free event ps).osEvent e).contents = (event e).contents := by rw [osEvent_osStart]
  rw [← hstart]
  induction ht with
  | nil => simp
  | @snoc l k₁ k₂ a r ht hstep ih =>
    have ih := ih fun rec hrec => hd rec (List.mem_append_left _ hrec)
    have hone := step_contents (e := e) (trace_ok g₀ ht) hstep (hd _ (by simp))
    rw [List.flatMap_append, List.flatMap_append, List.map_append, ← List.append_assoc, ih, List.append_assoc]
    simp only [List.flatMap_singleton, List.append_assoc, hone]

/-- A message for the task that waits, and two that it does not wait for. -/
def threePosts : List (Action Unit) :=
  [.call (.qPend () 2), .call (.qPost () 7), .pendReturn, .call (.qPost () 8), .call (.qPost () 9), .call (.qAccept ())]

theorem fifo_threePosts : ∃ l k, Trace kernelStep twoTasks l k ∧ l.flatMap (Rec.posted ()) = [7, 8, 9] ∧
    l.flatMap (Rec.posted ()) = (l.flatMap (Rec.sent ())).map Prod.snd ++ (k.osEvent ()).contents :=
  have hreach := twoTasks_reaches threePosts rfl
  ⟨_, _, hreach.2.2.2, rfl, fifo hreach () (by decide)⟩

/-! ## One task -/

/-- The message that an event has given to the task and that the task has not got yet. -/
def way (e : E) (sem : Bool) : Option (Status E) → List Ptr
  | some ⟨.given e' pmsg, _⟩ => if e' = e then [if sem then 0 else pmsg] else []
  | _ => []

def Kernel.isSem (k : Kernel E) (e : E) : Bool := k.typ e = .sem

def Kernel.onTheWay (k : Kernel E) (e : E) (p : Prio) : List Ptr := way e (k.isSem e) (k.status p)

def Rec.sentTo (e : E) (p : Prio) (rec : Rec E) : List Ptr :=
  (rec.sent e).filterMap fun x => if x.1 = some p then some x.2 else none

/-- What the task gets: from its pend, or not at all if it is deleted before. -/
def Rec.got (e : E) (p : Prio) : Rec E → List Ptr
  | (k, .pendReturn, some ret) =>
    match k.place with
    | some (.pend _ e') => if k.osPrioCur = p ∧ e' = e ∧ ret.err = .none then [ret.msg] else []
    | _ => []
  | (k, .call (.taskDel prio), some ret) =>
    if prio.getD k.osPrioCur = p ∧ ret.err = .none then k.onTheWay e p else []
  | _ => []

def Ev.gives (e : E) (sem : Bool) : Ev E → List Ptr
  | wake e' pmsg .ok => if e' = e then [if sem then 0 else pmsg] else []
  | _ => []

def Ev.takes (e : E) (sem : Bool) (os : Option (Status E)) : Ev E → List Ptr
  | ret | delete => way e sem os
  | _ => []

theorem way_none {s : Status E} (h : ∀ e' m, s.phase ≠ .given e' m) (sem : Bool) : way e sem (some s) = [] := by
  obtain ⟨ph, b⟩ := s
  cases ph with
  | given e' m => exact absurd rfl (h e' m)
  | own | delayed n | waiting e' n | timedOut e' | aborted e' => rfl

/-- One message at a time: a task that has not got its message does not wait for another. -/
theorem way_apply {ev : Ev E} {os : Option (Status E)} (h : ev.Fits os) (sem : Bool) :
    way e sem os ++ ev.gives e sem = ev.takes e sem os ++ way e sem (ev.apply os) := by
  cases ev with
  | wake e' m ps =>
    obtain ⟨hps, s, rfl, hw⟩ := h
    have hnone : way e sem (some s) = [] := way_none (fun e₁ m₁ he => by rw [he] at hw; cases hw) sem
    rw [hnone]
    rcases hps with rfl | rfl <;> rfl
  | tick | expire =>
    rcases os with _ | ⟨ph, b⟩
    · cases h
    · cases ph with
      | delayed n | waiting e' n =>
        simp only [Ev.gives, Ev.takes, Ev.apply, Option.map_some, Phase.tick, Phase.expire, List.append_nil,
          List.nil_append]
        first | rfl | split_ifs <;> rfl
      | own | timedOut e' | given e' m | aborted e' => exact List.append_nil _
  | suspend | resume =>
    rcases os with _ | ⟨ph, b⟩
    · cases h
    · have hsame (b' : Bool) : way e sem (some ⟨ph, b⟩) = way e sem (some ⟨ph, b'⟩) := by cases ph <;> rfl
      exact (List.append_nil _).trans (hsame _)
  | block e' n =>
    obtain ⟨s, rfl, ho⟩ := h
    rw [way_none (fun e₁ m₁ he => by rw [he] at ho; cases ho)]
    rfl
  | delay n =>
    obtain ⟨-, s, rfl, ho⟩ := h
    rw [way_none (fun e₁ m₁ he => by rw [he] at ho; cases ho)]
    rfl
  | ret =>
    obtain ⟨s, e', rfl, -⟩ := h
    exact congrArg _ rfl
  | create =>
    obtain rfl : os = none := h
    rfl
  | delete => rfl

omit [DecidableEq E] in
/-- Most actions neither give nor take a message. -/
theorem flatMap_evsOf {f : Ev E → List Ptr} {a : Action E} {r : Option Ret} (h : ∀ ev, a.kind = some ev → f ev = []) :
    (Rec.evsOf p (k, a, r)).flatMap f = [] :=
  List.flatMap_eq_nil_iff.mpr fun ev hev => h ev (mem_evsOf hev)

theorem osPost_woken (typ : EventType) (full : KernelErr) (put : OsEvent → Option OsEvent) (k : Kernel E) (e : E)
    (pmsg : Ptr) :
    (osPost typ full put k e pmsg).2.rdy = [] ∨
      (k.osEvent e).osEventType = typ ∧ ∃ q, (osPost typ full put k e pmsg).2.rdy = [q] := by
  unfold osPost
  split
  · exact .inl rfl
  · case isFalse hty =>
    split
    · exact .inr ⟨not_not.mp hty, _, rfl⟩
    · split <;> exact .inl rfl

theorem sentTo_post (typ : EventType) (full : KernelErr) (put : OsEvent → Option OsEvent) (k : Kernel E) (e' e : E)
    (p : Prio) (hm : typ = .sem → pmsg = 0) :
    ((if e' = e then (osPost typ full put k e' pmsg).2.rdy.map fun q => (some q, pmsg) else []).filterMap
        fun x => if x.1 = some p then some x.2 else none) =
      (evsOf (wakes e' pmsg .ok (osPost typ full put k e' pmsg).2) p).flatMap (Ev.gives e (k.isSem e)) := by
  rcases osPost_woken typ full put k e' pmsg with hnil | ⟨hty, q, hq⟩
  · simp [wakes, hnil]
  · rw [wakes, hq, List.map_singleton, List.map_singleton, evsOf_singleton]
    by_cases he : e' = e
    · subst he
      have hsem : (if k.isSem e' = true then 0 else pmsg) = pmsg := by
        split
        · case isTrue hs =>
          have hty' : (k.osEvent e').osEventType = .sem := of_decide_eq_true hs
          exact (hm (hty.symm.trans hty')).symm
        · rfl
      by_cases hqp : q = p
      · simp [hqp, Ev.gives, hsem]
      · simp [hqp]
    · by_cases hqp : q = p
      · simp [hqp, he, Ev.gives]
      · simp [hqp, he]

/-- What leaves the event for a task is what the events of the task say. -/
theorem sentTo_eq {a : Action E} {r : Option Ret} (h : kernelStep k a = some (k', r)) (e : E) (p : Prio) :
    Rec.sentTo e p (k, a, r) = (Rec.evsOf p (k, a, r)).flatMap (Ev.gives e (k.isSem e)) := by
  have hcaller (c : Prop) [Decidable c] (m : Ptr) :
      (if c then [((none : Option Prio), m)] else []).filterMap
        (fun x => if x.1 = some p then some x.2 else none) = [] := by
    split <;> rfl
  have hnone (hk : ∀ ev, a.kind = some ev → ev.gives e (k.isSem e) = []) (hs : Rec.sentTo e p (k, a, r) = []) :
      Rec.sentTo e p (k, a, r) = (Rec.evsOf p (k, a, r)).flatMap (Ev.gives e (k.isSem e)) :=
    hs.trans (flatMap_evsOf hk).symm
  cases a with
  | call c =>
    obtain rfl : (c.exec k).2 = r := congrArg Prod.snd (kernelStep_call h)
    cases c with
    | semPost e' => exact sentTo_post .sem .semOvf OsEvent.semPut k e' e p fun _ => rfl
    | mboxPost e' pmsg => exact sentTo_post .mbox .mboxFull (OsEvent.mboxPut pmsg) k e' e p nofun
    | qPost e' pmsg => exact sentTo_post .q .qFull (OsEvent.qPut pmsg) k e' e p nofun
    | qPostFront e' pmsg => exact sentTo_post .q .qFull (OsEvent.qPutFront pmsg) k e' e p nofun
    | semAccept e' | mboxAccept e' | qAccept e' => exact hcaller _ _
    | semPend e' timeout | mboxPend e' timeout | qPend e' timeout =>
      refine hnone (fun ev hev => ?_) ?_
      · obtain rfl := Option.some.inj hev
        rfl
      · generalize (Call.exec k _).2 = r
        cases r with
        | none => rfl
        | some ret => exact hcaller _ _
    | semPendAbort e' b | mboxPendAbort e' b | qPendAbort e' b | timeDlyResume q | taskSuspend q | taskResume q
    | taskDel q | timeDly ticks =>
      refine hnone (fun ev hev => ?_) rfl
      obtain rfl := Option.some.inj hev
      rfl
    | taskCreate q =>
      refine hnone nofun ?_
      generalize (Call.exec k _).2 = r
      cases r <;> rfl
    | semSet e' cnt | qFlush e' | schedLock | schedUnlock => rfl
  | pendReturn | tcbInit | tickTask =>
    refine hnone (fun ev hev => ?_) ?_
    · obtain rfl := Option.some.inj hev
      rfl
    · cases r <;> rfl
  | intEnter | intExit | timeTick =>
    refine hnone nofun ?_
    cases r <;> rfl

/-- A pend that comes back gives what was on the way. -/
theorem got_pendReturn (g : KernelOk k) {ret : Ret} (h : kernelStep k .pendReturn = some (k', some ret)) (e : E) :
    Rec.got e k.osPrioCur (k, .pendReturn, some ret) = k.onTheWay e k.osPrioCur := by
  simp only [kernelStep] at h
  split at h
  · case h_1 t e' hp =>
    split at h
    · obtain rfl := Option.some.inj (Prod.mk.inj (Option.some.inj h)).2
      obtain ⟨s, ht, hs, he⟩ := g.inPend hp
      obtain ⟨s', hs', ha⟩ := g.cur.awake
      obtain rfl := Option.some.inj (hs.symm.trans hs')
      have hi := (g.tables.shows_some hs).is ht
      simp only [Rec.got, hp, Kernel.onTheWay, hs, true_and]
      obtain ⟨ph, b⟩ := s
      cases ph with
      | given e₁ m =>
        obtain rfl : e₁ = e' := Option.some.inj he
        obtain ⟨hok, hmsg⟩ : t.osTcbStatPend = .ok ∧ t.osTcbMsg = m := hi.statPend
        simp only [hok, hmsg, way, Kernel.isSem, Kernel.typ, and_true]
        by_cases he' : e₁ = e
        · subst he'
          rfl
        · rw [if_neg he', if_neg he']
      | timedOut e₁ =>
        have hto : t.osTcbStatPend = .to := hi.statPend
        simp [hto, way]
      | aborted e₁ =>
        have hab : t.osTcbStatPend = .abort := hi.statPend
        simp [hab, way]
      | own => cases he
      | delayed n | waiting e₁ n => cases ha
    · cases h
  · cases h

theorem got_eq (g : KernelOk k) {a : Action E} {r : Option Ret} (h : kernelStep k a = some (k', r)) (e : E)
    (p : Prio) :
    Rec.got e p (k, a, r) = (Rec.evsOf p (k, a, r)).flatMap (Ev.takes e (k.isSem e) (k.status p)) := by
  have hnone (hk : ∀ ev, a.kind = some ev → ev.takes e (k.isSem e) (k.status p) = [])
      (hs : Rec.got e p (k, a, r) = []) :
      Rec.got e p (k, a, r) = (Rec.evsOf p (k, a, r)).flatMap (Ev.takes e (k.isSem e) (k.status p)) :=
    hs.trans (flatMap_evsOf hk).symm
  cases a with
  | call c =>
    cases c with
    | taskDel prio =>
      obtain rfl : ((Call.taskDel prio).exec k).2 = r := congrArg Prod.snd (kernelStep_call h)
      simp only [Call.exec, Prod.map, Rec.got, Rec.evsOf, Action.evs, Call.evs, Option.elim_some, onSuccess]
      by_cases he : (osTaskDel k prio).2.err = .none
      · by_cases hp : prio.getD k.osPrioCur = p
        · simp [he, hp, evsOf_singleton, Ev.takes, Kernel.onTheWay]
        · simp [he, hp, evsOf_singleton]
      · simp [he]
    | semAccept e' | mboxAccept e' | qAccept e' | semSet e' cnt | qFlush e' | taskCreate q | schedLock | schedUnlock =>
      refine hnone (fun ev hev => by cases hev) ?_
      cases r <;> rfl
    | semPend e' n | mboxPend e' n | qPend e' n | semPost e' | mboxPost e' m | qPost e' m | qPostFront e' m
    | semPendAbort e' b | mboxPendAbort e' b | qPendAbort e' b | timeDly n | timeDlyResume q | taskSuspend q
    | taskResume q =>
      refine hnone (fun ev hev => ?_) ?_
      · obtain rfl := Option.some.inj hev
        rfl
      · cases r <;> rfl
  | pendReturn =>
    cases r with
    | none =>
      simp only [kernelStep] at h
      split at h
      · split at h
        · cases (Prod.mk.inj (Option.some.inj h)).2
        · cases h
      · cases h
    | some ret =>
      have hgot := got_pendReturn g h e
      simp only [Rec.evsOf, Action.evs, evsOf_singleton]
      by_cases hp : k.osPrioCur = p
      · subst hp
        simpa [Ev.takes, Kernel.onTheWay] using hgot
      · simp only [Rec.got, hp, false_and, if_false, List.flatMap_nil]
        split <;> rfl
  | tcbInit | tickTask =>
    refine hnone (fun ev hev => ?_) ?_
    · obtain rfl := Option.some.inj hev
      rfl
    · cases r <;> rfl
  | intEnter | intExit | timeTick =>
    refine hnone (fun ev hev => by cases hev) ?_
    cases r <;> rfl

theorem step_onTheWay (g : KernelOk k) {a : Action E} {r : Option Ret} (h : kernelStep k a = some (k', r)) (e : E)
    (p : Prio) :
    k.onTheWay e p ++ Rec.sentTo e p (k, a, r) = Rec.got e p (k, a, r) ++ k'.onTheWay e p := by
  have hsem : k'.isSem e = k.isSem e := by rw [Kernel.isSem, Kernel.isSem, (step_frame h).2.1]
  have hleads := task_step g h p
  rw [sentTo_eq h, got_eq g h, Kernel.onTheWay, Kernel.onTheWay, hsem]
  rcases kernelStep_fits g h p with hnil | ⟨ev, hone, hfit⟩
  · have hnil : Rec.evsOf p (k, a, r) = [] := hnil
    rw [hnil] at hleads ⊢
    have hst : k'.status p = k.status p := hleads
    simp [hst]
  · have hone : Rec.evsOf p (k, a, r) = [ev] := hone
    rw [hone] at hleads ⊢
    have hst : k'.status p = ev.apply (k.status p) := hleads.2
    rw [hst]
    simpa using way_apply hfit (k.isSem e)

/-- What an event has given to a task is what the task has got, in order, and the one message on its way. -/
theorem each_once (h : Reaches free event ps l k) (e : E) (p : Prio) :
    l.flatMap (Rec.sentTo e p) = l.flatMap (Rec.got e p) ++ k.onTheWay e p ∧ (k.onTheWay e p).length ≤ 1 := by
  obtain ⟨hev, hnd, hi, ht⟩ := h
  have g₀ := osStart_ok free hev hnd hi
  refine ⟨?_, ?_⟩
  · induction ht with
    | nil =>
      have hstart : (osStart free event ps).onTheWay e p = [] := by
        unfold Kernel.onTheWay
        cases hs : (osStart free event ps).status p with
        | none => rfl
        | some s =>
          obtain rfl := status_osStart free hev hnd hi hs
          rfl
      rw [hstart]
      rfl
    | @snoc l k₁ k₂ a r ht hstep ih =>
      have hone := step_onTheWay (trace_ok g₀ ht) hstep e p
      simp only [List.flatMap_append, List.flatMap_singleton, ih, List.append_assoc, hone]
  · unfold Kernel.onTheWay way
    split
    · split <;> simp
    · simp

theorem each_once_threePosts : ∃ l k, Trace kernelStep twoTasks l k ∧ l.flatMap (Rec.sentTo () 3) = [7] ∧
    l.flatMap (Rec.sentTo () 3) = l.flatMap (Rec.got () 3) ++ k.onTheWay () 3 :=
  have hreach := twoTasks_reaches threePosts rfl
  ⟨_, _, hreach.2.2.2, rfl, (each_once hreach () 3).1⟩

end

end GizwitsSdk
