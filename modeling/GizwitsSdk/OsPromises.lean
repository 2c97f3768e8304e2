import GizwitsSdk.OsRun
import Mathlib.Order.Bounds.Basic

/-!
# What the kernel promises

A run starts where `OSStart` has switched to the first task. In every state that
a run reaches, the ready table holds the tasks that can run and the processor is
with the first of them; nobody waits for what is there; a post reaches the first
of the tasks that wait, and a broadcast all of them.
-/

namespace GizwitsSdk

open Lib

section
variable {E : Type} {k : Kernel E} {p : Prio}

/-! ## The start -/

/-- An event that nobody waits for. -/
structure Idle (ev : OsEvent) : Prop where
  tbl : ev.osEventTbl = BitTable.empty
  ring : ev.osQ.Wf

/-- `OSInit`, up to its tasks. -/
def osBlank (free : Nat) (event : E → OsEvent) : Kernel E :=
  { osRdy := BitTable.empty, osTcbPrioTbl := fun _ => .null, osTcbList := [], osTcbFree := free
    osEvent := event, osPrioCur := osTaskIdlePrio }

/-- `OSInit`: the idle task is the only one. -/
def osInit (free : Nat) (event : E → OsEvent) : Kernel E := newTask (osBlank free event) osTaskIdlePrio (free - 1)

def osCreate (k : Kernel E) (p : Prio) : Kernel E := newTask k p (k.osTcbFree - 1)

/-- `OSStart`, with the tasks `ps` created. -/
def osStart (free : Nat) (event : E → OsEvent) (ps : List Prio) : Kernel E :=
  let k := ps.foldl osCreate (osInit free event)
  { k with osPrioCur := osSchedNew k }

theorem status_osInit (free : Nat) (event : E → OsEvent) (q : Prio) :
    (osInit free event).status q = if q = osTaskIdlePrio then some ⟨.own, false⟩ else none := by
  by_cases hq : q = osTaskIdlePrio
  · subst hq
    rw [if_pos rfl]
    exact congrArg some ((Tcb.Is.fresh : Tcb.Is (osInit free event).typ {} ⟨.own, false⟩)).status_eq
  · rw [if_neg hq]
    refine status_of_no_tcb ?_
    simp [osInit, osBlank, newTask, Kernel.makeReady, Kernel.tcb, Kernel.setTcb, Kernel.setSlot, hq]

theorem creating_osInit (free : Nat) (event : E → OsEvent) (q : Prio) : (osInit free event).creating q = none := by
  by_cases hq : q = osTaskIdlePrio
  · subst hq
    simp [Kernel.creating, Kernel.tcb, osInit, osBlank, newTask, Kernel.makeReady, Kernel.setTcb, Kernel.setSlot]
  · simp [Kernel.creating, Kernel.tcb, osInit, osBlank, newTask, Kernel.makeReady, Kernel.setTcb, Kernel.setSlot, hq]

theorem osInit_ok (free : Nat) {event : E → OsEvent} (hev : ∀ e, Idle (event e)) :
    TablesOk (osInit free event) := by
  have hst := status_osInit free event
  have hwaits (e : E) : (osInit free event).waits e = BitTable.empty := (hev e).tbl
  refine {
    reserved := fun q p hq => ?_
    creatingInj := fun q q' p hq => ?_
    nodup := List.nodup_singleton _
    mem_list := fun p => ?_
    last := ⟨[], rfl⟩
    rdyWf := BitTable.wf_empty.insert _
    waitsWf := fun e => (hwaits e).symm ▸ BitTable.wf_empty
    shows := fun p => ⟨?_, ?_, fun e => ?_⟩
    ring := fun e => (hev e).ring
    nobody := fun e _ p => (hwaits e).symm ▸ BitTable.not_mem_empty
    idle := by rw [hst, if_pos rfl] }
  · rw [creating_osInit] at hq
    cases hq
  · rw [creating_osInit] at hq
    cases hq
  · have hlist : (osInit free event).osTcbList = [osTaskIdlePrio] := rfl
    rw [hlist, List.mem_singleton, hst]
    by_cases hp : p = osTaskIdlePrio <;> simp [hp]
  · rw [hst]
    by_cases hp : p = osTaskIdlePrio
    · subst hp
      refine ⟨{}, ?_, .fresh⟩
      exact Kernel.tcb_setTcb (osBlank free event) osTaskIdlePrio {}
    · simp only [if_neg hp]
      simp [Kernel.tcb, osInit, osBlank, newTask, Kernel.makeReady, Kernel.setTcb, Kernel.setSlot, hp]
  · have hr : (osInit free event).osRdy = BitTable.empty.insert osTaskIdlePrio := rfl
    rw [hst, hr, BitTable.mem_insert]
    by_cases hp : p = osTaskIdlePrio
    · simp [hp, Status.runnable, Phase.awake]
    · simp [hp, BitTable.not_mem_empty]
  · rw [hwaits, hst]
    refine iff_of_false BitTable.not_mem_empty ?_
    rintro ⟨s, hs, hw⟩
    split at hs
    · obtain rfl := Option.some.inj hs
      cases hw
    · cases hs

/-- Nothing but fresh tasks, and no processor yet. -/
structure FreshTasks (k : Kernel E) : Prop where
  tables : TablesOk k
  noCreating : ∀ q, k.creating q = none
  own : ∀ q s, k.status q = some s → s = ⟨.own, false⟩
  nesting : k.osIntNesting = 0
  lock : k.osLockNesting = 0
  tick : k.tick = none

theorem FreshTasks.create (h : FreshTasks k) (hp : k.status p = none) (hi : p ≠ osTaskIdlePrio) :
    FreshTasks (osCreate k p) ∧ (osCreate k p).status = Function.update k.status p (some ⟨.own, false⟩) := by
  have hnone : k.tcb p = none := by simpa [Kernel.status] using hp
  have hfree : ∀ q, k.creating q ≠ some p := by
    intro q hq
    rw [h.noCreating q] at hq
    cases hq
  obtain ⟨htab, hst⟩ := h.tables.tcbInit hnone hfree hi (k.osTcbFree - 1)
  refine ⟨⟨htab, fun q => ?_, fun q s hs => ?_, h.nesting, h.lock, h.tick⟩, hst⟩
  · by_cases hq : q = p
    · subst hq
      exact Kernel.creating_of_tcb (k.tcb_setTcb q {})
    · have hm := (k.moves_setTcb p {}).trans (Kernel.moves_makeReady _ p)
      exact (hm.creating_eq hq).trans (h.noCreating q)
  · have hs : (newTask k p (k.osTcbFree - 1)).status q = some s := hs
    rw [hst] at hs
    by_cases hq : q = p
    · subst hq
      rw [Function.update_self] at hs
      exact (Option.some.inj hs).symm
    · rw [Function.update_of_ne hq] at hs
      exact h.own q s hs

theorem fresh_creates (ps : List Prio) {k : Kernel E} (h : FreshTasks k) (hnd : ps.Nodup) (hi : osTaskIdlePrio ∉ ps)
    (hps : ∀ p ∈ ps, k.status p = none) : FreshTasks (ps.foldl osCreate k) := by
  induction ps generalizing k with
  | nil => exact h
  | cons p ps ih =>
    obtain ⟨hp, hnd⟩ := List.nodup_cons.mp hnd
    have hpi : p ≠ osTaskIdlePrio := fun hpi => hi (hpi ▸ List.mem_cons_self)
    obtain ⟨h1, hst⟩ := h.create (hps p List.mem_cons_self) hpi
    refine ih h1 hnd (fun hm => hi (List.mem_cons_of_mem p hm)) fun q hq => ?_
    have hqp : q ≠ p := fun hqp => hp (hqp ▸ hq)
    rw [hst, Function.update_of_ne hqp]
    exact hps q (List.mem_cons_of_mem p hq)

theorem fresh_start (free : Nat) {event : E → OsEvent} {ps : List Prio} (hev : ∀ e, Idle (event e))
    (hnd : ps.Nodup) (hi : osTaskIdlePrio ∉ ps) : FreshTasks (ps.foldl osCreate (osInit free event)) := by
  have h0 : FreshTasks (osInit free event) := by
    refine ⟨osInit_ok free hev, creating_osInit free event, fun q s hs => ?_, rfl, rfl, rfl⟩
    rw [status_osInit] at hs
    split at hs
    · exact (Option.some.inj hs).symm
    · cases hs
  refine fresh_creates ps h0 hnd hi fun p hp => ?_
  rw [status_osInit, if_neg]
  rintro rfl
  exact hi hp

/-- The kernel is in order when its first task runs. -/
theorem osStart_ok (free : Nat) {event : E → OsEvent} {ps : List Prio} (hev : ∀ e, Idle (event e))
    (hnd : ps.Nodup) (hi : osTaskIdlePrio ∉ ps) : KernelOk (osStart free event ps) := by
  have h1 := fresh_start free hev hnd hi
  unfold osStart
  simp only
  generalize ps.foldl osCreate (osInit free event) = k at h1 ⊢
  have hs : osSched k = { k with osPrioCur := osSchedNew k } := if_pos ⟨h1.nesting, h1.lock⟩
  rw [← hs]
  have hgoes : Goes k (osSched k) [] :=
    Goes.sched h1.tables (tickOk_none h1.tick) (fun hb => absurd ⟨h1.nesting, h1.lock⟩ hb) rfl
  exact hgoes.ok

/-- No task has done anything yet. -/
theorem status_osStart (free : Nat) {event : E → OsEvent} {ps : List Prio} (hev : ∀ e, Idle (event e))
    (hnd : ps.Nodup) (hi : osTaskIdlePrio ∉ ps) {p : Prio} {s : Status E}
    (hs : (osStart free event ps).status p = some s) : s = ⟨.own, false⟩ :=
  (fresh_start free hev hnd hi).own p s hs

/-- In the words of the control block: no bit set, no delay. -/
theorem KernelOk.mem_rdy (g : KernelOk k) (p : Prio) :
    p ∈ k.osRdy ↔ ∃ t, k.tcb p = some t ∧ t.osTcbStat = osStatRdy ∧ t.osTcbDly = 0 := by
  cases hs : k.status p with
  | none =>
    have hshow := hs ▸ g.tables.shows p
    have hnone : k.tcb p = none := hshow.tcb
    rw [hshow.rdy]
    simp [hnone]
  | some s =>
    have hshow := g.tables.shows_some hs
    obtain ⟨t, ht, hi⟩ := hshow.tcb_some
    rw [hshow.rdy, ht]
    simpa using hi.rdy_iff.symm

/-- The wait list of an event holds the tasks of its unfinished pends: those
that nothing has reached, and those whose time is up but that have not run since. -/
theorem KernelOk.mem_waits (g : KernelOk k) (e : E) (p : Prio) :
    p ∈ k.waits e ↔ ∃ t, k.tcb p = some t ∧ t.osTcbEventPtr = some e ∧
      (t.osTcbStat &&& (k.typ e).stat ≠ osStatRdy ∨ t.osTcbStatPend = .to) := by
  cases hs : k.status p with
  | none =>
    have hshow := hs ▸ g.tables.shows p
    have hnone : k.tcb p = none := hshow.tcb
    rw [hshow.waits]
    simp [hnone]
  | some s =>
    have hshow := g.tables.shows_some hs
    obtain ⟨t, ht, hi⟩ := hshow.tcb_some
    rw [hshow.waits_iff, ht]
    simp only [Option.some.injEq, exists_eq_left']
    exact (hi.waits_iff e).symm

/-- One event each for tasks that differ. -/
theorem applyEvs_each (σ : Prio → Option (Status E)) (ev : Ev E) {qs : List Prio} (hn : qs.Nodup) {p : Prio}
    (hp : p ∈ qs) : applyEvs σ (qs.map fun q => (q, ev)) p = ev.apply (σ p) := by
  have hf : (qs.map fun q => (q, ev)).filter (·.1 = p) = [(p, ev)] := by
    rw [List.filter_map]
    have hq : qs.filter (fun q => decide (q = p)) = [p] := by
      rw [List.filter_eq, List.count_eq_one_of_mem hn hp, List.replicate_one]
    exact congrArg (List.map fun q => (q, ev)) hq
  rw [applyEvs_apply, hf]
  rfl

end

/-- The state before a step, the action, and what a call has given back. -/
abbrev Rec (E : Type) := Kernel E × Action E × Option Ret

section
variable {E : Type} [DecidableEq E] {k k' : Kernel E} {e : E} {free : Nat} {event : E → OsEvent} {ps : List Prio}
  {l : List (Rec E)}

/-- A run of the kernel from its start, by any steps in any order. -/
def Reaches (free : Nat) (event : E → OsEvent) (ps : List Prio) (l : List (Rec E)) (k : Kernel E) : Prop :=
  (∀ e, Idle (event e)) ∧ ps.Nodup ∧ osTaskIdlePrio ∉ ps ∧ Trace kernelStep (osStart free event ps) l k

theorem trace_ok (g : KernelOk k) (h : Trace kernelStep k l k') : KernelOk k' :=
  h.inv (P := KernelOk) (fun _ _ _ _ g hs => (kernelStep_goes g hs).ok) g

theorem Reaches.ok (h : Reaches free event ps l k) : KernelOk k :=
  trace_ok (osStart_ok free h.1 h.2.1 h.2.2.1) h.2.2.2

def fourMessages : Unit → OsEvent := fun _ => { osEventType := .q, osQ := ⟨4, fun _ => 0, 0, 0, 0⟩ }

/-- Two tasks, of the priorities 3 and 5, and the queue. -/
def twoTasks : Kernel Unit := osStart 8 fourMessages [⟨3, by decide⟩, ⟨5, by decide⟩]

theorem twoTasks_reaches (as : List (Action Unit)) (h : (runTrace kernelStep twoTasks as).isSome = true) :
    Reaches 8 fourMessages [3, 5] ((runTrace kernelStep twoTasks as).get h).1
      ((runTrace kernelStep twoTasks as).get h).2 := by
  have hring : (fourMessages ()).osQ.Wf := ⟨by decide, by decide, by decide⟩
  exact ⟨fun _ => ⟨rfl, hring⟩, by decide, by decide, trace_get as h⟩

/-- The first task waits for a message, two ticks at most. -/
def onePends : List (Rec Unit) × Kernel Unit := (runTrace kernelStep twoTasks [.call (.qPend () 2)]).get rfl

/-- And the second waits too, without a timeout. -/
def bothPend : List (Rec Unit) × Kernel Unit :=
  (runTrace kernelStep twoTasks [.call (.qPend () 2), .call (.qPend () 0), .intEnter]).get rfl

/-! ## The processor -/

/-- The ready table is the set of the tasks that can run, with the marks of its
rows, and the processor is with the first of them. -/
theorem runs_first (h : Reaches free event ps l k) :
    k.osRdy.Wf ∧ (∀ p, p ∈ k.osRdy ↔ ∃ t, k.tcb p = some t ∧ t.osTcbStat = osStatRdy ∧ t.osTcbDly = 0) ∧
      (k.osIntNesting = 0 → k.osLockNesting = 0 → IsLeast {p | p ∈ k.osRdy} k.osPrioCur) := by
  have g := h.ok
  refine ⟨g.tables.rdyWf, g.mem_rdy, fun hn hl => ?_⟩
  rw [g.cur.high hn hl]
  refine ⟨g.tables.rdyWf.highest_mem osUnMap_isLowest g.tables.idle_ready, fun q hq => ?_⟩
  exact g.tables.rdyWf.highest_le osUnMap_isLowest hq

theorem runs_first_onePends : IsLeast {p | p ∈ onePends.2.osRdy} 5 :=
  (runs_first (twoTasks_reaches [.call (.qPend () 2)] rfl)).2.2 rfl rfl

/-! ## Waiting -/

/-- Nobody waits for what is there. -/
theorem no_lost_wakeup (h : Reaches free event ps l k) (e : E) :
    (∀ p, p ∈ k.waits e ↔ ∃ t, k.tcb p = some t ∧ t.osTcbEventPtr = some e ∧
      (t.osTcbStat &&& (k.typ e).stat ≠ osStatRdy ∨ t.osTcbStatPend = .to)) ∧
      ((k.osEvent e).contents ≠ [] → (k.waits e).grp = 0) := by
  have g := h.ok
  refine ⟨g.mem_waits e, fun hc => ?_⟩
  exact (g.tables.waitsWf e).grp_eq_zero.mpr (g.tables.nobody e hc)

theorem no_lost_wakeup_onePends : 3 ∈ onePends.2.waits () :=
  ((no_lost_wakeup (twoTasks_reaches [.call (.qPend () 2)] rfl) ()).1 3).mpr ⟨_, rfl, rfl, .inl (by decide)⟩

/-! ## Posts -/

def Call.postsTo : Call E → Option (E × Ptr)
  | semPost e => some (e, 0)
  | mboxPost e pmsg | qPost e pmsg | qPostFront e pmsg => some (e, pmsg)
  | _ => none

theorem osPost_wakes {typ : EventType} {full : KernelErr} {put : OsEvent → Option OsEvent} {pmsg : Ptr}
    (hty : (k.osEvent e).osEventType = typ) (hg : (k.waits e).grp ≠ 0) :
    osPost typ full put k e pmsg =
      (osSched (osEventTaskRdy k e pmsg (k.typ e).stat .ok).1,
        { rdy := [(osEventTaskRdy k e pmsg (k.typ e).stat .ok).2] }) := by
  subst hty
  unfold osPost
  rw [if_neg (not_not.mpr rfl), if_pos hg]
  rfl

/-- Every successful post is an `osPost` to an event of its type. -/
theorem post_eq {c : Call E} {pmsg : Ptr} {ret : Ret} (hc : c.postsTo = some (e, pmsg))
    (hr : (c.exec k).2 = some ret) (hok : ret.err = .none) (hg : (k.waits e).grp ≠ 0) :
    c.exec k = (osSched (osEventTaskRdy k e pmsg (k.typ e).stat .ok).1,
      some { rdy := [(osEventTaskRdy k e pmsg (k.typ e).stat .ok).2] }) := by
  have key {typ : EventType} {full : KernelErr} {put : OsEvent → Option OsEvent}
      (h : (osPost typ full put k e pmsg).2.err = .none) :
      osPost typ full put k e pmsg = (osSched (osEventTaskRdy k e pmsg (k.typ e).stat .ok).1,
        { rdy := [(osEventTaskRdy k e pmsg (k.typ e).stat .ok).2] }) := by
    refine osPost_wakes (by_contra fun hty => ?_) hg
    rw [osPost, if_pos hty] at h
    cases h
  cases c with
  | semPost e' =>
    obtain ⟨rfl, rfl⟩ := Prod.mk.inj (Option.some.inj hc)
    obtain rfl := Option.some.inj hr
    exact congrArg (Prod.map id some) (key hok)
  | mboxPost e' m | qPost e' m | qPostFront e' m =>
    obtain ⟨rfl, rfl⟩ := Prod.mk.inj (Option.some.inj hc)
    obtain rfl := Option.some.inj hr
    exact congrArg (Prod.map id some) (key hok)
  | _ => cases hc

theorem kernelStep_call {c : Call E} {r : Option Ret} (h : kernelStep k (.call c) = some (k', r)) :
    c.exec k = (k', r) := by
  simp only [kernelStep] at h
  split at h
  · exact Option.some.inj h
  · cases h

/-- A post for which tasks wait goes to the first of them: it leaves the wait
list with the message, and nothing else changes hands. -/
theorem post_reaches_first (h : Reaches free event ps l k) {c : Call E} {pmsg : Ptr} {ret : Ret}
    (hc : c.postsTo = some (e, pmsg)) (hstep : kernelStep k (.call c) = some (k', some ret)) (hok : ret.err = .none)
    {p : Prio} {rest : List Prio} (hw : (k.waits e).members = p :: rest) :
    ret.rdy = [p] ∧ (k'.waits e).members = rest ∧ (∀ e', (k'.osEvent e').contents = (k.osEvent e').contents) ∧
      (∃ t, k'.tcb p = some t ∧ t.osTcbEventPtr = some e ∧ t.osTcbStatPend = .ok ∧ t.osTcbMsg = pmsg ∧
        t.osTcbDly = 0) ∧ ∀ q, q ≠ p → k'.tcb q = k.tcb q := by
  have g := h.ok
  have hwf := g.tables.waitsWf e
  have hmem : p ∈ k.waits e := BitTable.mem_members.mp (hw ▸ List.mem_cons_self)
  have hg : (k.waits e).grp ≠ 0 := hwf.grp_ne_zero.mpr ⟨p, hmem⟩
  have hexec := kernelStep_call hstep
  have heq := post_eq hc (congrArg Prod.snd hexec) hok hg
  rw [hexec] at heq
  obtain ⟨hk, hret⟩ := Prod.mk.inj heq
  have hret := Option.some.inj hret
  -- the first of the list is the one that the two lookups find
  have hcons := hwf.members_eq osUnMap_isLowest hg
  rw [hw] at hcons
  obtain ⟨hp, hrest⟩ := List.cons.inj hcons
  obtain ⟨q, s, hq, -, -, -, hm⟩ := osEventTaskRdy_spec g.tables hg (.inl rfl) pmsg
  obtain ⟨hfound, hleft⟩ := osEventTaskRdy_waits g.tables hg pmsg (k.typ e).stat .ok
  have hqp : (osEventTaskRdy k e pmsg (k.typ e).stat .ok).2 = p := hfound.trans hp.symm
  obtain rfl : q = p := hq.symm.trans hqp
  have st := osSched_same (osEventTaskRdy k e pmsg (k.typ e).stat .ok).1
  obtain ⟨hev, -⟩ := osSched_rest (osEventTaskRdy k e pmsg (k.typ e).stat .ok).1
  refine ⟨by rw [hret, hqp], ?_, fun e' => ?_, ?_, fun q' hq' => ?_⟩
  · rw [hk, st.waits, hleft, hrest]
  · rw [hk, hev]
    exact OsEvent.contents_held (hm.moves.held e')
  · obtain ⟨t, ht, hi⟩ := hm.shows.tcb_some
    rw [hk, st.tcb]
    exact ⟨t, ht, hi.eventPtr, hi.statPend.1, hi.statPend.2, hi.dly⟩
  · rw [hk, st.tcb]
    exact hm.moves.tcb_eq hq'

theorem post_reaches_first_onePends : ∃ k' ret, kernelStep onePends.2 (.call (.qPost () 7)) = some (k', some ret) ∧
    ret.rdy = [3] ∧ (k'.waits ()).members = [] := by
  have h := post_reaches_first (c := .qPost () 7) (twoTasks_reaches [.call (.qPend () 2)] rfl) rfl rfl rfl
    (show (onePends.2.waits ()).members = [3] by decide)
  exact ⟨_, _, rfl, h.1, h.2.1⟩

/-! ## Aborts -/

theorem osEventTasksRdy_members (pmsg : Ptr) {typ : EventType} {ps : StatPend} (hps : ps.Wakes) (n : Nat) :
    ∀ {k : Kernel E}, TablesOk k → CurBase k → TickOk k → k.typ e = typ →
      (osEventTasksRdy e pmsg typ.stat ps n k).2 = (k.waits e).members.take n ∧
        ((osEventTasksRdy e pmsg typ.stat ps n k).1.waits e).members = (k.waits e).members.drop n := by
  induction n with
  | zero => exact fun _ _ _ _ => ⟨rfl, rfl⟩
  | succ n ih =>
    intro k h hb ht hty
    unfold osEventTasksRdy
    split
    · case isTrue hg =>
      rw [(h.waitsWf e).members_eq_nil.mpr hg]
      exact ⟨rfl, rfl⟩
    · case isFalse hg =>
      have h1 := osEventTaskRdy_moved h hb ht hg hps pmsg
      obtain ⟨hfound, hleft⟩ := osEventTaskRdy_waits h hg pmsg (k.typ e).stat ps
      rw [hty] at h1 hfound hleft
      obtain ⟨h2, h3⟩ := ih h1.tables h1.base h1.tick (by rw [h1.typ, hty])
      rw [(h.waitsWf e).members_eq osUnMap_isLowest hg]
      simp only [h2, h3, hleft, hfound, List.take_succ_cons, List.drop_succ_cons, and_self]

def Call.abortsAll : Call E → Option E
  | semPendAbort e true | mboxPendAbort e true | qPendAbort e true => some e
  | _ => none

theorem osPendAbort_all (g : KernelOk k) {typ : EventType} {ret : Ret} (h : osPendAbort typ k e true = (k', ret))
    (hok : ret.err ≠ .eventType) :
    ret.rdy = (k.waits e).members ∧ ret.cnt = (k.waits e).members.length ∧ (k'.waits e).grp = 0 := by
  unfold osPendAbort at h
  split at h
  · obtain ⟨-, rfl⟩ := Prod.mk.inj h
    exact absurd rfl hok
  · case isFalse hty =>
    split at h
    · obtain ⟨rfl, rfl⟩ := Prod.mk.inj h
      have hall := (k.waits e).members_length
      obtain ⟨h1, h2⟩ := osEventTasksRdy_members 0 (.inr rfl) 64 g.tables g.cur.toCurBase g.tick
        (not_not.mp hty)
      rw [List.take_of_length_le hall] at h1
      rw [List.drop_of_length_le hall] at h2
      have hmoved :=
        osEventTasksRdy_moved (.inr rfl) 0 typ 64 g.tables g.cur.toCurBase g.tick (not_not.mp hty)
      refine ⟨h1, congrArg List.length h1, ?_⟩
      rw [(osSched_same _).waits]
      exact (hmoved.tables.waitsWf e).members_eq_nil.mp h2
    · case isFalse hg =>
      obtain ⟨rfl, rfl⟩ := Prod.mk.inj h
      have hg := not_not.mp hg
      rw [(g.tables.waitsWf e).members_eq_nil.mpr hg]
      exact ⟨rfl, rfl, hg⟩

/-- A broadcast abort reaches every task that waits, in the order of their
priorities, and each of them once. -/
theorem abort_reaches_all (h : Reaches free event ps l k) {c : Call E} {ret : Ret} (hc : c.abortsAll = some e)
    (hstep : kernelStep k (.call c) = some (k', some ret)) (hok : ret.err ≠ .eventType) :
    ret.rdy = (k.waits e).members ∧ ret.cnt = (k.waits e).members.length ∧ (k'.waits e).grp = 0 ∧
      ∀ p ∈ k.waits e, ∃ t, k'.tcb p = some t ∧ t.osTcbEventPtr = some e ∧ t.osTcbStatPend = .abort ∧
        t.osTcbDly = 0 := by
  have g := h.ok
  have hexec := kernelStep_call hstep
  have hgoes := kernelStep_goes g hstep
  have key {typ : EventType} (he : (osPendAbort typ k e true).map id some = (k', some ret))
      (hevs : c.evs k (some ret) = wakes e 0 .abort ret) :
      ret.rdy = (k.waits e).members ∧ ret.cnt = (k.waits e).members.length ∧ (k'.waits e).grp = 0 ∧
        ∀ p ∈ k.waits e, ∃ t, k'.tcb p = some t ∧ t.osTcbEventPtr = some e ∧ t.osTcbStatPend = .abort ∧
          t.osTcbDly = 0 := by
    obtain ⟨hk, hr⟩ := Prod.mk.inj he
    obtain ⟨h1, h2, h3⟩ := osPendAbort_all g (Prod.ext hk (Option.some.inj hr)) hok
    refine ⟨h1, h2, h3, fun p hp => ?_⟩
    obtain ⟨s, hs, -⟩ := ((g.tables.shows p).waits e).mp hp
    have hnd : ret.rdy.Nodup := h1 ▸ (k.waits e).members_sorted.imp fun hlt => hlt.ne
    have hmem : p ∈ ret.rdy := h1 ▸ BitTable.mem_members.mpr hp
    have hst : k'.status p = some ⟨.aborted e, s.suspended⟩ := by
      have hevs' : (Action.call c).evs k (some ret) = ret.rdy.map fun q => (q, .wake e 0 .abort) := hevs
      rw [hgoes.status, hevs', applyEvs_each _ _ hnd hmem, hs]
      rfl
    obtain ⟨t, ht, hi⟩ := (hgoes.ok.tables.shows_some hst).tcb_some
    exact ⟨t, ht, hi.eventPtr, hi.statPend, hi.dly⟩
  cases c with
  | semPendAbort e' broadcast | mboxPendAbort e' broadcast | qPendAbort e' broadcast =>
    cases broadcast with
    | false => cases hc
    | true =>
      obtain rfl := Option.some.inj hc
      exact key hexec rfl
  | _ => cases hc

theorem abort_reaches_all_bothPend : ∃ k' ret,
    kernelStep bothPend.2 (.call (.qPendAbort () true)) = some (k', some ret) ∧ ret.rdy = [3, 5] ∧
      (k'.waits ()).grp = 0 := by
  have hreach := twoTasks_reaches [.call (.qPend () 2), .call (.qPend () 0), .intEnter] rfl
  have h := abort_reaches_all (c := .qPendAbort () true) hreach rfl rfl nofun
  exact ⟨_, _, rfl, h.1.trans (by decide), h.2.2.1⟩

end

end GizwitsSdk
