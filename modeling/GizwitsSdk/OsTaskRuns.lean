import GizwitsSdk.OsPromises

/-!
# A run, as one task sees it

What a run does to one task is a word of events, and each of them finds the
task where it can happen: only a task that waits for an event is reached by it,
only a task in its own code begins to wait. So a word of events is all that
there is to say of a task, whatever the others do in between.
-/

namespace GizwitsSdk

open Lib

section
variable {E : Type}

/-! ## Words of events -/

def Ev.Fits : Ev E → Option (Status E) → Prop
  | wake e _ ps, os => ps.Wakes ∧ ∃ s, os = some s ∧ s.phase.waitsFor = some e
  | block _ _, os => ∃ s, os = some s ∧ s.phase = .own
  | delay n, os => 0 < n ∧ ∃ s, os = some s ∧ s.phase = .own
  | ret, os => ∃ s e, os = some s ∧ s.phase.awake = true ∧ s.phase.inPend = some e
  | create, os => os = none
  | tick, os | expire, os | suspend, os | resume, os | delete, os => os.isSome = true

def Leads : Option (Status E) → List (Ev E) → Option (Status E) → Prop
  | os, [], os' => os' = os
  | os, ev :: evs, os' => ev.Fits os ∧ Leads (ev.apply os) evs os'

theorem Leads.append {os os₁ os₂ : Option (Status E)} {evs₁ evs₂ : List (Ev E)} (h₁ : Leads os evs₁ os₁)
    (h₂ : Leads os₁ evs₂ os₂) : Leads os (evs₁ ++ evs₂) os₂ := by
  induction evs₁ generalizing os with
  | nil =>
    obtain rfl : os₁ = os := h₁
    exact h₂
  | cons ev evs ih => exact ⟨h₁.1, ih h₁.2⟩

def evsOf (evs : Evs E) (p : Prio) : List (Ev E) := (evs.filter (·.1 = p)).map Prod.snd

theorem applyEvs_evsOf (σ : Prio → Option (Status E)) (evs : Evs E) (p : Prio) :
    applyEvs σ evs p = (evsOf evs p).foldl (fun os ev => ev.apply os) (σ p) := by
  rw [applyEvs_apply, evsOf, List.foldl_map]

@[simp] theorem evsOf_nil (p : Prio) : evsOf ([] : Evs E) p = [] := rfl

theorem evsOf_singleton (q : Prio) (ev : Ev E) (p : Prio) : evsOf [(q, ev)] p = if q = p then [ev] else [] := by
  by_cases h : q = p
  · simp [evsOf, h]
  · simp [evsOf, h]

/-- One event at most where no task has two. -/
theorem evsOf_map (ev : Ev E) {ps : List Prio} (hn : ps.Nodup) (p : Prio) :
    evsOf (ps.map fun q => (q, ev)) p = if p ∈ ps then [ev] else [] := by
  have hf : (ps.map fun q => (q, ev)).filter (·.1 = p) = (ps.filter (· = p)).map fun q => (q, ev) := by
    rw [List.filter_map]
    rfl
  rw [evsOf, hf]
  split
  · case isTrue hp => rw [List.filter_eq, List.count_eq_one_of_mem hn hp, List.replicate_one]; rfl
  · case isFalse hp => rw [List.filter_eq, List.count_eq_zero_of_not_mem hp]; rfl

end

section
variable {E : Type} {k k' : Kernel E} {e : E} {p : Prio}

def Rec.evsOf (p : Prio) : Rec E → List (Ev E)
  | (k, a, r) => GizwitsSdk.evsOf (a.evs k r) p

def word (p : Prio) (l : List (Rec E)) : List (Ev E) := l.flatMap (Rec.evsOf p)

theorem word_append (p : Prio) (l₁ l₂ : List (Rec E)) : word p (l₁ ++ l₂) = word p l₁ ++ word p l₂ :=
  List.flatMap_append

def Call.kind : Call E → Option (Ev E)
  | semPend e timeout | mboxPend e timeout | qPend e timeout => some (.block e timeout.toNat)
  | semPost e => some (.wake e 0 .ok)
  | mboxPost e pmsg | qPost e pmsg | qPostFront e pmsg => some (.wake e pmsg .ok)
  | semPendAbort e _ | mboxPendAbort e _ | qPendAbort e _ => some (.wake e 0 .abort)
  | timeDly ticks => some (.delay ticks.toNat)
  | timeDlyResume _ => some .expire
  | taskSuspend _ => some .suspend
  | taskResume _ => some .resume
  | taskDel _ => some .delete
  | semAccept _ | mboxAccept _ | qAccept _ | semSet _ _ | qFlush _ | taskCreate _ | schedLock | schedUnlock => none

def Action.kind : Action E → Option (Ev E)
  | call c => c.kind
  | pendReturn => some .ret
  | tcbInit => some .create
  | tickTask => some .tick
  | intEnter | intExit | timeTick => none

theorem mem_onSuccess {ret : Ret} {evs : Evs E} {pe : Prio × Ev E} (h : pe ∈ onSuccess ret evs) : pe ∈ evs := by
  unfold onSuccess at h
  split at h
  · exact h
  · cases h

theorem call_kind {r : Option Ret} {c : Call E} {pe : Prio × Ev E} (h : pe ∈ c.evs k r) : c.kind = some pe.2 := by
  cases c with
  | semPend e timeout | mboxPend e timeout | qPend e timeout =>
    simp only [Call.evs, blocks] at h
    split at h
    · obtain rfl := List.mem_singleton.mp h
      rfl
    · cases h
  | timeDly ticks =>
    simp only [Call.evs, delays] at h
    split at h
    · obtain rfl := List.mem_singleton.mp h
      rfl
    · cases h
  | semPost e =>
    cases r with
    | none => cases h
    | some ret =>
      obtain ⟨q, -, rfl⟩ := List.mem_map.mp h
      rfl
  | mboxPost e pmsg | qPost e pmsg | qPostFront e pmsg | semPendAbort e b | mboxPendAbort e b | qPendAbort e b =>
    cases r with
    | none => cases h
    | some ret =>
      obtain ⟨q, -, rfl⟩ := List.mem_map.mp h
      rfl
  | timeDlyResume p | taskSuspend p | taskResume p | taskDel p =>
    cases r with
    | none => cases h
    | some ret =>
      obtain rfl := List.mem_singleton.mp (mem_onSuccess h)
      rfl
  | semAccept e | mboxAccept e | qAccept e | semSet e cnt | qFlush e | taskCreate p | schedLock | schedUnlock =>
    cases h

/-- All the events of a step are of one kind. -/
theorem mem_evs {r : Option Ret} {a : Action E} {pe : Prio × Ev E} (h : pe ∈ a.evs k r) : a.kind = some pe.2 := by
  cases a with
  | call c => exact call_kind h
  | pendReturn =>
    obtain rfl := List.mem_singleton.mp h
    rfl
  | tcbInit =>
    simp only [Action.evs] at h
    split at h
    · cases r with
      | none => cases h
      | some ret =>
        obtain rfl := List.mem_singleton.mp (mem_onSuccess h)
        rfl
    · cases h
  | tickTask =>
    simp only [Action.evs] at h
    split at h
    · obtain rfl := List.mem_singleton.mp h
      rfl
    · cases h
  | intEnter | intExit | timeTick => cases h

theorem mem_evsOf {r : Option Ret} {a : Action E} {ev : Ev E} (h : ev ∈ Rec.evsOf p (k, a, r)) :
    a.kind = some ev := by
  obtain ⟨pe, hpe, rfl⟩ := List.mem_map.mp h
  exact mem_evs (List.mem_of_mem_filter hpe)

/-- One task, one event at most, and the event fits. -/
def FitsAll (k : Kernel E) (evs : Evs E) : Prop :=
  ∀ p, evsOf evs p = [] ∨ ∃ ev, evsOf evs p = [ev] ∧ ev.Fits (k.status p)

theorem fitsAll_nil : FitsAll k [] := fun _ => .inl rfl

theorem fitsAll_one {q : Prio} {ev : Ev E} (h : ev.Fits (k.status q)) : FitsAll k [(q, ev)] := by
  intro p
  rw [evsOf_singleton]
  split
  · case isTrue hq => exact .inr ⟨ev, rfl, hq ▸ h⟩
  · exact .inl rfl

theorem fitsAll_wakes (g : KernelOk k) {ret : Ret} (hnd : ret.rdy.Nodup) (hmem : ∀ q ∈ ret.rdy, q ∈ k.waits e)
    (pmsg : Ptr) {ps : StatPend} (hps : ps.Wakes) : FitsAll k (wakes e pmsg ps ret) := by
  intro p
  rw [wakes, evsOf_map _ hnd]
  split
  · case isTrue hp => exact .inr ⟨_, rfl, hps, ((g.tables.shows p).waits e).mp (hmem p hp)⟩
  · exact .inl rfl

theorem isSome_of_slot {t : Tcb E} (h : k.osTcbPrioTbl p = .tcb t) : (k.status p).isSome = true := by
  simp [Kernel.status, Kernel.tcb, h]

theorem osTimeDlyResume_some (h : (osTimeDlyResume k p).2.err = .none) : (k.status p).isSome = true := by
  unfold osTimeDlyResume at h
  split at h
  · cases h
  · cases ht : k.tcb p with
    | none =>
      rw [ht] at h
      cases h
    | some t => simp [Kernel.status, ht]

theorem fitsAll_onSuccess {ret : Ret} {evs : Evs E} (h : ret.err = .none → FitsAll k evs) :
    FitsAll k (onSuccess ret evs) := by
  unfold onSuccess
  split
  · case isTrue he => exact h he
  · exact fitsAll_nil

theorem osTaskSuspend_some {prio : Option Prio} (h : (osTaskSuspend k prio).2.err = .none) :
    (k.status (prio.getD k.osPrioCur)).isSome = true := by
  cases hslot : k.osTcbPrioTbl (prio.getD k.osPrioCur) with
  | tcb t => exact isSome_of_slot hslot
  | null | reserved =>
    simp only [osTaskSuspend, hslot] at h
    cases h

theorem osTaskResume_some (h : (osTaskResume k p).2.err = .none) : (k.status p).isSome = true := by
  cases hslot : k.osTcbPrioTbl p with
  | tcb t => exact isSome_of_slot hslot
  | null | reserved =>
    simp only [osTaskResume, hslot] at h
    cases h

theorem fitsAll_delays (g : KernelOk k) (ticks : UInt32) (hown : k.osIntNesting = 0 → k.place = some .own) :
    FitsAll k (delays k ticks) := by
  unfold delays
  split
  · case isTrue hc =>
    obtain ⟨-, s, -, hs, ho, -⟩ := g.own (hown hc.1)
    have hpos : 0 < ticks.toNat := Nat.pos_of_ne_zero fun h0 => hc.2.2 (UInt32.toNat_inj.mp h0)
    exact fitsAll_one ⟨hpos, s, hs, ho⟩
  · exact fitsAll_nil

end

section
variable {E : Type} [DecidableEq E] {k k' : Kernel E} {e : E} {p : Prio} {r : Option Ret}

/-! ## Every event fits -/

theorem osPost_rdy (g : KernelOk k) {typ : EventType} {full : KernelErr} {put : OsEvent → Option OsEvent} {pmsg : Ptr} :
    (osPost typ full put k e pmsg).2.rdy.Nodup ∧
      ∀ q ∈ (osPost typ full put k e pmsg).2.rdy, q ∈ k.waits e := by
  unfold osPost
  split
  · exact ⟨List.nodup_nil, nofun⟩
  · split
    · case isTrue hg =>
      refine ⟨List.nodup_singleton _, fun q hq => ?_⟩
      obtain rfl := List.mem_singleton.mp hq
      rw [(osEventTaskRdy_waits g.tables hg ..).1]
      obtain ⟨q, hq⟩ := (g.tables.waitsWf e).grp_ne_zero.mp hg
      exact (g.tables.waitsWf e).highest_mem osUnMap_isLowest hq
    · split
      · exact ⟨List.nodup_nil, nofun⟩
      · exact ⟨List.nodup_nil, nofun⟩

theorem osPendAbort_rdy (g : KernelOk k) (typ : EventType) (broadcast : Bool) :
    (osPendAbort typ k e broadcast).2.rdy.Nodup ∧
      ∀ q ∈ (osPendAbort typ k e broadcast).2.rdy, q ∈ k.waits e := by
  unfold osPendAbort
  split
  · exact ⟨List.nodup_nil, nofun⟩
  · case isFalse hty =>
    split
    · simp only
      generalize (if broadcast = true then 64 else 1) = n
      obtain ⟨h1, -⟩ := osEventTasksRdy_members 0 (.inr rfl) n g.tables g.cur.toCurBase g.tick
        (not_not.mp hty)
      rw [h1]
      have hnd : (k.waits e).members.Nodup := (k.waits e).members_sorted.imp fun hlt => hlt.ne
      exact ⟨hnd.take, fun q hq => BitTable.mem_members.mp (List.mem_of_mem_take hq)⟩
    · exact ⟨List.nodup_nil, nofun⟩

theorem osTaskDel_some {prio : Option Prio} (h : (osTaskDel k prio).2.err = .none) :
    (k.status (prio.getD k.osPrioCur)).isSome = true := by
  cases hslot : k.osTcbPrioTbl (prio.getD k.osPrioCur) with
  | tcb t => exact isSome_of_slot hslot
  | null | reserved =>
    simp only [osTaskDel, hslot] at h
    split at h
    · cases h
    · split at h
      · cases h
      · cases h

theorem fitsAll_blocks (g : KernelOk k) (typ : EventType) (timeout : UInt32)
    (hown : k.osIntNesting = 0 → k.place = some .own) :
    FitsAll k (blocks k e timeout (osPend typ k e timeout).2) := by
  unfold blocks
  split
  · case isTrue hnone =>
    have hn : k.osIntNesting = 0 := by
      by_contra hn
      unfold osPend at hnone
      split at hnone
      · cases hnone
      · rw [if_pos (Nat.pos_of_ne_zero hn)] at hnone
        cases hnone
    obtain ⟨-, s, -, hs, ho, -⟩ := g.own (hown hn)
    exact fitsAll_one ⟨s, hs, ho⟩
  · exact fitsAll_nil

theorem call_fits (g : KernelOk k) (c : Call E) (hown : k.osIntNesting = 0 → k.place = some .own) :
    FitsAll k (c.evs k (c.exec k).2) := by
  cases c with
  | semPend e timeout => exact fitsAll_blocks g .sem timeout hown
  | mboxPend e timeout => exact fitsAll_blocks g .mbox timeout hown
  | qPend e timeout => exact fitsAll_blocks g .q timeout hown
  | semPost e => exact fitsAll_wakes g (osPost_rdy g).1 (osPost_rdy g).2 0 (.inl rfl)
  | mboxPost e pmsg => exact fitsAll_wakes g (osPost_rdy g).1 (osPost_rdy g).2 pmsg (.inl rfl)
  | qPost e pmsg => exact fitsAll_wakes g (osPost_rdy g).1 (osPost_rdy g).2 pmsg (.inl rfl)
  | qPostFront e pmsg => exact fitsAll_wakes g (osPost_rdy g).1 (osPost_rdy g).2 pmsg (.inl rfl)
  | semPendAbort e b => exact fitsAll_wakes g (osPendAbort_rdy g .sem b).1 (osPendAbort_rdy g .sem b).2 0 (.inr rfl)
  | mboxPendAbort e b => exact fitsAll_wakes g (osPendAbort_rdy g .mbox b).1 (osPendAbort_rdy g .mbox b).2 0 (.inr rfl)
  | qPendAbort e b => exact fitsAll_wakes g (osPendAbort_rdy g .q b).1 (osPendAbort_rdy g .q b).2 0 (.inr rfl)
  | timeDly ticks => exact fitsAll_delays g ticks hown
  | timeDlyResume p => exact fitsAll_onSuccess fun h => fitsAll_one (osTimeDlyResume_some h)
  | taskSuspend prio => exact fitsAll_onSuccess fun h => fitsAll_one (osTaskSuspend_some h)
  | taskResume p => exact fitsAll_onSuccess fun h => fitsAll_one (osTaskResume_some h)
  | taskDel prio => exact fitsAll_onSuccess fun h => fitsAll_one (osTaskDel_some h)
  | semAccept e | mboxAccept e | qAccept e | semSet e cnt | qFlush e | taskCreate p | schedLock | schedUnlock =>
    exact fitsAll_nil

theorem kernelStep_fits (g : KernelOk k) {a : Action E} (h : kernelStep k a = some (k', r)) :
    FitsAll k (a.evs k r) := by
  cases a with
  | call c =>
    simp only [kernelStep] at h
    split at h
    · case isTrue hg =>
      have hf := call_fits g c fun hn => Kernel.place_own (hg.2.2 hn).2
      rw [Option.some.inj h] at hf
      exact hf
    · cases h
  | pendReturn =>
    simp only [kernelStep] at h
    split at h
    · case h_1 t e hp =>
      obtain ⟨s, hs, ha⟩ := g.cur.awake
      obtain ⟨s', -, hs', he⟩ := g.inPend hp
      obtain rfl : s = s' := Option.some.inj (hs.symm.trans hs')
      exact fitsAll_one ⟨s, e, hs, ha, he⟩
    · cases h
  | tcbInit =>
    simp only [kernelStep] at h
    split at h
    · case h_1 t p hp =>
      simp only [Action.evs, hp]
      cases r with
      | none => exact fitsAll_nil
      | some ret =>
        obtain ⟨s, ht, -, hcr⟩ := g.inCreate hp
        have hres := g.tables.reserved k.osPrioCur p ((Kernel.creating_of_tcb ht).trans hcr)
        exact fitsAll_onSuccess fun _ => fitsAll_one (status_of_no_tcb (by simp [Kernel.tcb, hres]))
    · cases h
  | tickTask =>
    simp only [kernelStep] at h
    split at h
    · case h_1 level p ps htick =>
      simp only [Action.evs, htick]
      obtain ⟨-, -, -, -, hps⟩ := g.tick level (p :: ps) htick
      exact fitsAll_one (hps p List.mem_cons_self)
    · case h_2 level htick =>
      simp only [Action.evs, htick]
      exact fitsAll_nil
    · cases h
  | intEnter | intExit | timeTick => exact fitsAll_nil

/-! ## The run of one task -/

theorem task_step (g : KernelOk k) {a : Action E} (h : kernelStep k a = some (k', r)) (p : Prio) :
    Leads (k.status p) (Rec.evsOf p (k, a, r)) (k'.status p) := by
  have hst : k'.status p = (evsOf (a.evs k r) p).foldl (fun os ev => ev.apply os) (k.status p) := by
    rw [(kernelStep_goes g h).status, applyEvs_evsOf]
  have hev : Rec.evsOf p (k, a, r) = evsOf (a.evs k r) p := rfl
  rw [hst, hev]
  rcases kernelStep_fits g h p with hnil | ⟨ev, hone, hfit⟩
  · rw [hnil]
    rfl
  · rw [hone]
    exact ⟨hfit, rfl⟩

/-- Whatever runs in between, a task goes from status to status by the events of its word. -/
theorem task_run (g : KernelOk k) {l : List (Rec E)} (h : Trace kernelStep k l k') (p : Prio) :
    Leads (k.status p) (word p l) (k'.status p) := by
  induction h with
  | nil => rfl
  | snoc ht hs ih =>
    rw [word_append]
    refine ih.append ?_
    simpa [word] using task_step (trace_ok g ht) hs p

end

end GizwitsSdk
