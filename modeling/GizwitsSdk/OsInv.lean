import GizwitsSdk.OsMoves

/-!
# The invariant of the kernel

The ready table holds the tasks that can run, and each wait list the tasks that
wait. A task that waits finds nothing in its event. Outside of interrupts, and
with the scheduler unlocked, the processor is where the ready table says.
-/

namespace GizwitsSdk

open Lib

/-! ## The contents of an event -/

namespace OsEvent

/-- The messages that are there to be taken, first one first. A semaphore holds
as many null pointers as it counts. -/
def contents (ev : OsEvent) : List Ptr :=
  match ev.osEventType with
  | .sem => List.replicate ev.osEventCnt 0
  | .mbox => if ev.osEventPtr = 0 then [] else [ev.osEventPtr]
  | .q => ev.osQ.contents

/-- Only the contents change. -/
structure Refills (ev ev' : OsEvent) : Prop where
  typ : ev'.osEventType = ev.osEventType
  tbl : ev'.osEventTbl = ev.osEventTbl
  ring : ev'.osQ.Wf

variable {ev ev' : OsEvent} {typ : EventType} {pmsg : Ptr}

theorem contents_held (h : ev'.held = ev.held) : ev'.contents = ev.contents := by
  have hc : ev'.held.contents = ev.held.contents := congrArg contents h
  exact hc

theorem take_eq_none (ht : ev.osEventType = typ) : ev.take typ = none ↔ ev.contents = [] := by
  subst ht
  unfold contents
  cases h : ev.osEventType with
  | sem => simp [take]
  | mbox =>
    by_cases hp : ev.osEventPtr = 0 <;> simp [take, hp]
  | q =>
    simp only [take, RingBuffer.contents_eq_nil]
    by_cases hn : 0 < ev.osQ.entries
    · simp [hn, hn.ne']
    · simp [Nat.eq_zero_of_not_pos hn]

theorem take_eq_some (hq : ev.osQ.Wf) (ht : ev.osEventType = typ) (h : ev.take typ = some (pmsg, ev')) :
    ev.contents = pmsg :: ev'.contents ∧ Refills ev ev' := by
  subst ht
  unfold contents
  cases hty : ev.osEventType with
  | sem =>
    simp only [take, hty] at h
    split at h
    · case isTrue hpos =>
      obtain ⟨rfl, rfl⟩ := Prod.mk.inj (Option.some.inj h)
      refine ⟨?_, hty.symm, rfl, hq⟩
      have hcnt : ev.osEventCnt = ev.osEventCnt - 1 + 1 := (Nat.sub_add_cancel hpos).symm
      exact (congrArg (List.replicate · 0) hcnt).trans List.replicate_succ
    · exact nomatch h
  | mbox =>
    simp only [take, hty] at h
    split at h
    · case isTrue hp =>
      obtain ⟨rfl, rfl⟩ := Prod.mk.inj (Option.some.inj h)
      refine ⟨?_, hty.symm, rfl, hq⟩
      simp [hp]
    · exact nomatch h
  | q =>
    simp only [take, hty] at h
    split at h
    · case isTrue hpos =>
      obtain ⟨rfl, rfl⟩ := Prod.mk.inj (Option.some.inj h)
      refine ⟨?_, hty.symm, rfl, hq.pop hpos⟩
      exact RingBuffer.contents_pop hq hpos
    · exact nomatch h

theorem semPut_eq_some (hq : ev.osQ.Wf) (ht : ev.osEventType = .sem) (h : ev.semPut = some ev') :
    ev'.contents = ev.contents ++ [0] ∧ Refills ev ev' := by
  unfold semPut at h
  split at h
  · obtain rfl := Option.some.inj h
    refine ⟨?_, rfl, rfl, hq⟩
    simp only [contents, ht]
    exact List.replicate_succ'
  · exact nomatch h

/-- A null pointer is no message of a mailbox. -/
theorem mboxPut_eq_some (hq : ev.osQ.Wf) (ht : ev.osEventType = .mbox) (h : ev.mboxPut pmsg = some ev') :
    ev'.contents = ev.contents ++ (if pmsg = 0 then [] else [pmsg]) ∧ Refills ev ev' := by
  unfold mboxPut at h
  split at h
  · exact nomatch h
  · case isFalse hp =>
    obtain rfl := Option.some.inj h
    refine ⟨?_, rfl, rfl, hq⟩
    simp only [contents, ht, not_not.mp hp, if_true, List.nil_append]

theorem qPut_eq_some (hq : ev.osQ.Wf) (ht : ev.osEventType = .q) (h : ev.qPut pmsg = some ev') :
    ev'.contents = ev.contents ++ [pmsg] ∧ Refills ev ev' := by
  unfold qPut at h
  split at h
  · exact nomatch h
  · case isFalse hn =>
    obtain rfl := Option.some.inj h
    have hn' := Nat.lt_of_not_le hn
    refine ⟨?_, rfl, rfl, hq.push hn' pmsg⟩
    simp only [contents, ht]
    exact RingBuffer.contents_push hq hn'

theorem qPutFront_eq_some (hq : ev.osQ.Wf) (ht : ev.osEventType = .q) (h : ev.qPutFront pmsg = some ev') :
    ev'.contents = pmsg :: ev.contents ∧ Refills ev ev' := by
  unfold qPutFront at h
  split at h
  · exact nomatch h
  · case isFalse hn =>
    obtain rfl := Option.some.inj h
    have hn' := Nat.lt_of_not_le hn
    refine ⟨?_, rfl, rfl, hq.pushFront hn' pmsg⟩
    simp only [contents, ht]
    exact RingBuffer.contents_pushFront hq hn'

end OsEvent

/-! ## The invariant -/

section
variable {E : Type}

structure SlotsOk (k : Kernel E) : Prop where
  reserved : ∀ q p, k.creating q = some p → k.osTcbPrioTbl p = .reserved
  creatingInj : ∀ q q' p, k.creating q = some p → k.creating q' = some p → q = q'
  nodup : k.osTcbList.Nodup
  mem_list : ∀ p, p ∈ k.osTcbList ↔ (k.status p).isSome = true
  last : ∃ l, k.osTcbList = l ++ [osTaskIdlePrio]

structure TablesOk (k : Kernel E) : Prop extends SlotsOk k where
  rdyWf : k.osRdy.Wf
  waitsWf : ∀ e, (k.waits e).Wf
  shows : ∀ p, k.Shows p (k.status p)
  ring : ∀ e, (k.osEvent e).osQ.Wf
  nobody : ∀ e, (k.osEvent e).contents ≠ [] → ∀ p, p ∉ k.waits e
  idle : k.status osTaskIdlePrio = some ⟨.own, false⟩

/-- The task that runs does not wait, and not in the middle of a pend under the lock. -/
structure CurBase (k : Kernel E) : Prop where
  awake : ∃ s, k.status k.osPrioCur = some s ∧ s.phase.awake = true
  locked : 0 < k.osLockNesting → ∀ s, k.status k.osPrioCur = some s → s.phase = .own

structure CurOk (k : Kernel E) : Prop extends CurBase k where
  high : k.osIntNesting = 0 → k.osLockNesting = 0 → k.osPrioCur = osSchedNew k

/-- A tick on its way is that of an interrupt that has not gone off yet. -/
def TickOk (k : Kernel E) : Prop :=
  ∀ level ps, k.tick = some (level, ps) →
    0 < level ∧ level ≤ k.osIntNesting ∧ ps.Nodup ∧ osTaskIdlePrio ∉ ps ∧
      ∀ p ∈ ps, (k.status p).isSome = true

structure KernelOk (k : Kernel E) : Prop where
  tables : TablesOk k
  cur : CurOk k
  tick : TickOk k

/-! ## What happens to a task -/

inductive Ev (E : Type)
  | wake (e : E) (pmsg : Ptr) (pendStat : StatPend)
  | tick
  | expire
  | suspend
  | resume
  | block (e : E) (timeout : Nat)
  | delay (ticks : Nat)
  | ret
  | create
  | delete

def Ev.apply : Ev E → Option (Status E) → Option (Status E)
  | wake e pmsg ps, os => os.map fun s => { s with phase := ps.phase e pmsg }
  | tick, os => os.map fun s => { s with phase := s.phase.tick }
  | expire, os => os.map fun s => { s with phase := s.phase.expire }
  | suspend, os => os.map fun s => { s with suspended := true }
  | resume, os => os.map fun s => { s with suspended := false }
  | block e n, os => os.map fun s => { s with phase := .waiting e n }
  | delay n, os => os.map fun s => { s with phase := .delayed n }
  | ret, os => os.map fun _ => ⟨.own, false⟩
  | create, _ => some ⟨.own, false⟩
  | delete, _ => none

abbrev Evs (E : Type) := List (Prio × Ev E)

def applyEvs (σ : Prio → Option (Status E)) (evs : Evs E) : Prio → Option (Status E) :=
  evs.foldl (fun σ pe => Function.update σ pe.1 (pe.2.apply (σ pe.1))) σ

theorem applyEvs_append (σ : Prio → Option (Status E)) (a b : Evs E) :
    applyEvs σ (a ++ b) = applyEvs (applyEvs σ a) b := List.foldl_append

/-- What the events make of one task. -/
theorem applyEvs_apply (σ : Prio → Option (Status E)) (evs : Evs E) (p : Prio) :
    applyEvs σ evs p = (evs.filter (·.1 = p)).foldl (fun os pe => pe.2.apply os) (σ p) := by
  induction evs generalizing σ with
  | nil => rfl
  | cons pe evs ih =>
    have hstep : applyEvs σ (pe :: evs) = applyEvs (Function.update σ pe.1 (pe.2.apply (σ pe.1))) evs := rfl
    rw [hstep, ih]
    by_cases hp : pe.1 = p
    · subst hp
      rw [Function.update_self, List.filter_cons_of_pos (by simp), List.foldl_cons]
    · rw [Function.update_of_ne (Ne.symm hp), List.filter_cons_of_neg (by simpa using hp)]

/-! ## One task moves -/

variable {k k' : Kernel E} {p : Prio} {s s' : Status E}

theorem TablesOk.shows_some (h : TablesOk k) (hs : k.status p = some s) : k.Shows p (some s) := hs ▸ h.shows p

theorem TablesOk.ne_idle (h : TablesOk k) (hs : k.status p = some s) (hne : s ≠ ⟨.own, false⟩) :
    p ≠ osTaskIdlePrio := by
  intro hp
  subst hp
  exact hne (Option.some.inj (hs.symm.trans h.idle))

theorem slot_of_status (hs : k.status p = some s) : ∃ t, k.osTcbPrioTbl p = .tcb t ∧ k.tcb p = some t := by
  cases hslot : k.osTcbPrioTbl p with
  | tcb t => exact ⟨t, rfl, by simp [Kernel.tcb, hslot]⟩
  | null | reserved => simp [Kernel.status, Kernel.tcb, hslot] at hs

theorem Moves.status_eq {os : Option (Status E)} (hm : Moves k k' p) (h : TablesOk k) (hs : k'.Shows p os) :
    k'.status = Function.update k.status p os := by
  funext q
  by_cases hq : q = p
  · subst hq
    rw [Function.update_self]
    exact hs.status_eq
  · rw [Function.update_of_ne hq]
    exact (hm.shows_other hq (h.shows q)).status_eq

theorem MovesTo.status_eq {os : Option (Status E)} (h : TablesOk k) (hm : MovesTo k k' p os) :
    k'.status = Function.update k.status p os := hm.moves.status_eq h hm.shows

theorem TablesOk.moves {os : Option (Status E)} (h : TablesOk k) (hm : Moves k k' p) (hs : k'.Shows p os)
    (hi : p = osTaskIdlePrio → os = some ⟨.own, false⟩)
    (hw : ∀ e, p ∈ k'.waits e → p ∈ k.waits e ∨ (k.osEvent e).contents = []) (hslots : SlotsOk k') :
    TablesOk k' := by
  have hst := hm.status_eq h hs
  have hother {q : Prio} (hq : q ≠ p) : k'.status q = k.status q := by rw [hst, Function.update_of_ne hq]
  refine {
    rdyWf := hm.rdyWf h.rdyWf
    waitsWf := fun e => hm.waitsWf e (h.waitsWf e)
    shows := fun q => ?_
    ring := fun e => ?_
    nobody := fun e hc q hq => ?_
    idle := ?_
    toSlotsOk := hslots }
  · by_cases hq : q = p
    · subst hq
      rw [hs.status_eq]
      exact hs
    · rw [hother hq]
      exact hm.shows_other hq (h.shows q)
  · have hq : (k'.osEvent e).held.osQ = (k.osEvent e).held.osQ := congrArg _ (hm.held e)
    exact hq ▸ h.ring e
  · rw [OsEvent.contents_held (hm.held e)] at hc
    by_cases hqp : q = p
    · subst hqp
      rcases hw e hq with hw | hw
      · exact h.nobody e hc q hw
      · exact hc hw
    · exact h.nobody e hc q ((hm.waits e q hqp).mp hq)
  · by_cases hp : osTaskIdlePrio = p
    · rw [hp, hs.status_eq]
      exact hi hp.symm
    · exact (hother hp).trans h.idle

theorem TablesOk.movesTo (h : TablesOk k) (hs : k.status p = some s) (hm : MovesTo k k' p (some s'))
    (hi : p = osTaskIdlePrio → s' = ⟨.own, false⟩)
    (hw : ∀ e, s'.phase.waitsFor = some e → s.phase.waitsFor = some e ∨ (k.osEvent e).contents = []) :
    TablesOk k' := by
  have hst := hm.status_eq h
  have hcr {q c : Prio} (hc : k'.creating q = some c) : k.creating q = some c := by
    by_cases hq : q = p
    · subst hq
      exact hm.creating c hc
    · rwa [hm.moves.creating_eq hq] at hc
  refine h.moves hm.moves hm.shows (fun hp => congrArg some (hi hp)) (fun e he => ?_) {
    reserved := fun q c hc => ?_
    creatingInj := fun q q' c hc hc' => h.creatingInj q q' c (hcr hc) (hcr hc')
    nodup := hm.still.list ▸ h.nodup
    mem_list := fun q => ?_
    last := hm.still.list ▸ h.last }
  · rcases hw e ((hm.shows.waits_iff e).mp he) with hw | hw
    · exact Or.inl (((h.shows_some hs).waits_iff e).mpr hw)
    · exact Or.inr hw
  · have hres := h.reserved q c (hcr hc)
    have hcp : c ≠ p := by
      intro hcp
      obtain ⟨t, ht, -⟩ := slot_of_status hs
      rw [hcp, ht] at hres
      cases hres
    rw [hm.moves.slot c hcp]
    exact hres
  · rw [hm.still.list, h.mem_list, hst]
    by_cases hq : q = p
    · subst hq
      rw [Function.update_self, hs]
      exact Iff.rfl
    · rw [Function.update_of_ne hq]

theorem TickOk.movesTo (h : TablesOk k) (ht : TickOk k) (hm : MovesTo k k' p (some s')) : TickOk k' := by
  intro level ps htick
  rw [hm.still.tick] at htick
  obtain ⟨hl, hle, hn, hi, hps⟩ := ht level ps htick
  refine ⟨hl, hm.still.intNesting ▸ hle, hn, hi, fun q hq => ?_⟩
  rw [hm.status_eq h]
  by_cases hqp : q = p
  · subst hqp
    rw [Function.update_self]
    rfl
  · rw [Function.update_of_ne hqp]
    exact hps q hq

/-- The task that runs is another, or moves on to something that can run. -/
theorem CurBase.movesTo (h : TablesOk k) (hc : CurBase k) (hs : k.status p = some s) (hm : MovesTo k k' p (some s'))
    (ha : s.phase.awake = true → s'.phase.awake = true) (ho : s.phase = .own → s'.phase = .own) : CurBase k' := by
  have hst := hm.status_eq h
  obtain ⟨s₀, hs₀, ha₀⟩ := hc.awake
  rw [← hm.still.cur] at hs₀
  by_cases hp : k'.osPrioCur = p
  · rw [hp] at hs₀
    obtain rfl : s₀ = s := Option.some.inj (hs₀.symm.trans hs)
    have hself : k'.status k'.osPrioCur = some s' := by rw [hp, hst, Function.update_self]
    refine ⟨⟨s', hself, ha ha₀⟩, fun hl s₁ hs₁ => ?_⟩
    obtain rfl : s₁ = s' := Option.some.inj (hs₁.symm.trans hself)
    rw [hm.still.lockNesting] at hl
    refine ho (hc.locked hl s₀ ?_)
    rw [← hm.still.cur, hp]
    exact hs₀
  · have hother : k'.status k'.osPrioCur = k.status k'.osPrioCur := by rw [hst, Function.update_of_ne hp]
    refine ⟨⟨s₀, hother.trans hs₀, ha₀⟩, fun hl s₁ hs₁ => ?_⟩
    rw [hm.still.lockNesting] at hl
    rw [hother, hm.still.cur] at hs₁
    exact hc.locked hl s₁ hs₁

end

end GizwitsSdk
