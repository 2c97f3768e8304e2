import GizwitsSdk.OsInv

/-!
# Every step keeps the invariant

Each call has one lemma: the kernel after it is in order, and the status of each
task is what the events of the call make of it.
-/

namespace GizwitsSdk

open Lib

/-- The kernel is in order, and the tasks have gone through `evs`. -/
structure Goes {E : Type} (k k' : Kernel E) (evs : Evs E) : Prop where
  ok : KernelOk k'
  status : k'.status = applyEvs k.status evs

/-- What the tables say is the same. -/
structure SameTables {E : Type} (k k' : Kernel E) : Prop where
  rdy : k'.osRdy = k.osRdy
  slots : k'.osTcbPrioTbl = k.osTcbPrioTbl
  waits : k'.waits = k.waits
  typ : k'.typ = k.typ
  list : k'.osTcbList = k.osTcbList

section
variable {E : Type} {k k' : Kernel E}

namespace SameTables

theorem tcb (h : SameTables k k') : k'.tcb = k.tcb := by
  funext p
  rw [Kernel.tcb, Kernel.tcb, h.slots]

theorem status (h : SameTables k k') : k'.status = k.status := by
  funext p
  rw [Kernel.status, Kernel.status, h.tcb, h.typ]

theorem creating (h : SameTables k k') : k'.creating = k.creating := by
  funext p
  rw [Kernel.creating, Kernel.creating, h.tcb]

theorem shows (h : SameTables k k') {p : Prio} {os : Option (Status E)} (hs : k.Shows p os) : k'.Shows p os := by
  refine ⟨?_, ?_, fun e => ?_⟩
  · rw [h.tcb, h.typ]
    exact hs.tcb
  · rw [h.rdy]
    exact hs.rdy
  · rw [h.waits]
    exact hs.waits e

end SameTables

theorem TablesOk.same (h : TablesOk k) (st : SameTables k k') (hring : ∀ e, (k'.osEvent e).osQ.Wf)
    (hnobody : ∀ e, (k'.osEvent e).contents ≠ [] → ∀ p, p ∉ k.waits e) : TablesOk k' where
  rdyWf := st.rdy ▸ h.rdyWf
  waitsWf e := st.waits ▸ h.waitsWf e
  shows p := st.status ▸ st.shows (h.shows p)
  ring := hring
  nobody e hc p := st.waits ▸ hnobody e hc p
  idle := st.status ▸ h.idle
  reserved q p hq := st.slots ▸ h.reserved q p (st.creating ▸ hq)
  creatingInj q q' p hq hq' := h.creatingInj q q' p (st.creating ▸ hq) (st.creating ▸ hq')
  nodup := st.list ▸ h.nodup
  mem_list p := by rw [st.list, st.status, h.mem_list]
  last := st.list ▸ h.last

theorem TablesOk.sameEvents (h : TablesOk k) (st : SameTables k k') (he : k'.osEvent = k.osEvent) : TablesOk k' :=
  h.same st (fun e => he ▸ h.ring e) fun e hc => h.nobody e (by rwa [he] at hc)

theorem CurBase.same (h : CurBase k) (st : SameTables k k') (hc : k'.osPrioCur = k.osPrioCur)
    (hl : 0 < k'.osLockNesting → 0 < k.osLockNesting) : CurBase k' := by
  refine ⟨?_, fun hlock s hs => ?_⟩
  · rw [hc, st.status]
    exact h.awake
  · rw [hc, st.status] at hs
    exact h.locked (hl hlock) s hs

theorem TickOk.same (h : TickOk k) (st : SameTables k k') (ht : k'.tick = k.tick)
    (hn : k.osIntNesting ≤ k'.osIntNesting) : TickOk k' := by
  intro level ps htick
  rw [ht] at htick
  obtain ⟨h0, hle, hnd, hi, hps⟩ := h level ps htick
  exact ⟨h0, hle.trans hn, hnd, hi, fun p hp => st.status ▸ hps p hp⟩

/-! ## The scheduler -/

theorem osSched_same (k : Kernel E) : SameTables k (osSched k) := by
  unfold osSched
  split <;> exact ⟨rfl, rfl, rfl, rfl, rfl⟩

theorem osSched_rest (k : Kernel E) :
    (osSched k).osEvent = k.osEvent ∧ (osSched k).tick = k.tick ∧ (osSched k).osIntNesting = k.osIntNesting ∧
      (osSched k).osLockNesting = k.osLockNesting ∧ (osSched k).osTime = k.osTime := by
  unfold osSched
  split <;> exact ⟨rfl, rfl, rfl, rfl, rfl⟩

/-- The idle task is always there to run. -/
theorem TablesOk.idle_ready (h : TablesOk k) : osTaskIdlePrio ∈ k.osRdy :=
  (h.shows_some h.idle).rdy.mpr rfl

/-- `OSPrioHighRdy` is the first of the tasks that can run. -/
theorem TablesOk.schedNew_least (h : TablesOk k) :
    (∃ s, k.status (osSchedNew k) = some s ∧ s.runnable = true) ∧
      ∀ q s, k.status q = some s → s.runnable = true → osSchedNew k ≤ q := by
  have hmem : osSchedNew k ∈ k.osRdy := h.rdyWf.highest_mem osUnMap_isLowest h.idle_ready
  refine ⟨?_, fun q s hs hr => ?_⟩
  · have hany := (h.shows _).rdy.mp hmem
    rwa [Option.any_eq_true] at hany
  · exact h.rdyWf.highest_le osUnMap_isLowest ((h.shows_some hs).rdy.mpr hr)

theorem CurOk.sched (h : TablesOk k) (hb : ¬(k.osIntNesting = 0 ∧ k.osLockNesting = 0) → CurBase k) :
    CurOk (osSched k) := by
  by_cases hn : k.osIntNesting = 0 ∧ k.osLockNesting = 0
  · have hk : osSched k = { k with osPrioCur := osSchedNew k } := if_pos hn
    obtain ⟨s, hs, hr⟩ := h.schedNew_least.1
    rw [hk]
    refine { awake := ⟨s, hs, ?_⟩, locked := fun hl => absurd hl (by simp [hn.2]), high := fun _ _ => rfl }
    exact (Bool.and_eq_true_iff.mp hr).1
  · have hk : osSched k = k := if_neg hn
    rw [hk]
    exact { toCurBase := hb hn, high := fun h1 h2 => absurd ⟨h1, h2⟩ hn }

theorem Goes.sched {k₁ : Kernel E} {evs : Evs E} (h : TablesOk k₁) (ht : TickOk k₁)
    (hb : ¬(k₁.osIntNesting = 0 ∧ k₁.osLockNesting = 0) → CurBase k₁)
    (hst : k₁.status = applyEvs k.status evs) : Goes k (osSched k₁) evs := by
  obtain ⟨he, htick, hn, -⟩ := osSched_rest k₁
  have st := osSched_same k₁
  exact ⟨⟨h.sameEvents st he, CurOk.sched h hb, ht.same st htick hn.ge⟩, st.status.trans hst⟩

/-- A step that touches no table. -/
theorem Goes.same (g : KernelOk k) (st : SameTables k k') (he : k'.osEvent = k.osEvent) (hc : CurOk k')
    (ht : TickOk k') : Goes k k' [] :=
  ⟨⟨g.tables.sameEvents st he, hc, ht⟩, st.status⟩

theorem Goes.refl (g : KernelOk k) : Goes k k [] := ⟨g, rfl⟩

/-- Nobody can run that could not run before, and the task that runs still can. -/
theorem CurOk.fewer (h : TablesOk k) (h' : TablesOk k') (hc : CurOk k) (hb : CurBase k') (hs : Still k k')
    (hr : k.osIntNesting = 0 → k.osLockNesting = 0 → k.osPrioCur ∈ k'.osRdy)
    (hsub : ∀ q, q ∈ k'.osRdy → q ∈ k.osRdy) : CurOk k' := by
  refine { toCurBase := hb, high := fun hn hl => ?_ }
  rw [hs.intNesting] at hn
  rw [hs.lockNesting] at hl
  have hcur := hc.high hn hl
  rw [hs.cur]
  symm
  refine h'.rdyWf.highest_eq osUnMap_isLowest (hr hn hl) fun q hq => ?_
  rw [hcur]
  exact h.rdyWf.highest_le osUnMap_isLowest (hsub q hq)

/-- Some tasks have moved on; the processor has not gone to another yet. -/
structure Moved (k k' : Kernel E) (evs : Evs E) : Prop where
  tables : TablesOk k'
  base : CurBase k'
  tick : TickOk k'
  still : Still k k'
  typ : k'.typ = k.typ
  status : k'.status = applyEvs k.status evs

theorem Moved.goes {evs : Evs E} (h : Moved k k' evs) : Goes k (osSched k') evs :=
  Goes.sched h.tables h.tick (fun _ => h.base) h.status

theorem CurOk.runnable (h : TablesOk k) (hc : CurOk k) (hn : k.osIntNesting = 0) (hl : k.osLockNesting = 0) :
    ∃ s, k.status k.osPrioCur = some s ∧ s.runnable = true := by
  rw [hc.high hn hl]
  exact h.schedNew_least.1

end

section
variable {E : Type} [DecidableEq E] {k : Kernel E} {e : E} {pmsg : Ptr}

/-! ## Events -/

theorem setEvent_same {ev : OsEvent} (hr : OsEvent.Refills (k.osEvent e) ev) : SameTables k (k.setEvent e ev) := by
  refine ⟨rfl, rfl, ?_, ?_, rfl⟩
  · funext e'
    by_cases h : e' = e
    · subst h
      simp only [Kernel.waits, Kernel.setEvent, Function.update_self, hr.tbl]
    · simp only [Kernel.waits, Kernel.setEvent, Function.update_of_ne h]
  · funext e'
    by_cases h : e' = e
    · subst h
      simp only [Kernel.typ, Kernel.setEvent, Function.update_self, hr.typ]
    · simp only [Kernel.typ, Kernel.setEvent, Function.update_of_ne h]

/-- The contents of one event change; they are there only while nobody waits. -/
theorem Goes.setEvent (g : KernelOk k) {ev : OsEvent} (hr : OsEvent.Refills (k.osEvent e) ev)
    (hc : ev.contents ≠ [] → ∀ p, p ∉ k.waits e) : Goes k (k.setEvent e ev) [] := by
  have st := setEvent_same hr
  have htab : TablesOk (k.setEvent e ev) := by
    refine g.tables.same st (fun e' => ?_) fun e' he' => ?_
    · by_cases h : e' = e
      · subst h
        simpa [Kernel.setEvent] using hr.ring
      · simpa [Kernel.setEvent, h] using g.tables.ring e'
    · by_cases h : e' = e
      · subst h
        simp only [Kernel.setEvent, Function.update_self] at he'
        exact hc he'
      · simp only [Kernel.setEvent, Function.update_of_ne h] at he'
        exact g.tables.nobody e' he'
  refine ⟨⟨htab, ?_, g.tick.same st rfl le_rfl⟩, st.status⟩
  exact { toCurBase := g.cur.toCurBase.same st rfl id, high := g.cur.high }

theorem Goes.take (g : KernelOk k) {typ : EventType} {ev : OsEvent} (ht : (k.osEvent e).osEventType = typ)
    (htake : (k.osEvent e).take typ = some (pmsg, ev)) : Goes k (k.setEvent e ev) [] := by
  obtain ⟨hcons, hr⟩ := OsEvent.take_eq_some (g.tables.ring e) ht htake
  refine Goes.setEvent g hr fun _ => g.tables.nobody e ?_
  rw [hcons]
  exact List.cons_ne_nil _ _

theorem osAccept_goes (g : KernelOk k) (typ : EventType) : Goes k (osAccept typ k e).1 [] := by
  unfold osAccept
  split
  · exact Goes.refl g
  · case isFalse ht =>
    split
    · exact Goes.refl g
    · case h_2 htake => exact Goes.take g (not_not.mp ht) htake

/-! ## Posts and aborts -/

/-- `OS_EventTaskRdy` finds the first of the tasks that wait. -/
theorem osEventTaskRdy_spec (h : TablesOk k) (hg : (k.waits e).grp ≠ 0) {ps : StatPend} (hps : ps.Wakes)
    (pmsg : Ptr) :
    ∃ p s, (osEventTaskRdy k e pmsg (k.typ e).stat ps).2 = p ∧
      k.status p = some s ∧ s.phase.waitsFor = some e ∧
      (∀ q s', k.status q = some s' → s'.phase.waitsFor = some e → p ≤ q) ∧
      MovesTo k (osEventTaskRdy k e pmsg (k.typ e).stat ps).1 p (some ⟨ps.phase e pmsg, s.suspended⟩) := by
  obtain ⟨q, hq⟩ := (h.waitsWf e).grp_ne_zero.mp hg
  have hmem := (h.waitsWf e).highest_mem osUnMap_isLowest hq
  obtain ⟨s, hs, hw⟩ := ((h.shows _).waits e).mp hmem
  have hshow := h.shows_some hs
  obtain ⟨t, ht, -⟩ := hshow.tcb_some
  have heq := osEventTaskRdy_eq ht rfl pmsg (k.typ e).stat ps
  refine ⟨(k.waits e).highest osUnMap, s, by rw [heq], hs, hw, fun q s' hs' hw' => ?_, ?_⟩
  · exact (h.waitsWf e).highest_le osUnMap_isLowest (((h.shows_some hs').waits_iff e).mpr hw')
  · rw [heq]
    exact movesTo_wake hshow ht hw pmsg hps

/-- The wait list without the task that has been found. -/
theorem osEventTaskRdy_waits (h : TablesOk k) (hg : (k.waits e).grp ≠ 0) (pmsg : Ptr) (msk : BitVec 8)
    (ps : StatPend) :
    (osEventTaskRdy k e pmsg msk ps).2 = (k.waits e).highest osUnMap ∧
      (osEventTaskRdy k e pmsg msk ps).1.waits e = (k.waits e).remove ((k.waits e).highest osUnMap) := by
  obtain ⟨q, hq⟩ := (h.waitsWf e).grp_ne_zero.mp hg
  obtain ⟨s, hs, -⟩ := ((h.shows _).waits e).mp ((h.waitsWf e).highest_mem osUnMap_isLowest hq)
  obtain ⟨t, ht, -⟩ := (h.shows_some hs).tcb_some
  rw [osEventTaskRdy_eq ht rfl]
  refine ⟨rfl, ?_⟩
  rw [osEventTaskRemove, Kernel.waits_setWaits, if_pos rfl, waits_readyUnlessSuspended]

theorem osEventTaskRdy_moved (h : TablesOk k) (hb : CurBase k) (ht : TickOk k) (hg : (k.waits e).grp ≠ 0)
    {ps : StatPend} (hps : ps.Wakes) (pmsg : Ptr) :
    Moved k (osEventTaskRdy k e pmsg (k.typ e).stat ps).1
      [((osEventTaskRdy k e pmsg (k.typ e).stat ps).2, .wake e pmsg ps)] := by
  obtain ⟨p, s, hp, hs, hw, -, hm⟩ := osEventTaskRdy_spec h hg hps pmsg
  have hne : s ≠ ⟨.own, false⟩ := by
    rintro rfl
    cases hw
  obtain ⟨haw, hno⟩ := Phase.wake_awake hps e pmsg
  rw [hp]
  refine ⟨?_, ?_, TickOk.movesTo h ht hm, hm.still, hm.moves.typ_eq, ?_⟩
  · refine h.movesTo hs hm (fun hi => absurd hi (h.ne_idle hs hne)) fun e' he' => ?_
    rw [hno] at he'
    cases he'
  · refine hb.movesTo h hs hm (fun _ => haw) fun ho => ?_
    rw [ho] at hw
    cases hw
  · rw [hm.status_eq h, applyEvs, List.foldl_cons, List.foldl_nil, hs]
    rfl

theorem osEventTasksRdy_moved {ps : StatPend} (hps : ps.Wakes) (pmsg : Ptr) (typ : EventType) (n : Nat) :
    ∀ {k : Kernel E}, TablesOk k → CurBase k → TickOk k → k.typ e = typ →
      Moved k (osEventTasksRdy e pmsg typ.stat ps n k).1
        ((osEventTasksRdy e pmsg typ.stat ps n k).2.map fun p => (p, .wake e pmsg ps)) := by
  induction n with
  | zero => exact fun h hb ht _ => ⟨h, hb, ht, Still.refl _, rfl, rfl⟩
  | succ n ih =>
    intro k h hb ht hty
    unfold osEventTasksRdy
    split
    · exact ⟨h, hb, ht, Still.refl _, rfl, rfl⟩
    · case isFalse hg =>
      have h1 := osEventTaskRdy_moved h hb ht hg hps pmsg
      rw [hty] at h1
      have h2 := ih h1.tables h1.base h1.tick (by rw [h1.typ, hty])
      refine ⟨h2.tables, h2.base, h2.tick, h1.still.trans h2.still, h2.typ.trans h1.typ, ?_⟩
      rw [h2.status, h1.status, ← applyEvs_append]
      rfl

/-- The events of a call that has woken tasks. -/
def wakes (e : E) (pmsg : Ptr) (ps : StatPend) (r : Ret) : Evs E := r.rdy.map fun p => (p, .wake e pmsg ps)

theorem osPost_goes (g : KernelOk k) {typ : EventType} {full : KernelErr} {put : OsEvent → Option OsEvent}
    (hput : ∀ ev ev', ev.osQ.Wf → ev.osEventType = typ → put ev = some ev' → OsEvent.Refills ev ev') :
    Goes k (osPost typ full put k e pmsg).1 (wakes e pmsg .ok (osPost typ full put k e pmsg).2) := by
  unfold osPost
  split
  · exact Goes.refl g
  · case isFalse hty =>
    have hty := not_not.mp hty
    split
    · case isTrue hg =>
      have h := osEventTaskRdy_moved g.tables g.cur.toCurBase g.tick hg (.inl rfl) pmsg
      have htyp : k.typ e = typ := hty
      rw [htyp] at h
      exact h.goes
    · case isFalse hg =>
      split
      · exact Goes.refl g
      · case h_2 ev hev =>
        refine Goes.setEvent g (hput _ _ (g.tables.ring e) hty hev) fun _ => ?_
        exact (g.tables.waitsWf e).grp_eq_zero.mp (not_not.mp hg)

theorem osPendAbort_goes (g : KernelOk k) (typ : EventType) (broadcast : Bool) :
    Goes k (osPendAbort typ k e broadcast).1 (wakes e 0 .abort (osPendAbort typ k e broadcast).2) := by
  unfold osPendAbort
  split
  · exact Goes.refl g
  · case isFalse hty =>
    split
    · exact (osEventTasksRdy_moved (.inr rfl) 0 typ _ g.tables g.cur.toCurBase g.tick (not_not.mp hty)).goes
    · exact Goes.refl g

end

end GizwitsSdk
