import GizwitsSdk.Lib.Trace
import GizwitsSdk.OsTaskSteps
import Mathlib.Data.List.TakeWhile

/-!
# The kernel in any order of steps

Tasks come and go, interrupts nest, ticks are cut short by other interrupts.
Whatever the order, the kernel stays in order.
-/

namespace GizwitsSdk

open Lib

section
variable {E : Type} {k k' : Kernel E} {p : Prio} {t : Tcb E}

/-! ## New tasks -/

theorem status_setCreating (ht : k.tcb p = some t) (c : Option Prio) :
    (k.setTcb p { t with creating := c }).status = k.status := by
  funext q
  by_cases hq : q = p
  · subst hq
    simp [Kernel.status, ht, Tcb.status]
  · have hm := k.moves_setTcb p { t with creating := c }
    rw [Kernel.status, Kernel.status, hm.tcb_eq hq, hm.typ_eq]

theorem shows_setCreating (h : TablesOk k) (ht : k.tcb p = some t) (c : Option Prio) :
    (k.setTcb p { t with creating := c }).Shows p (k.status p) := by
  obtain ⟨s, hs⟩ : ∃ s, k.status p = some s := by simp [Kernel.status, ht]
  have hshow := h.shows_some hs
  rw [hs]
  exact ⟨⟨_, k.tcb_setTcb p _, (hshow.is ht).setCreating c⟩, hshow.rdy, hshow.waits⟩

theorem creating_setTcb (k : Kernel E) (p q : Prio) (t : Tcb E) :
    (k.setTcb p t).creating q = if q = p then t.creating else k.creating q := by
  split
  · case isTrue h =>
    subst h
    exact Kernel.creating_of_tcb (k.tcb_setTcb q t)
  · case isFalse h => exact (k.moves_setTcb p t).creating_eq h

/-- A priority for which there is no task is not in any table. -/
theorem shows_setSlot_none (h : TablesOk k) (hp : k.status p = none) {s : Slot E}
    (hs : (k.setSlot p s).tcb p = none) : (k.setSlot p s).Shows p none := by
  have hshow := hp ▸ h.shows p
  exact ⟨hs, hshow.rdy, hshow.waits⟩

theorem tcb_setSlot (k : Kernel E) (p : Prio) (s : Slot E) :
    (k.setSlot p s).tcb p = match s with | .tcb t => some t | _ => none := by
  cases s <;> simp [Kernel.tcb, Kernel.setSlot]

theorem status_of_no_tcb (h : k.tcb p = none) : k.status p = none := by simp [Kernel.status, h]

/-- A slot without a task may be reserved, and given up. -/
theorem TablesOk.setSlot_none (h : TablesOk k) (hp : k.tcb p = none) {s : Slot E}
    (hs : (k.setSlot p s).tcb p = none) (hres : s = .reserved ∨ ∀ q, k.creating q ≠ some p) :
    TablesOk (k.setSlot p s) ∧ (k.setSlot p s).status = k.status := by
  have hnone := status_of_no_tcb hp
  have hshow := shows_setSlot_none h hnone hs
  have hm := k.moves_setSlot p s
  have hi : p ≠ osTaskIdlePrio := by
    rintro rfl
    rw [h.idle] at hnone
    cases hnone
  have hst : (k.setSlot p s).status = k.status := by
    rw [hm.status_eq h hshow, ← hnone, Function.update_eq_self]
  have hcr : (k.setSlot p s).creating = k.creating := by
    funext q
    by_cases hq : q = p
    · subst hq
      simp only [Kernel.creating, hs, hp]
    · exact hm.creating_eq hq
  refine ⟨h.moves hm hshow (absurd · hi) (fun _ he => Or.inl he) {
    reserved := fun q c hc => ?_
    creatingInj := fun q q' c hc hc' => h.creatingInj q q' c (hcr ▸ hc) (hcr ▸ hc')
    nodup := h.nodup
    mem_list := fun q => hst ▸ h.mem_list q
    last := h.last }, hst⟩
  rw [hcr] at hc
  by_cases hcp : c = p
  · subst hcp
    rcases hres with rfl | hres
    · exact Function.update_self ..
    · exact absurd hc (hres q)
  · rw [hm.slot c hcp]
    exact h.reserved q c hc

theorem osTaskCreate_goes (g : KernelOk k)
    (hown : k.osIntNesting = 0 → k.osPrioCur ≠ osTaskIdlePrio ∧ k.place = some .own) :
    Goes k (osTaskCreate k p).1 [] := by
  unfold osTaskCreate
  split
  · exact Goes.refl g
  · case isFalse hn =>
    have hn := Nat.eq_zero_of_not_pos hn
    obtain ⟨hi, hplace⟩ := hown hn
    obtain ⟨t, s, ht, hs, -, -⟩ := g.own hplace
    cases hslot : k.osTcbPrioTbl p with
    | reserved | tcb t' => exact Goes.refl g
    | null =>
      simp only [ht]
      have hp : k.tcb p = none := by simp [Kernel.tcb, hslot]
      have hfree : ∀ q, k.creating q ≠ some p := by
        intro q hq
        have hres := g.tables.reserved q p hq
        rw [hslot] at hres
        cases hres
      obtain ⟨h1, hst1⟩ := g.tables.setSlot_none hp (tcb_setSlot k p .reserved) (.inl rfl)
      have hpc : k.osPrioCur ≠ p := by
        rintro rfl
        rw [ht] at hp
        cases hp
      have ht1 : (k.setSlot p .reserved).tcb k.osPrioCur = some t := by
        rw [(k.moves_setSlot p .reserved).tcb_eq hpc, ht]
      have hst2 := status_setCreating ht1 (some p)
      have hcr1 {q c : Prio} (hc : (k.setSlot p .reserved).creating q = some c) : k.creating q = some c := by
        by_cases hq : q = p
        · subst hq
          rw [Kernel.creating, tcb_setSlot] at hc
          cases hc
        · rwa [(k.moves_setSlot p .reserved).creating_eq hq] at hc
      have h2 : TablesOk ((k.setSlot p .reserved).setTcb k.osPrioCur { t with creating := some p }) := by
        have hm2 := Kernel.moves_setTcb (k.setSlot p .reserved) k.osPrioCur { t with creating := some p }
        refine h1.moves hm2 (shows_setCreating h1 ht1 _) (absurd · hi) (fun _ he => Or.inl he) {
          reserved := fun q c hc => ?_
          creatingInj := fun q q' c hc hc' => ?_
          nodup := h1.nodup
          mem_list := fun q => hst2 ▸ h1.mem_list q
          last := h1.last }
        · rw [creating_setTcb] at hc
          have hres : (k.setSlot p .reserved).osTcbPrioTbl c = .reserved := by
            split at hc
            · obtain rfl : p = c := Option.some.inj hc
              exact Function.update_self ..
            · exact h1.reserved q c hc
          have hcc : c ≠ k.osPrioCur := by
            rintro rfl
            rw [Kernel.tcb, hres] at ht1
            cases ht1
          rwa [hm2.slot c hcc]
        · rw [creating_setTcb] at hc hc'
          split at hc <;> split at hc'
          · case isTrue.isTrue h1 h2 => exact h1.trans h2.symm
          · obtain rfl : p = c := Option.some.inj hc
            exact absurd (hcr1 hc') (hfree q')
          · obtain rfl : p = c := Option.some.inj hc'
            exact absurd (hcr1 hc) (hfree q)
          · exact h1.creatingInj q q' c hc hc'
      have hst := hst2.trans hst1
      refine ⟨⟨h2, ?_, tickOk_none (g.tick_none hn)⟩, hst⟩
      refine { awake := ?_, locked := fun hl s hs => g.cur.locked hl s ?_, high := g.cur.high }
      · rw [hst]
        exact g.cur.awake
      · rwa [hst] at hs

theorem TablesOk.tcbInit (h : TablesOk k) (hp : k.tcb p = none) (hfree : ∀ q, k.creating q ≠ some p)
    (hi : p ≠ osTaskIdlePrio) (free : Nat) :
    TablesOk (newTask k p free) ∧
      (newTask k p free).status = Function.update k.status p (some ⟨.own, false⟩) := by
  have hnone := status_of_no_tcb hp
  have hshow := hnone ▸ h.shows p
  have hm' := (k.moves_setTcb p {}).trans (Kernel.moves_makeReady _ p)
  have hm : Moves k (newTask k p free) p :=
    ⟨hm'.rdyWf, hm'.waitsWf, hm'.rdy, hm'.waits, hm'.slot, hm'.held⟩
  have hnew : (newTask k p free).Shows p (some ⟨.own, false⟩) := by
    have hrdy : p ∈ (newTask k p free).osRdy := (Kernel.mem_makeReady ..).mpr (.inl rfl)
    refine ⟨⟨{}, k.tcb_setTcb p {}, .fresh⟩, ⟨fun _ => rfl, fun _ => hrdy⟩, fun e => ?_⟩
    refine iff_of_false (fun he => ?_) (by simp [Phase.waitsFor])
    obtain ⟨s, hs, -⟩ := (hshow.waits e).mp he
    cases hs
  have hst := hm.status_eq h hnew
  have hcr {q c : Prio} (hc : (newTask k p free).creating q = some c) : k.creating q = some c := by
    by_cases hq : q = p
    · subst hq
      have hfresh : (newTask k q free).creating q = none := Kernel.creating_of_tcb (k.tcb_setTcb q {})
      rw [hfresh] at hc
      cases hc
    · rwa [hm.creating_eq hq] at hc
  refine ⟨h.moves hm hnew (absurd · hi) (fun _ he => Or.inl he) {
    reserved := fun q c hc => ?_
    creatingInj := fun q q' c hc hc' => h.creatingInj q q' c (hcr hc) (hcr hc')
    nodup := List.nodup_cons.mpr ⟨fun hmem => ?_, h.nodup⟩
    mem_list := fun q => ?_
    last := ?_ }, hst⟩
  · have hcp : c ≠ p := by
      rintro rfl
      exact hfree q (hcr hc)
    rw [hm.slot c hcp]
    exact h.reserved q c (hcr hc)
  · rw [h.mem_list, hnone] at hmem
    cases hmem
  · have hlist : (newTask k p free).osTcbList = p :: k.osTcbList := rfl
    rw [hlist, List.mem_cons, hst, h.mem_list]
    by_cases hq : q = p
    · subst hq
      simp
    · simp [hq]
  · obtain ⟨l, hl⟩ := h.last
    exact ⟨p :: l, congrArg (p :: ·) hl⟩

theorem osTcbInit_goes (g : KernelOk k) (hp : k.place = some (.create t p)) (hn : k.osIntNesting = 0) :
    Goes k (osTcbInit k t p).1 (onSuccess (osTcbInit k t p).2 [(p, .create)]) := by
  obtain ⟨s, ht, hs, hc⟩ := g.inCreate hp
  have hshow := g.tables.shows_some hs
  have hcr : k.creating k.osPrioCur = some p := (Kernel.creating_of_tcb ht).trans hc
  have hres := g.tables.reserved _ _ hcr
  have hpc : p ≠ k.osPrioCur := by
    rintro rfl
    rw [Kernel.tcb, hres] at ht
    cases ht
  -- first the task that has made the new one goes on
  have hst1 := status_setCreating ht none
  have hm1 := k.moves_setTcb k.osPrioCur { t with creating := none }
  have hcr1 {q c : Prio} (hc : (k.setTcb k.osPrioCur { t with creating := none }).creating q = some c) :
      q ≠ k.osPrioCur ∧ k.creating q = some c := by
    rw [creating_setTcb] at hc
    split at hc
    · cases hc
    · case isFalse hq => exact ⟨hq, hc⟩
  have hfree : ∀ q, (k.setTcb k.osPrioCur { t with creating := none }).creating q ≠ some p := by
    intro q hq
    obtain ⟨hqc, hq⟩ := hcr1 hq
    exact hqc (g.tables.creatingInj q _ p hq hcr)
  have hpnone : (k.setTcb k.osPrioCur { t with creating := none }).tcb p = none := by
    rw [hm1.tcb_eq hpc, Kernel.tcb, hres]
  have hi : p ≠ osTaskIdlePrio := by
    rintro rfl
    have hidle := g.tables.idle
    rw [← hst1, status_of_no_tcb hpnone] at hidle
    cases hidle
  have hmoves : TablesOk (k.setTcb k.osPrioCur { t with creating := none }) := by
    have hsub := shows_setCreating g.tables ht none
    have hmt : MovesTo k (k.setTcb k.osPrioCur { t with creating := none }) k.osPrioCur (some s) :=
      ⟨hm1, ⟨rfl, rfl, rfl, rfl, rfl, rfl, rfl⟩, hs ▸ hsub, fun c hc => (hcr1 hc).2⟩
    refine g.tables.movesTo hs hmt (fun hidle => ?_) fun _ => Or.inl
    rw [hidle, g.tables.idle] at hs
    exact (Option.some.inj hs).symm
  unfold osTcbInit
  simp only
  generalize hk1 : k.setTcb k.osPrioCur { t with creating := none } = k₁ at hst1 hfree hpnone hmoves ⊢
  have hcur1 : k₁.osPrioCur = k.osPrioCur := by rw [← hk1]; rfl
  have hn1 : k₁.osIntNesting = 0 := by rw [← hk1]; exact hn
  have hl1 : k₁.osLockNesting = k.osLockNesting := by rw [← hk1]; rfl
  have hr1 : k₁.osRdy = k.osRdy := by rw [← hk1]; rfl
  have htick1 : k₁.tick = none := by rw [← hk1]; exact g.tick_none hn
  have hbase : CurBase k₁ := by
    refine ⟨?_, fun hl s hs => ?_⟩
    · rw [hcur1, hst1]
      exact g.cur.awake
    · rw [hcur1, hst1] at hs
      exact g.cur.locked (hl1 ▸ hl) s hs
  split
  · obtain ⟨h2, hst2⟩ := hmoves.tcbInit hpnone hfree hi (k₁.osTcbFree - 1)
    refine Goes.sched h2 (tickOk_none htick1) (fun _ => ?_) (hst2.trans (by rw [hst1]; rfl))
    have hother : (newTask k₁ p (k₁.osTcbFree - 1)).status k₁.osPrioCur = k₁.status k₁.osPrioCur := by
      rw [hst2, Function.update_of_ne]
      rw [hcur1]
      exact Ne.symm hpc
    refine ⟨?_, fun hl s hs => ?_⟩
    · obtain ⟨s, hs, ha⟩ := hbase.awake
      exact ⟨s, hother.trans hs, ha⟩
    · exact hbase.locked hl s (hother.symm.trans hs)
  · obtain ⟨h2, hst2⟩ := hmoves.setSlot_none hpnone (tcb_setSlot k₁ p .null) (.inr hfree)
    refine ⟨⟨h2, ?_, tickOk_none htick1⟩, hst2.trans hst1⟩
    refine { awake := ?_, locked := fun hl s hs => hbase.locked hl s ?_, high := fun hn hl => ?_ }
    · rw [hst2]
      exact hbase.awake
    · rwa [hst2] at hs
    · have hhigh := g.cur.high (by omega) (hl1.symm.trans hl)
      rw [osSchedNew, ← hr1] at hhigh
      exact hcur1.trans hhigh

theorem Kernel.place_own (h : k.inOwn = true) : k.place = some .own := by
  unfold Kernel.inOwn at h
  split at h
  · assumption
  · cases h

/-! ## The processor -/

theorem osSchedLock_goes (g : KernelOk k)
    (hown : k.osIntNesting = 0 → k.osPrioCur ≠ osTaskIdlePrio ∧ k.place = some .own) :
    Goes k (osSchedLock k) [] := by
  unfold osSchedLock
  split
  · case isTrue h =>
    obtain ⟨-, s, -, hs, ho, -⟩ := g.own (hown h.1).2
    refine Goes.same g ⟨rfl, rfl, rfl, rfl, rfl⟩ rfl ?_ (g.tick.same ⟨rfl, rfl, rfl, rfl, rfl⟩ rfl le_rfl)
    refine { awake := g.cur.awake, locked := fun _ s' hs' => ?_, high := fun _ hl => absurd hl (Nat.succ_ne_zero _) }
    obtain rfl : s' = s := Option.some.inj (hs'.symm.trans hs)
    exact ho
  · exact Goes.refl g

theorem osSchedUnlock_goes (g : KernelOk k) : Goes k (osSchedUnlock k) [] := by
  unfold osSchedUnlock
  split
  · case isTrue h =>
    have hgoes : Goes k (osSched { k with osLockNesting := k.osLockNesting - 1 }) [] := by
      refine Goes.sched ?_ ?_ (fun _ => ?_) rfl
      · exact g.tables.sameEvents ⟨rfl, rfl, rfl, rfl, rfl⟩ rfl
      · exact g.tick.same ⟨rfl, rfl, rfl, rfl, rfl⟩ rfl le_rfl
      · exact g.cur.toCurBase.same ⟨rfl, rfl, rfl, rfl, rfl⟩ rfl fun _ => h
    exact hgoes
  · exact Goes.refl g

theorem osIntEnter_goes (g : KernelOk k) : Goes k (osIntEnter k) [] := by
  unfold osIntEnter
  split
  · have st : SameTables k { k with osIntNesting := k.osIntNesting + 1 } := ⟨rfl, rfl, rfl, rfl, rfl⟩
    refine Goes.same g st rfl ?_ (g.tick.same st rfl (Nat.le_succ _))
    exact { toCurBase := g.cur.toCurBase.same st rfl id, high := fun hn => absurd hn (Nat.succ_ne_zero _) }
  · exact Goes.refl g

/-- An interrupt goes off when its tick is done. -/
theorem osIntExit_goes (g : KernelOk k) (htop : k.tickOnTop = false) : Goes k (osIntExit k) [] := by
  have st : SameTables k { k with osIntNesting := k.osIntNesting - 1 } := ⟨rfl, rfl, rfl, rfl, rfl⟩
  refine Goes.sched (g.tables.sameEvents st rfl) ?_ (fun _ => g.cur.toCurBase.same st rfl id) rfl
  intro level ps htick
  have htick : k.tick = some (level, ps) := htick
  obtain ⟨h0, hle, hrest⟩ := g.tick level ps htick
  have hne : level ≠ k.osIntNesting := by
    intro he
    simp [Kernel.tickOnTop, htick, he] at htop
  exact ⟨h0, Nat.le_sub_one_of_lt (lt_of_le_of_ne hle hne), hrest⟩

theorem osTimeTick_goes (g : KernelOk k) (hn : 0 < k.osIntNesting) : Goes k (osTimeTick k) [] := by
  have st : SameTables k (osTimeTick k) := ⟨rfl, rfl, rfl, rfl, rfl⟩
  refine Goes.same g st rfl ?_ ?_
  · exact { toCurBase := g.cur.toCurBase.same st rfl id, high := g.cur.high }
  · intro level ps htick
    obtain ⟨rfl, rfl⟩ := Prod.mk.inj (Option.some.inj htick)
    refine ⟨hn, le_rfl, g.tables.nodup.sublist (List.takeWhile_sublist _), fun hmem => ?_, fun p hp => ?_⟩
    · have hne := List.mem_takeWhile_imp hmem
      simp at hne
    · exact st.status ▸ (g.tables.mem_list p).mp ((List.takeWhile_sublist _).subset hp)

theorem osTimeTickTask_goes (g : KernelOk k) {level : Nat} {ps : List Prio} (h : k.tick = some (level, p :: ps))
    (hn : level = k.osIntNesting) : Goes k { osTimeTickTask k p with tick := some (level, ps) } [(p, .tick)] := by
  obtain ⟨h0, hle, hnd, hi, hps⟩ := g.tick _ _ h
  obtain ⟨s, hs⟩ := Option.isSome_iff_exists.mp (hps p List.mem_cons_self)
  have hpi : p ≠ osTaskIdlePrio := by
    rintro rfl
    exact hi List.mem_cons_self
  have hm := movesTo_tick (g.tables.shows_some hs)
  have hmoved : Moved k (osTimeTickTask k p) [(p, .tick)] := by
    refine hm.moved g hs hpi (fun e he => Or.inl ?_) (fun ha => ?_) (fun ho => ?_) _ rfl
    · rwa [Phase.tick_waitsFor] at he
    · rwa [s.phase.tick_of_awake ha]
    · simp [ho, Phase.tick]
  have st : SameTables (osTimeTickTask k p) { osTimeTickTask k p with tick := some (level, ps) } :=
    ⟨rfl, rfl, rfl, rfl, rfl⟩
  refine ⟨⟨hmoved.tables.sameEvents st rfl, ?_, ?_⟩, hmoved.status⟩
  · refine { toCurBase := hmoved.base.same st rfl id, high := fun hz => ?_ }
    have hz : (osTimeTickTask k p).osIntNesting = 0 := hz
    rw [hmoved.still.intNesting, ← hn] at hz
    omega
  · have hold : TickOk { osTimeTickTask k p with tick := some (level, p :: ps) } :=
      hmoved.tick.same ⟨rfl, rfl, rfl, rfl, rfl⟩ (hmoved.still.tick.trans h).symm le_rfl
    intro level' ps' htick
    obtain ⟨rfl, rfl⟩ := Prod.mk.inj (Option.some.inj htick)
    obtain ⟨h0, hle, hnd, hi, hps⟩ := hold _ _ rfl
    exact ⟨h0, hle, (List.nodup_cons.mp hnd).2, fun hm => hi (List.mem_cons_of_mem _ hm),
      fun q hq => hps q (List.mem_cons_of_mem _ hq)⟩

end

section
variable {E : Type} [DecidableEq E] {k : Kernel E} {p : Prio}

/-! ## Deleted tasks -/

theorem moves_delTask (k : Kernel E) (p : Prio) (t : Tcb E) : Moves k (delTask k p t) p := by
  unfold delTask
  cases t.osTcbEventPtr with
  | none =>
    have hm := (k.moves_unready p).trans (Kernel.moves_setSlot _ p .null)
    exact ⟨hm.rdyWf, hm.waitsWf, hm.rdy, hm.waits, hm.slot, hm.held⟩
  | some e =>
    have hm := ((k.moves_unready p).trans (Kernel.moves_remove _ p e)).trans (Kernel.moves_setSlot _ p .null)
    exact ⟨hm.rdyWf, hm.waitsWf, hm.rdy, hm.waits, hm.slot, hm.held⟩

/-- The wait list of the pend that the task was in is the only one it can be in. -/
theorem shows_delTask {t : Tcb E} {s : Status E} (h : k.Shows p (some s)) (ht : k.tcb p = some t) :
    (delTask k p t).Shows p none := by
  have hev := (h.is ht).eventPtr
  unfold delTask
  cases hptr : t.osTcbEventPtr with
  | none =>
    refine ⟨tcb_setSlot _ p .null, iff_of_false (fun hr => ?_) Bool.false_ne_true, fun e => ?_⟩
    · exact ((Kernel.mem_unready ..).mp hr).1 rfl
    · refine iff_of_false (fun he => ?_) (by simp)
      have hw := (h.waits_iff e).mp he
      rw [hptr, Phase.inPend_of_waitsFor hw] at hev
      cases hev
  | some e =>
    refine ⟨tcb_setSlot _ p .null, iff_of_false (fun hr => ?_) Bool.false_ne_true, fun e' => ?_⟩
    · exact ((Kernel.mem_unready ..).mp hr).1 rfl
    · refine iff_of_false (fun he => ?_) (by simp)
      have he : p ∈ (osEventTaskRemove (k.unready p) p e).waits e' := he
      rw [osEventTaskRemove, Kernel.waits_setWaits] at he
      split at he
      · exact (BitTable.mem_remove.mp he).1 rfl
      · case isFalse hne =>
        have hw := (h.waits_iff e').mp he
        rw [hptr, Phase.inPend_of_waitsFor hw] at hev
        exact hne (Option.some.inj hev).symm

theorem osTaskDel_goes (g : KernelOk k) {prio : Option Prio}
    (hown : k.osIntNesting = 0 → k.osPrioCur ≠ osTaskIdlePrio ∧ k.place = some .own)
    (hlegal : prio.getD k.osPrioCur = k.osPrioCur → k.osLockNesting = 0) :
    Goes k (osTaskDel k prio).1 (onSuccess (osTaskDel k prio).2 [(prio.getD k.osPrioCur, .delete)]) := by
  unfold osTaskDel
  simp only
  split
  · exact Goes.refl g
  · case isFalse hn =>
    have hn := Nat.eq_zero_of_not_pos hn
    split
    · exact Goes.refl g
    · case isFalse hprio =>
      have hi : prio.getD k.osPrioCur ≠ osTaskIdlePrio := by
        cases prio with
        | none => exact (hown hn).1
        | some p => exact fun h => hprio (congrArg some h)
      generalize prio.getD k.osPrioCur = p at hi hlegal ⊢
      cases hslot : k.osTcbPrioTbl p with
      | null | reserved => exact Goes.refl g
      | tcb t =>
        have ht : k.tcb p = some t := by simp [Kernel.tcb, hslot]
        obtain ⟨s, hs⟩ : ∃ s, k.status p = some s := by simp [Kernel.status, ht]
        have hm := moves_delTask k p t
        have hshow := shows_delTask (g.tables.shows_some hs) ht
        have hst := hm.status_eq g.tables hshow
        have hcr {q c : Prio} (hc : (delTask k p t).creating q = some c) : k.creating q = some c := by
          by_cases hq : q = p
          · subst hq
            have hnone : (delTask k q t).tcb q = none := hshow.tcb
            simp [Kernel.creating, hnone] at hc
          · rwa [hm.creating_eq hq] at hc
        have htab : TablesOk (delTask k p t) := by
          refine g.tables.moves hm hshow (absurd · hi) (fun e he => ?_) {
            reserved := fun q c hc => ?_
            creatingInj := fun q q' c hc hc' => g.tables.creatingInj q q' c (hcr hc) (hcr hc')
            nodup := g.tables.nodup.erase p
            mem_list := fun q => ?_
            last := ?_ }
          · obtain ⟨s', hs', -⟩ := (hshow.waits e).mp he
            cases hs'
          · have hres := g.tables.reserved q c (hcr hc)
            have hcp : c ≠ p := by
              rintro rfl
              rw [hslot] at hres
              cases hres
            rw [hm.slot c hcp]
            exact hres
          · have hlist : (delTask k p t).osTcbList = k.osTcbList.erase p := rfl
            rw [hlist, g.tables.nodup.mem_erase_iff, hst, g.tables.mem_list]
            by_cases hq : q = p
            · subst hq
              simp
            · simp [hq]
          · obtain ⟨l, hl⟩ := g.tables.last
            refine ⟨l.erase p, ?_⟩
            have hlist : (delTask k p t).osTcbList = k.osTcbList.erase p := rfl
            have hpl : p ∈ l := by
              have hmem : p ∈ k.osTcbList := (g.tables.mem_list p).mpr (by rw [hs]; rfl)
              rw [hl, List.mem_append, List.mem_singleton] at hmem
              exact hmem.resolve_right hi
            rw [hlist, hl, List.erase_append_left _ hpl]
        have hgoes : Goes k (osSched (delTask k p t)) [(p, .delete)] := by
          refine Goes.sched htab (tickOk_none ?_) (fun hb => ?_) ?_
          · have htick : (delTask k p t).tick = k.tick := by
              unfold delTask
              cases t.osTcbEventPtr <;> rfl
            rw [htick]
            exact g.tick_none hn
          · have hrest : (delTask k p t).osPrioCur = k.osPrioCur ∧
                (delTask k p t).osIntNesting = k.osIntNesting ∧
                (delTask k p t).osLockNesting = k.osLockNesting := by
              unfold delTask
              cases t.osTcbEventPtr <;> exact ⟨rfl, rfl, rfl⟩
            rw [hrest.2.1, hrest.2.2] at hb
            have hpc : k.osPrioCur ≠ p := fun h => hb ⟨hn, hlegal h.symm⟩
            have hother : (delTask k p t).status k.osPrioCur = k.status k.osPrioCur := by
              rw [hst, Function.update_of_ne hpc]
            refine ⟨?_, fun hl s hs => ?_⟩
            · rw [hrest.1, hother]
              exact g.cur.awake
            · rw [hrest.1, hother] at hs
              exact g.cur.locked (hrest.2.2 ▸ hl) s hs
          · rw [hst]
            rfl
        exact hgoes

/-! ## Every step -/

def Call.evs (k : Kernel E) (r : Option Ret) : Call E → Evs E
  | semPend e timeout | mboxPend e timeout | qPend e timeout => blocks k e timeout r
  | semPost e => r.elim [] (wakes e 0 .ok)
  | mboxPost e pmsg | qPost e pmsg | qPostFront e pmsg => r.elim [] (wakes e pmsg .ok)
  | semPendAbort e _ | mboxPendAbort e _ | qPendAbort e _ => r.elim [] (wakes e 0 .abort)
  | timeDly ticks => delays k ticks
  | timeDlyResume p => r.elim [] (onSuccess · [(p, .expire)])
  | taskSuspend prio => r.elim [] (onSuccess · [(prio.getD k.osPrioCur, .suspend)])
  | taskResume p => r.elim [] (onSuccess · [(p, .resume)])
  | taskDel prio => r.elim [] (onSuccess · [(prio.getD k.osPrioCur, .delete)])
  | semAccept _ | mboxAccept _ | qAccept _ | semSet _ _ | qFlush _ | taskCreate _ | schedLock | schedUnlock => []

def Action.evs (k : Kernel E) (r : Option Ret) : Action E → Evs E
  | call c => c.evs k r
  | pendReturn => [(k.osPrioCur, .ret)]
  | tcbInit =>
    match k.place with
    | some (.create _ p) => r.elim [] (onSuccess · [(p, .create)])
    | _ => []
  | tickTask =>
    match k.tick with
    | some (_, p :: _) => [(p, .tick)]
    | _ => []
  | intEnter | intExit | timeTick => []

theorem qAccept_goes (g : KernelOk k) (e : E) : Goes k (osQAccept k e).1 [] := by
  have h := osAccept_goes (e := e) g .q
  unfold osQAccept
  simp only
  split
  · exact h
  · split <;> exact h

theorem osSemSet_goes (g : KernelOk k) (e : E) (cnt : UInt16) : Goes k (osSemSet k e cnt).1 [] := by
  unfold osSemSet
  simp only
  split
  · exact Goes.refl g
  · case isFalse hty =>
    split
    · case isTrue hc =>
      refine Goes.setEvent g ⟨rfl, rfl, g.tables.ring e⟩ fun _ => ?_
      rcases hc with hc | hc
      · refine g.tables.nobody e ?_
        simp [OsEvent.contents, not_not.mp hty, hc.ne']
      · exact (g.tables.waitsWf e).grp_eq_zero.mp hc
    · exact Goes.refl g

theorem osQFlush_goes (g : KernelOk k) (e : E) (h : (k.osEvent e).osEventType = .q) : Goes k (osQFlush k e).1 [] := by
  refine Goes.setEvent g ⟨rfl, rfl, RingBuffer.wf_flush⟩ fun hc => absurd ?_ hc
  simp only [OsEvent.contents, h]
  exact RingBuffer.contents_flush

/-- Each call does to the tasks what its events say. -/
theorem call_goes (g : KernelOk k) (c : Call E) (hlegal : c.legal k)
    (hown : k.osIntNesting = 0 → k.osPrioCur ≠ osTaskIdlePrio ∧ k.place = some .own) :
    Goes k (c.exec k).1 (c.evs k (c.exec k).2) := by
  cases c with
  | semAccept e => exact osAccept_goes g .sem
  | mboxAccept e => exact osAccept_goes g .mbox
  | qAccept e => exact qAccept_goes g e
  | semPend e timeout => exact osPend_goes g .sem timeout hown
  | mboxPend e timeout => exact osPend_goes g .mbox timeout hown
  | qPend e timeout => exact osPend_goes g .q timeout hown
  | semPost e => exact osPost_goes g fun _ _ hq ht h => (OsEvent.semPut_eq_some hq ht h).2
  | mboxPost e pmsg => exact osPost_goes g fun _ _ hq ht h => (OsEvent.mboxPut_eq_some hq ht h).2
  | qPost e pmsg => exact osPost_goes g fun _ _ hq ht h => (OsEvent.qPut_eq_some hq ht h).2
  | qPostFront e pmsg => exact osPost_goes g fun _ _ hq ht h => (OsEvent.qPutFront_eq_some hq ht h).2
  | semPendAbort e broadcast => exact osPendAbort_goes g .sem broadcast
  | mboxPendAbort e broadcast => exact osPendAbort_goes g .mbox broadcast
  | qPendAbort e broadcast => exact osPendAbort_goes g .q broadcast
  | semSet e cnt => exact osSemSet_goes g e cnt
  | qFlush e => exact osQFlush_goes g e hlegal
  | timeDly ticks => exact osTimeDly_goes g hown
  | timeDlyResume p => exact osTimeDlyResume_goes g
  | taskSuspend prio => exact osTaskSuspend_goes g hlegal
  | taskResume p => exact osTaskResume_goes g
  | taskCreate p => exact osTaskCreate_goes g hown
  | taskDel prio => exact osTaskDel_goes g hown hlegal
  | schedLock => exact osSchedLock_goes g hown
  | schedUnlock => exact osSchedUnlock_goes g

theorem kernelStep_goes (g : KernelOk k) {a : Action E} {k' : Kernel E} {r : Option Ret}
    (h : kernelStep k a = some (k', r)) : Goes k k' (a.evs k r) := by
  cases a with
  | call c =>
    simp only [kernelStep] at h
    split at h
    · case isTrue hg =>
      obtain ⟨hlegal, -, hown⟩ := hg
      have hgoes := call_goes g c hlegal fun hn => ⟨(hown hn).1, Kernel.place_own (hown hn).2⟩
      rw [Option.some.inj h] at hgoes
      exact hgoes
    · cases h
  | pendReturn =>
    simp only [kernelStep] at h
    split at h
    · case h_1 t e hp =>
      split at h
      · case isTrue hn =>
        obtain ⟨rfl, -⟩ := Prod.mk.inj (Option.some.inj h)
        exact osPendReturn_goes g hp hn
      · cases h
    · cases h
  | tcbInit =>
    simp only [kernelStep] at h
    split at h
    · case h_1 t p hp =>
      split at h
      · case isTrue hn =>
        obtain ⟨rfl, rfl⟩ := Prod.mk.inj (Option.some.inj h)
        have hgoes := osTcbInit_goes g hp hn
        simp only [Action.evs, hp]
        exact hgoes
      · cases h
    · cases h
  | intEnter =>
    simp only [kernelStep] at h
    split at h
    · obtain ⟨rfl, -⟩ := Prod.mk.inj (Option.some.inj h)
      exact osIntEnter_goes g
    · cases h
  | intExit =>
    simp only [kernelStep] at h
    split at h
    · case isTrue hc =>
      obtain ⟨rfl, -⟩ := Prod.mk.inj (Option.some.inj h)
      exact osIntExit_goes g (Bool.eq_false_iff.mpr hc.2)
    · cases h
  | timeTick =>
    simp only [kernelStep] at h
    split at h
    · case isTrue hc =>
      obtain ⟨rfl, -⟩ := Prod.mk.inj (Option.some.inj h)
      exact osTimeTick_goes g hc.1
    · cases h
  | tickTask =>
    simp only [kernelStep] at h
    split at h
    · case h_1 level p ps htick =>
      split at h
      · case isTrue hn =>
        obtain ⟨rfl, -⟩ := Prod.mk.inj (Option.some.inj h)
        simp only [Action.evs, htick]
        exact osTimeTickTask_goes g htick hn
      · cases h
    · case h_2 level htick =>
      split at h
      · obtain ⟨rfl, -⟩ := Prod.mk.inj (Option.some.inj h)
        simp only [Action.evs, htick]
        exact Goes.same g ⟨rfl, rfl, rfl, rfl, rfl⟩ rfl { g.cur with } (tickOk_none rfl)
      · cases h
    · cases h

end

end GizwitsSdk
