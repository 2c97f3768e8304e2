import GizwitsSdk.OsSteps

/-!
# Pends, delays and tasks

The calls that take the processor away from a task, and those that make and end
tasks, keep the invariant as well. So does every step of the kernel.
-/

namespace GizwitsSdk

open Lib

section
variable {E : Type} {k k' : Kernel E} {p : Prio} {s s' : Status E} {t : Tcb E}

/-! ## One event -/

theorem MovesTo.moved (g : KernelOk k) (hs : k.status p = some s) (hm : MovesTo k k' p (some s'))
    (hi : p ≠ osTaskIdlePrio)
    (hw : ∀ e, s'.phase.waitsFor = some e → s.phase.waitsFor = some e ∨ (k.osEvent e).contents = [])
    (ha : s.phase.awake = true → s'.phase.awake = true) (ho : s.phase = .own → s'.phase = .own) (ev : Ev E)
    (hev : ev.apply (some s) = some s') : Moved k k' [(p, ev)] := by
  refine ⟨g.tables.movesTo hs hm (absurd · hi) hw, g.cur.toCurBase.movesTo g.tables hs hm ha ho,
    g.tick.movesTo g.tables hm, hm.still, hm.moves.typ_eq, ?_⟩
  rw [hm.status_eq g.tables, applyEvs, List.foldl_cons, List.foldl_nil, hs, hev]

/-- The task that runs is still the first. -/
theorem Moved.goes_fewer (g : KernelOk k) {evs : Evs E} (h : Moved k k' evs)
    (hr : k.osIntNesting = 0 → k.osLockNesting = 0 → k.osPrioCur ∈ k.osRdy → k.osPrioCur ∈ k'.osRdy)
    (hsub : ∀ q, q ∈ k'.osRdy → q ∈ k.osRdy) : Goes k k' evs := by
  refine ⟨⟨h.tables, ?_, h.tick⟩, h.status⟩
  refine CurOk.fewer g.tables h.tables g.cur h.base h.still (fun hn hl => hr hn hl ?_) hsub
  obtain ⟨s, hs, hrun⟩ := g.cur.runnable g.tables hn hl
  exact (g.tables.shows_some hs).rdy.mpr hrun

/-- A task that cannot run is not in the ready table. -/
theorem Moves.rdy_sub (hm : Moves k k' p) (hs : k'.Shows p (some s')) (hr : s'.runnable = false) :
    ∀ q, q ∈ k'.osRdy → q ∈ k.osRdy := by
  intro q hq
  by_cases hqp : q = p
  · subst hqp
    exact absurd (hs.rdy.mp hq) (by simp [hr])
  · exact (hm.rdy q hqp).mp hq

/-! ## The task that runs -/

theorem KernelOk.tick_none (g : KernelOk k) (hn : k.osIntNesting = 0) : k.tick = none := by
  rcases htick : k.tick with _ | ⟨level, ps⟩
  · rfl
  · obtain ⟨h0, hle, -⟩ := g.tick level ps htick
    omega

theorem tickOk_none (h : k.tick = none) : TickOk k := by
  intro level ps ht
  rw [h] at ht
  cases ht

/-- A task in its own code. -/
theorem KernelOk.own (g : KernelOk k) (hp : k.place = some .own) :
    ∃ t s, k.tcb k.osPrioCur = some t ∧ k.status k.osPrioCur = some s ∧ s.phase = .own ∧
      t.creating = none := by
  obtain ⟨s, hs, ha⟩ := g.cur.awake
  obtain ⟨t, ht, hi⟩ := (g.tables.shows_some hs).tcb_some
  have hev := hi.eventPtr
  simp only [Kernel.place, ht] at hp
  split at hp <;> try cases hp
  case h_3 h1 h2 =>
    refine ⟨t, s, ht, hs, ?_, h2⟩
    rw [h1] at hev
    cases hph : s.phase with
    | own => rfl
    | delayed n =>
      rw [hph] at ha
      cases ha
    | waiting e n | timedOut e | given e m | aborted e =>
      rw [hph] at hev
      cases hev

/-- A task behind the switch of a pend. -/
theorem KernelOk.inPend (g : KernelOk k) {e : E} (hp : k.place = some (.pend t e)) :
    ∃ s, k.tcb k.osPrioCur = some t ∧ k.status k.osPrioCur = some s ∧ s.phase.inPend = some e := by
  obtain ⟨s, hs, -⟩ := g.cur.awake
  obtain ⟨t', ht, hi⟩ := (g.tables.shows_some hs).tcb_some
  simp only [Kernel.place, ht] at hp
  split at hp <;> try cases hp
  case h_1 h1 => exact ⟨s, ht, hs, hi.eventPtr.symm.trans h1⟩

/-- A task that makes another. -/
theorem KernelOk.inCreate (g : KernelOk k) {c : Prio} (hp : k.place = some (.create t c)) :
    ∃ s, k.tcb k.osPrioCur = some t ∧ k.status k.osPrioCur = some s ∧ t.creating = some c := by
  obtain ⟨s, hs, -⟩ := g.cur.awake
  obtain ⟨t', ht, hi⟩ := (g.tables.shows_some hs).tcb_some
  simp only [Kernel.place, ht] at hp
  split at hp <;> try cases hp
  case h_2 h1 h2 => exact ⟨s, ht, hs, h2⟩

/-- A task that has come back to its pend can run. -/
theorem KernelOk.pend_runnable (g : KernelOk k) {e : E} (hn : k.osIntNesting = 0)
    (hs : k.status k.osPrioCur = some s) (he : s.phase.inPend = some e) :
    s.runnable = true ∧ k.osPrioCur ≠ osTaskIdlePrio := by
  refine ⟨?_, ?_⟩
  · by_cases hl : k.osLockNesting = 0
    · obtain ⟨s', hs', hr⟩ := g.cur.runnable g.tables hn hl
      obtain rfl : s' = s := Option.some.inj (hs'.symm.trans hs)
      exact hr
    · have ho := g.cur.locked (Nat.pos_of_ne_zero hl) s hs
      rw [ho] at he
      cases he
  · refine g.tables.ne_idle hs ?_
    rintro rfl
    cases he

/-! ## Delays -/

/-- `OSTimeDly` does nothing in an interrupt, under the lock, or for no ticks. -/
def delays (k : Kernel E) (ticks : UInt32) : Evs E :=
  if k.osIntNesting = 0 ∧ k.osLockNesting = 0 ∧ ticks ≠ 0 then [(k.osPrioCur, .delay ticks.toNat)] else []

theorem osTimeDly_goes (g : KernelOk k) {ticks : UInt32}
    (hown : k.osIntNesting = 0 → k.osPrioCur ≠ osTaskIdlePrio ∧ k.place = some .own) :
    Goes k (osTimeDly k ticks).1 (delays k ticks) := by
  unfold osTimeDly delays
  by_cases hc : k.osIntNesting = 0 ∧ k.osLockNesting = 0 ∧ ticks ≠ 0
  · obtain ⟨hn, hl, ht0⟩ := hc
    obtain ⟨hi, hplace⟩ := hown hn
    obtain ⟨t, s, ht, hs, ho, -⟩ := g.own hplace
    have hpos : 0 < ticks.toNat := by
      rw [Nat.pos_iff_ne_zero]
      exact fun h0 => ht0 (UInt32.toNat_inj.mp h0)
    have hm := movesTo_delay (g.tables.shows_some hs) ht ho hpos
    rw [if_neg (by simp [hn, hl, ht0]), if_pos ⟨hn, hl, ht0⟩]
    simp only [ht]
    refine Goes.sched (g.tables.movesTo hs hm (absurd · hi) nofun) (g.tick.movesTo g.tables hm) ?_ ?_
    · exact fun hb => absurd ⟨hm.still.intNesting.trans hn, hm.still.lockNesting.trans hl⟩ hb
    · rw [hm.status_eq g.tables, applyEvs, List.foldl_cons, List.foldl_nil, hs]
      rfl
  · rw [if_neg hc, if_pos]
    · exact Goes.refl g
    · by_contra hno
      push Not at hno
      exact hc ⟨Nat.le_zero.mp hno.1, Nat.le_zero.mp hno.2.1, hno.2.2⟩

/-- What a call that has done nothing but give an error back leaves. -/
def onSuccess (r : Ret) (evs : Evs E) : Evs E := if r.err = .none then evs else []

theorem osTimeDlyResume_goes (g : KernelOk k) :
    Goes k (osTimeDlyResume k p).1 (onSuccess (osTimeDlyResume k p).2 [(p, .expire)]) := by
  unfold osTimeDlyResume
  split
  · exact Goes.refl g
  · case isFalse hp =>
    cases ht : k.tcb p with
    | none => exact Goes.refl g
    | some t =>
      simp only
      split
      · exact Goes.refl g
      · case isFalse hd =>
        obtain ⟨s, hs⟩ : ∃ s, k.status p = some s := by simp [Kernel.status, ht]
        have hshow := g.tables.shows_some hs
        have hm := movesTo_expire hshow ht hd
        have hd' : s.phase.ticks ≠ 0 := fun h0 => hd ((hshow.is ht).dly.trans h0)
        have hmoved : Moved k (readyUnlessSuspended k p t.expire) [(p, .expire)] := by
          refine hm.moved g hs ?_ (fun e he => Or.inl ?_) (fun _ => s.phase.expire_awake hd') (fun ho => ?_) _ rfl
          · rintro rfl
            exact hp le_rfl
          · rwa [s.phase.expire_waitsFor] at he
          · exact absurd (by rw [ho]; rfl) hd'
        have hsus := (((hshow.is ht).expire hd).suspended_iff)
        by_cases hb : t.expire.osTcbStat &&& osStatSuspend = osStatRdy
        · simp only [if_pos hb]
          exact hmoved.goes
        · simp only [if_neg hb]
          have hrun : (⟨s.phase.expire, s.suspended⟩ : Status E).runnable = false := by
            have hst : s.suspended = true := by
              rw [← Bool.not_eq_false]
              exact fun hf => hb (hsus.mpr hf)
            simp [Status.runnable, hst]
          have hsub := hm.moves.rdy_sub hm.shows hrun
          refine hmoved.goes_fewer g (fun _ _ hcur => ?_) hsub
          have hne : k.osPrioCur ≠ p := by
            rintro rfl
            have hrun' := hshow.rdy.mp hcur
            have haw : s.phase.awake = true := (Bool.and_eq_true_iff.mp hrun').1
            exact hd' (s.phase.ticks_of_awake haw)
          exact (hm.moves.rdy _ hne).mpr hcur

/-! ## Suspending and resuming -/

theorem osTaskSuspend_goes (g : KernelOk k) {prio : Option Prio} (hi : prio.getD k.osPrioCur ≠ osTaskIdlePrio) :
    Goes k (osTaskSuspend k prio).1 (onSuccess (osTaskSuspend k prio).2 [(prio.getD k.osPrioCur, .suspend)]) := by
  generalize hp : prio.getD k.osPrioCur = p at hi ⊢
  unfold osTaskSuspend
  rw [hp]
  cases hslot : k.osTcbPrioTbl p with
  | null | reserved =>
    simp only [hslot]
    exact Goes.refl g
  | tcb t =>
    have ht : k.tcb p = some t := by simp [Kernel.tcb, hslot]
    obtain ⟨s, hs⟩ : ∃ s, k.status p = some s := by simp [Kernel.status, ht]
    have hm := movesTo_suspend (g.tables.shows_some hs) ht
    have hmoved := hm.moved g hs hi (fun _ => Or.inl) id id .suspend rfl
    simp only [hslot]
    split
    · exact hmoved.goes
    · case isFalse hc =>
      refine hmoved.goes_fewer g (fun _ _ hcur => ?_) (hm.moves.rdy_sub hm.shows (by simp [Status.runnable]))
      exact (hm.moves.rdy _ (Ne.symm hc)).mpr hcur

theorem osTaskResume_goes (g : KernelOk k) :
    Goes k (osTaskResume k p).1 (onSuccess (osTaskResume k p).2 [(p, .resume)]) := by
  unfold osTaskResume
  cases hslot : k.osTcbPrioTbl p with
  | null | reserved => exact Goes.refl g
  | tcb t =>
    have ht : k.tcb p = some t := by simp [Kernel.tcb, hslot]
    obtain ⟨s, hs⟩ : ∃ s, k.status p = some s := by simp [Kernel.status, ht]
    have hshow := g.tables.shows_some hs
    simp only
    split
    · case isTrue hsus =>
      have hst : s.suspended = true := by
        rw [← Bool.not_eq_false]
        exact fun hf => hsus ((hshow.is ht).suspended_iff.mpr hf)
      have hm := movesTo_resume hshow ht rfl rfl hst
      have hne : s ≠ ⟨.own, false⟩ := by
        rintro rfl
        cases hst
      have hmoved := hm.moved g hs (g.tables.ne_idle hs hne) (fun _ => Or.inl) id id .resume rfl
      split at hmoved
      · case isTrue hb =>
        simp only [if_pos hb]
        exact hmoved.goes
      · case isFalse hb =>
        simp only [if_neg hb]
        exact hmoved.goes_fewer g (fun _ _ => id) fun _ => id
    · exact Goes.refl g

end

section
variable {E : Type} [DecidableEq E] {k : Kernel E} {e : E} {t : Tcb E}

/-! ## Pends -/

/-- A call that gives nothing back has put the task into the wait list. -/
def blocks (k : Kernel E) (e : E) (timeout : UInt32) (r : Option Ret) : Evs E :=
  if r = none then [(k.osPrioCur, .block e timeout.toNat)] else []

theorem osPend_goes (g : KernelOk k) (typ : EventType) (timeout : UInt32)
    (hown : k.osIntNesting = 0 → k.osPrioCur ≠ osTaskIdlePrio ∧ k.place = some .own) :
    Goes k (osPend typ k e timeout).1 (blocks k e timeout (osPend typ k e timeout).2) := by
  unfold osPend
  split
  · exact Goes.refl g
  · case isFalse hty =>
    have hty := not_not.mp hty
    split
    · exact Goes.refl g
    · case isFalse hn =>
      split
      · exact Goes.refl g
      · case isFalse hl =>
        have hn := Nat.eq_zero_of_not_pos hn
        have hl := Nat.eq_zero_of_not_pos hl
        cases htake : (k.osEvent e).take typ with
        | some r => exact Goes.take g hty htake
        | none =>
          obtain ⟨hi, hplace⟩ := hown hn
          obtain ⟨t, s, ht, hs, ho, -⟩ := g.own hplace
          have htyp : k.typ e = typ := hty
          have hm := movesTo_wait (e := e) (g.tables.shows_some hs) ht ho timeout.toNat
          rw [htyp] at hm
          simp only [ht]
          refine Goes.sched (g.tables.movesTo hs hm (absurd · hi) fun e' he' => Or.inr ?_) (g.tick.movesTo g.tables hm) ?_ ?_
          · obtain rfl : e = e' := Option.some.inj he'
            exact (OsEvent.take_eq_none hty).mp htake
          · exact fun hb => absurd ⟨hm.still.intNesting.trans hn, hm.still.lockNesting.trans hl⟩ hb
          · rw [hm.status_eq g.tables, blocks, if_pos rfl, applyEvs, List.foldl_cons, List.foldl_nil, hs]
            rfl

theorem osPendReturn_goes (g : KernelOk k) (hp : k.place = some (.pend t e)) (hn : k.osIntNesting = 0) :
    Goes k (osPendReturn k t e).1 [(k.osPrioCur, .ret)] := by
  obtain ⟨s, ht, hs, he⟩ := g.inPend hp
  obtain ⟨hr, hi⟩ := g.pend_runnable hn hs he
  have hm := movesTo_ret (g.tables.shows_some hs) ht hr he
  have hmoved := hm.moved g hs hi nofun (fun _ => rfl) (fun _ => rfl) .ret rfl
  refine hmoved.goes_fewer g (fun _ _ _ => hm.shows.rdy.mpr rfl) fun q hq => ?_
  by_cases hqc : q = k.osPrioCur
  · subst hqc
    exact (g.tables.shows_some hs).rdy.mpr hr
  · exact (hm.moves.rdy q hqc).mp hq

end

end GizwitsSdk
