import GizwitsSdk.OsStatus

/-!
# What each call does to a task

Each operation on a control block takes the status of its task one move on. The
tables follow, and no other task is touched.
-/

namespace GizwitsSdk

open Lib

/-! ## Control blocks -/

namespace Tcb.Is

variable {E : Type} {typ : E → EventType} {t : Tcb E} {s : Status E} {e : E} {n : Nat}

theorem wake_given (h : t.Is typ s) (hw : s.phase.waitsFor = some e) (pmsg : Ptr) :
    (t.wake pmsg (typ e).stat .ok).Is typ ⟨.given e pmsg, s.suspended⟩ := by
  obtain ⟨ph, b⟩ := s
  cases ph with
  | waiting e' n =>
    obtain rfl : e' = e := Option.some.inj hw
    exact ⟨by rw [Tcb.wake, h.stat]; exact statOf_clear b _, h.eventPtr, rfl, rfl, rfl⟩
  | timedOut e' =>
    obtain rfl : e' = e := Option.some.inj hw
    exact ⟨by rw [Tcb.wake, h.stat]; exact statOf_clear_none b _, h.eventPtr, rfl, rfl, rfl⟩
  | own | delayed n | given e' m | aborted e' => cases hw

theorem wake_aborted (h : t.Is typ s) (hw : s.phase.waitsFor = some e) (pmsg : Ptr) :
    (t.wake pmsg (typ e).stat .abort).Is typ ⟨.aborted e, s.suspended⟩ := by
  have hg := h.wake_given hw pmsg
  exact ⟨hg.stat, hg.eventPtr, hg.dly, rfl⟩

theorem expire (h : t.Is typ s) (hd : t.osTcbDly ≠ 0) : t.expire.Is typ ⟨s.phase.expire, s.suspended⟩ := by
  obtain ⟨ph, b⟩ := s
  have hp : (t.osTcbStat &&& osStatPendAny ≠ osStatRdy) ↔ (ph.pendBit typ).isSome = true := by
    rw [h.stat]
    exact statOf_pending b _
  have hstat : t.osTcbStat &&& ~~~osStatPendAny = statOf b none := by
    rw [h.stat]
    exact statOf_clear_any b _
  cases ph with
  | delayed n =>
    have hexp : t.expire = { t with osTcbDly := 0, osTcbStatPend := .ok } :=
      if_neg fun hh => Bool.false_ne_true (hp.mp hh)
    rw [hexp]
    exact ⟨h.stat, h.eventPtr, rfl, trivial⟩
  | waiting e n =>
    have hexp : t.expire = { t with
        osTcbDly := 0, osTcbStat := t.osTcbStat &&& ~~~osStatPendAny, osTcbStatPend := .to } :=
      if_pos (hp.mpr rfl)
    rw [hexp]
    exact ⟨hstat, h.eventPtr, rfl, rfl⟩
  | own | timedOut e | given e m | aborted e => exact absurd h.dly hd

theorem countdown (h : t.Is typ s) (hd : 1 < t.osTcbDly) :
    ({ t with osTcbDly := t.osTcbDly - 1 } : Tcb E).Is typ ⟨s.phase.tick, s.suspended⟩ := by
  obtain ⟨ph, b⟩ := s
  have hdly := h.dly
  cases ph with
  | delayed n =>
    obtain rfl : t.osTcbDly = n := hdly
    have ht : (Phase.delayed t.osTcbDly : Phase E).tick = .delayed (t.osTcbDly - 1) := if_neg (by omega)
    simp only [ht]
    exact ⟨h.stat, h.eventPtr, rfl, Nat.sub_pos_of_lt hd⟩
  | waiting e n =>
    obtain rfl : t.osTcbDly = n := hdly
    have ht : (Phase.waiting e t.osTcbDly : Phase E).tick = .waiting e (t.osTcbDly - 1) := by
      simp only [Phase.tick]
      rw [if_neg (by omega), if_neg (by omega)]
    simp only [ht]
    exact ⟨h.stat, h.eventPtr, rfl, h.statPend⟩
  | own | timedOut e | given e m | aborted e =>
    rw [h.dly] at hd
    exact absurd hd (Nat.not_lt_zero 1)

theorem suspend (h : t.Is typ s) :
    ({ t with osTcbStat := t.osTcbStat ||| osStatSuspend } : Tcb E).Is typ ⟨s.phase, true⟩ :=
  ⟨by rw [h.stat]; exact statOf_suspend _ _, h.eventPtr, h.dly, h.statPend⟩

theorem resume (h : t.Is typ s) :
    ({ t with osTcbStat := t.osTcbStat &&& ~~~osStatSuspend } : Tcb E).Is typ ⟨s.phase, false⟩ :=
  ⟨by rw [h.stat]; exact statOf_resume _ _, h.eventPtr, h.dly, h.statPend⟩

theorem suspended_iff (h : t.Is typ s) : t.osTcbStat &&& osStatSuspend = osStatRdy ↔ s.suspended = false := by
  rw [h.stat]
  exact statOf_suspended _ _

/-- A task that `OSTaskResume` finds with nothing but its suspension. -/
theorem rdy_iff (h : t.Is typ s) : t.osTcbStat = osStatRdy ∧ t.osTcbDly = 0 ↔ s.runnable = true := by
  obtain ⟨ph, b⟩ := s
  have hdly := h.dly
  have hsp := h.statPend
  rw [h.stat, statOf_rdy]
  cases ph with
  | own | timedOut e | given e m | aborted e =>
    simp only [Phase.ticks] at hdly
    simp [Status.runnable, Phase.awake, Phase.pendBit, hdly]
  | delayed n =>
    simp only [Phase.ticks] at hdly hsp
    simp only [Status.runnable, Phase.awake, hdly, Bool.false_and, Bool.false_eq_true, iff_false]
    omega
  | waiting e n => simp [Status.runnable, Phase.awake, Phase.pendBit]

/-- A pend without an outcome, or with the one that the task has not seen yet. -/
theorem waits_iff (h : t.Is typ s) (e : E) :
    t.osTcbEventPtr = some e ∧ (t.osTcbStat &&& (typ e).stat ≠ osStatRdy ∨ t.osTcbStatPend = .to) ↔
      s.phase.waitsFor = some e := by
  obtain ⟨ph, b⟩ := s
  have hsp := h.statPend
  rw [h.eventPtr, h.stat]
  cases ph with
  | own | delayed n => exact iff_of_false (fun hh => nomatch hh.1) nofun
  | waiting e' n =>
    refine ⟨fun hh => hh.1, fun hh => ⟨hh, Or.inl ?_⟩⟩
    obtain rfl : e' = e := Option.some.inj hh
    exact statOf_bit b (typ e')
  | timedOut e' => exact ⟨fun hh => hh.1, fun hh => ⟨hh, Or.inr hsp⟩⟩
  | given e' m =>
    refine iff_of_false (fun hh => ?_) nofun
    rcases hh.2 with hb | hto
    · exact hb (statOf_bit_none b (typ e))
    · rw [hsp.1] at hto
      cases hto
  | aborted e' =>
    refine iff_of_false (fun hh => ?_) nofun
    rcases hh.2 with hb | hto
    · exact hb (statOf_bit_none b (typ e))
    · rw [hsp] at hto
      cases hto

theorem block (h : t.Is typ s) (ho : s.phase = .own) (e : E) (n : Nat) :
    ({ t with
      osTcbStat := t.osTcbStat ||| (typ e).stat, osTcbStatPend := .ok, osTcbDly := n,
      osTcbEventPtr := some e } : Tcb E).Is typ ⟨.waiting e n, s.suspended⟩ := by
  obtain ⟨ph, b⟩ := s
  obtain rfl : ph = .own := ho
  exact ⟨by rw [h.stat]; exact statOf_set b _, rfl, rfl, rfl⟩

theorem delay (h : t.Is typ s) (ho : s.phase = .own) (hn : 0 < n) :
    ({ t with osTcbDly := n } : Tcb E).Is typ ⟨.delayed n, s.suspended⟩ := by
  obtain ⟨ph, b⟩ := s
  obtain rfl : ph = .own := ho
  exact ⟨h.stat, h.eventPtr, rfl, hn⟩

/-- The end of a pend, by a task that runs. -/
theorem ret (h : t.Is typ s) (hr : s.runnable = true) (pmsg : Ptr) :
    ({ t with
      osTcbStat := osStatRdy, osTcbStatPend := .ok, osTcbEventPtr := none, osTcbMsg := pmsg } : Tcb E).Is typ
      ⟨.own, false⟩ :=
  ⟨((statOf_rdy _ _).mpr ⟨rfl, rfl⟩).symm, rfl, (h.rdy_iff.mpr hr).2, trivial⟩

theorem setCreating (h : t.Is typ s) (c : Option Prio) : ({ t with creating := c } : Tcb E).Is typ s :=
  ⟨h.stat, h.eventPtr, h.dly, h.statPend⟩

theorem fresh : ({} : Tcb E).Is typ ⟨.own, false⟩ :=
  ⟨((statOf_rdy _ _).mpr ⟨rfl, rfl⟩).symm, rfl, rfl, trivial⟩

/-- The status is the one that the control block is read as. -/
theorem status_eq (h : t.Is typ s) : t.status typ = s := by
  obtain ⟨ph, b⟩ := s
  have hsus : decide (t.osTcbStat &&& osStatSuspend ≠ osStatRdy) = b := by
    have hiff := h.suspended_iff
    cases b with
    | false => exact decide_eq_false (not_not.mpr (hiff.mpr rfl))
    | true => exact decide_eq_true fun hc => Bool.noConfusion (hiff.mp hc)
  have hstat := h.stat
  have hev := h.eventPtr
  have hdly := h.dly
  have hsp := h.statPend
  unfold Tcb.status
  rw [hsus, hev, hdly, hstat]
  cases ph with
  | own => rfl
  | delayed n =>
    have hn : n ≠ 0 := Nat.pos_iff_ne_zero.mp hsp
    simp [Phase.inPend, Phase.ticks, hn]
  | waiting e n =>
    exact congrArg (fun ph => (⟨ph, b⟩ : Status E)) (if_pos (statOf_bit b (typ e)))
  | timedOut e | aborted e =>
    simp only at hsp
    simp only [Phase.inPend, Phase.pendBit, if_neg (not_not.mpr (statOf_bit_none b (typ e))), hsp]
  | given e m =>
    simp only at hsp
    simp only [Phase.inPend, Phase.pendBit, if_neg (not_not.mpr (statOf_bit_none b (typ e))), hsp.1, hsp.2]

end Tcb.Is

/-! ## One task at a time -/

/-- The task `p` has moved on, and everything else is as it was. -/
structure MovesTo {E : Type} (k k' : Kernel E) (p : Prio) (os : Option (Status E)) : Prop where
  moves : Moves k k' p
  still : Still k k'
  shows : k'.Shows p os
  creating : ∀ c, k'.creating p = some c → k.creating p = some c

section
variable {E : Type} {k : Kernel E} {p : Prio} {s s' : Status E} {t t' : Tcb E}

theorem Kernel.Shows.tcb_some (h : k.Shows p (some s)) : ∃ t, k.tcb p = some t ∧ t.Is k.typ s := h.tcb

theorem Kernel.Shows.is (h : k.Shows p (some s)) (ht : k.tcb p = some t) : t.Is k.typ s := by
  obtain ⟨t', ht', hi⟩ := h.tcb_some
  obtain rfl : t' = t := Option.some.inj (ht'.symm.trans ht)
  exact hi

theorem Kernel.Shows.waits_iff (h : k.Shows p (some s)) (e : E) : p ∈ k.waits e ↔ s.phase.waitsFor = some e := by
  rw [h.waits e]
  simp

theorem Kernel.Shows.status_eq {os : Option (Status E)} (h : k.Shows p os) : k.status p = os := by
  cases os with
  | none =>
    have ht : k.tcb p = none := h.tcb
    simp [Kernel.status, ht]
  | some s =>
    obtain ⟨t, ht, hi⟩ := h.tcb_some
    simp [Kernel.status, ht, hi.status_eq]

theorem Kernel.creating_of_tcb (ht : k.tcb p = some t) : k.creating p = t.creating := by simp [Kernel.creating, ht]

/-- A new control block, with flags that agree with it. -/
theorem MovesTo.mk_some {k' : Kernel E} (hm : Moves k k' p) (hs : Still k k') (ht : k'.tcb p = some t')
    (hi : t'.Is k.typ s') (hr : p ∈ k'.osRdy ↔ s'.runnable = true)
    (hw : ∀ e, p ∈ k'.waits e ↔ s'.phase.waitsFor = some e) (hc : t'.creating = k.creating p) :
    MovesTo k k' p (some s') := by
  refine ⟨hm, hs, ⟨⟨t', ht, ?_⟩, hr, fun e => (hw e).trans (by simp)⟩, fun c => ?_⟩
  · rw [hm.typ_eq]
    exact hi
  · rw [Kernel.creating_of_tcb ht, hc]
    exact id

/-- A new control block with the same flags. -/
theorem movesTo_setTcb (h : k.Shows p (some s)) (hi : t'.Is k.typ s') (hr : s'.runnable = s.runnable)
    (hw : s'.phase.waitsFor = s.phase.waitsFor) (hc : t'.creating = k.creating p) :
    MovesTo k (k.setTcb p t') p (some s') := by
  refine .mk_some (k.moves_setTcb p t') ⟨rfl, rfl, rfl, rfl, rfl, rfl, rfl⟩ (k.tcb_setTcb p t') hi ?_
    (fun e => ?_) hc
  · rw [hr]
    exact h.rdy
  · rw [hw]
    exact h.waits_iff e

theorem moves_readyUnlessSuspended (k : Kernel E) (p : Prio) (t : Tcb E) :
    Moves k (readyUnlessSuspended k p t) p := by
  unfold readyUnlessSuspended
  split
  · exact (k.moves_setTcb p t).trans (Kernel.moves_makeReady _ p)
  · exact k.moves_setTcb p t

theorem still_readyUnlessSuspended (k : Kernel E) (p : Prio) (t : Tcb E) : Still k (readyUnlessSuspended k p t) := by
  unfold readyUnlessSuspended
  split <;> exact ⟨rfl, rfl, rfl, rfl, rfl, rfl, rfl⟩

theorem tcb_readyUnlessSuspended (k : Kernel E) (p : Prio) (t : Tcb E) :
    (readyUnlessSuspended k p t).tcb p = some t := by
  unfold readyUnlessSuspended
  split <;> simp

theorem waits_readyUnlessSuspended (k : Kernel E) (p : Prio) (t : Tcb E) (e : E) :
    (readyUnlessSuspended k p t).waits e = k.waits e := by
  unfold readyUnlessSuspended
  split <;> rfl

/-- The ready flag of a task that has just been woken. -/
theorem rdy_readyUnlessSuspended (h : k.Shows p (some s)) (hi : t'.Is k.typ s') (hs : s'.suspended = s.suspended)
    (ha : s'.phase.awake = true) : p ∈ (readyUnlessSuspended k p t').osRdy ↔ s'.runnable = true := by
  have hrun : s'.runnable = !s.suspended := by rw [Status.runnable, ha, hs, Bool.true_and]
  have hsus := hi.suspended_iff
  unfold readyUnlessSuspended
  rw [hrun]
  split
  · case isTrue hb =>
    rw [hs] at hsus
    simp [hsus.mp hb]
  · case isFalse hb =>
    have hst : s.suspended = true := by
      rw [← hs, ← Bool.not_eq_false]
      exact fun hf => hb (hsus.mpr hf)
    have hno : s.runnable = false := by rw [Status.runnable, hst, Bool.not_true, Bool.and_false]
    rw [Kernel.osRdy_setTcb, h.rdy]
    simp [hno, hst]

theorem movesTo_readyUnlessSuspended (h : k.Shows p (some s)) (hi : t'.Is k.typ s') (hs : s'.suspended = s.suspended)
    (ha : s'.phase.awake = true) (hw : s'.phase.waitsFor = s.phase.waitsFor) (hc : t'.creating = k.creating p) :
    MovesTo k (readyUnlessSuspended k p t') p (some s') := by
  refine .mk_some (moves_readyUnlessSuspended k p t') (still_readyUnlessSuspended k p t')
    (tcb_readyUnlessSuspended k p t') hi (rdy_readyUnlessSuspended h hi hs ha) (fun e => ?_) hc
  rw [waits_readyUnlessSuspended, hw]
  exact h.waits_iff e

/-! ## Time -/

theorem Phase.expire_awake (ph : Phase E) (h : ph.ticks ≠ 0) : ph.expire.awake = true := by
  cases ph with
  | delayed n | waiting e n => rfl
  | own | timedOut e | given e m | aborted e => exact absurd rfl h

theorem Phase.ticks_of_awake (ph : Phase E) (h : ph.awake = true) : ph.ticks = 0 := by
  cases ph with
  | delayed n | waiting e n => cases h
  | own | timedOut e | given e m | aborted e => rfl

theorem Phase.expire_waitsFor (ph : Phase E) : ph.expire.waitsFor = ph.waitsFor := by
  cases ph <;> rfl

theorem Tcb.expire_creating (t : Tcb E) : t.expire.creating = t.creating := by
  unfold Tcb.expire
  split <;> rfl

theorem movesTo_expire (h : k.Shows p (some s)) (ht : k.tcb p = some t) (hd : t.osTcbDly ≠ 0) :
    MovesTo k (readyUnlessSuspended k p t.expire) p (some ⟨s.phase.expire, s.suspended⟩) := by
  have hi := h.is ht
  have hd' : s.phase.ticks ≠ 0 := fun h0 => hd (hi.dly.trans h0)
  have hc : t.expire.creating = k.creating p := (t.expire_creating).trans (Kernel.creating_of_tcb ht).symm
  exact movesTo_readyUnlessSuspended h (hi.expire hd) rfl (s.phase.expire_awake hd') s.phase.expire_waitsFor hc

theorem Phase.tick_of_ticks_zero (ph : Phase E) (h : ph.ticks = 0) (hpos : ∀ n, ph = .delayed n → 0 < n) :
    ph.tick = ph := by
  cases ph with
  | delayed n => exact absurd h (hpos n rfl).ne'
  | waiting e n => exact if_pos h |>.trans (by rw [Phase.ticks] at h; rw [h])
  | own | timedOut e | given e m | aborted e => rfl

theorem Phase.tick_of_awake (ph : Phase E) (h : ph.awake = true) : ph.tick = ph := by
  cases ph with
  | delayed n | waiting e n => cases h
  | own | timedOut e | given e m | aborted e => rfl

theorem Phase.tick_waitsFor (ph : Phase E) : ph.tick.waitsFor = ph.waitsFor := by
  cases ph with
  | delayed n =>
    simp only [Phase.tick]
    split <;> rfl
  | waiting e n =>
    simp only [Phase.tick]
    split
    · rfl
    · split <;> rfl
  | own | timedOut e | given e m | aborted e => rfl

theorem Phase.tick_of_ticks_one (ph : Phase E) (h : ph.ticks = 1) : ph.tick = ph.expire := by
  cases ph with
  | delayed n => exact if_pos h
  | waiting e n =>
    simp only [Phase.ticks] at h
    simp [Phase.tick, Phase.expire, h]
  | own | timedOut e | given e m | aborted e => cases h

theorem Phase.tick_not_awake (ph : Phase E) (h : 1 < ph.ticks) :
    ph.tick.awake = ph.awake ∧ ph.tick.waitsFor = ph.waitsFor := by
  cases ph with
  | delayed n =>
    have hn : n ≠ 1 := Nat.ne_of_gt h
    simp [Phase.tick, hn, Phase.awake, Phase.waitsFor]
  | waiting e n =>
    have hn : n ≠ 1 := Nat.ne_of_gt h
    have h0 : n ≠ 0 := Nat.ne_of_gt (Nat.zero_lt_of_lt h)
    simp [Phase.tick, hn, h0, Phase.awake, Phase.waitsFor]
  | own | timedOut e | given e m | aborted e => exact absurd h (Nat.not_lt_zero 1)

theorem Tcb.expire_countdown (t : Tcb E) (n : Nat) : ({ t with osTcbDly := n } : Tcb E).expire = t.expire := rfl

theorem movesTo_tick (h : k.Shows p (some s)) :
    MovesTo k (osTimeTickTask k p) p (some ⟨s.phase.tick, s.suspended⟩) := by
  obtain ⟨t, ht, hi⟩ := h.tcb_some
  have hdly := hi.dly
  simp only [osTimeTickTask, ht]
  by_cases h0 : t.osTcbDly = 0
  · rw [if_neg (not_not.mpr h0)]
    have hpos : ∀ n, s.phase = .delayed n → 0 < n := by
      intro n hn
      have hsp := hi.statPend
      rw [hn] at hsp
      exact hsp
    have htick := s.phase.tick_of_ticks_zero (hdly.symm.trans h0) hpos
    rw [htick]
    exact ⟨Moves.refl k p, Still.refl k, h, fun _ => id⟩
  · rw [if_pos h0]
    by_cases h1 : t.osTcbDly = 1
    · rw [if_pos (by rw [h1]), Tcb.expire_countdown, s.phase.tick_of_ticks_one (hdly.symm.trans h1)]
      exact movesTo_expire h ht h0
    · rw [if_neg (by omega)]
      have hlt : 1 < s.phase.ticks := by omega
      obtain ⟨haw, hw⟩ := s.phase.tick_not_awake hlt
      refine movesTo_setTcb h (hi.countdown (by omega)) ?_ hw (Kernel.creating_of_tcb ht).symm
      simp only [Status.runnable, haw]

theorem movesTo_delay (h : k.Shows k.osPrioCur (some s)) (ht : k.tcb k.osPrioCur = some t) (ho : s.phase = .own)
    {n : Nat} (hn : 0 < n) :
    MovesTo k ((k.unready k.osPrioCur).setTcb k.osPrioCur { t with osTcbDly := n }) k.osPrioCur
      (some ⟨.delayed n, s.suspended⟩) := by
  have hi := (h.is ht).delay ho hn
  refine .mk_some ((k.moves_unready _).trans (Kernel.moves_setTcb _ _ _)) ⟨rfl, rfl, rfl, rfl, rfl, rfl, rfl⟩
    (Kernel.tcb_setTcb _ _ _) hi ?_ (fun e' => ?_) (Kernel.creating_of_tcb ht).symm
  · simp [Status.runnable, Phase.awake]
  · rw [Kernel.waits_setTcb, Kernel.waits_unready, h.waits_iff, ho]
    rfl

/-! ## Suspending and resuming -/

theorem movesTo_suspend (h : k.Shows p (some s)) (ht : k.tcb p = some t) :
    MovesTo k ((k.unready p).setTcb p { t with osTcbStat := t.osTcbStat ||| osStatSuspend }) p
      (some ⟨s.phase, true⟩) := by
  refine .mk_some ((k.moves_unready p).trans (Kernel.moves_setTcb _ _ _)) ⟨rfl, rfl, rfl, rfl, rfl, rfl, rfl⟩
    (Kernel.tcb_setTcb _ _ _) (h.is ht).suspend ?_ h.waits_iff (Kernel.creating_of_tcb ht).symm
  simp [Status.runnable]

theorem movesTo_resume (h : k.Shows p (some s)) (ht : k.tcb p = some t) {t' : Tcb E}
    (ht' : t' = { t with osTcbStat := t.osTcbStat &&& ~~~osStatSuspend }) {k' : Kernel E}
    (hk : k' = if t'.osTcbStat = osStatRdy ∧ t'.osTcbDly = 0 then (k.setTcb p t').makeReady p else k.setTcb p t')
    (hs : s.suspended = true) : MovesTo k k' p (some ⟨s.phase, false⟩) := by
  have hi : t'.Is k.typ ⟨s.phase, false⟩ := ht' ▸ (h.is ht).resume
  have hc : t'.creating = k.creating p := by
    rw [Kernel.creating_of_tcb ht, ht']
  have hno : p ∉ k.osRdy := by
    rw [h.rdy]
    simp [Status.runnable, hs]
  have hrun := hi.rdy_iff
  subst hk
  split
  · case isTrue hb =>
    refine .mk_some ((k.moves_setTcb p t').trans (Kernel.moves_makeReady _ p)) ⟨rfl, rfl, rfl, rfl, rfl, rfl, rfl⟩
      (k.tcb_setTcb p t') hi ?_ h.waits_iff hc
    simp [hrun.mp hb]
  · case isFalse hb =>
    refine .mk_some (k.moves_setTcb p t') ⟨rfl, rfl, rfl, rfl, rfl, rfl, rfl⟩ (k.tcb_setTcb p t') hi ?_
      h.waits_iff hc
    rw [hrun] at hb
    exact iff_of_false hno hb

end

section
variable {E : Type} {t : Tcb E} {s : Status E} {e : E}

/-! ## Waking -/

/-- Where `OS_EventTaskRdy` takes a task. -/
def StatPend.phase (e : E) (pmsg : Ptr) : StatPend → Phase E
  | .ok => .given e pmsg
  | .to => .timedOut e
  | .abort => .aborted e

/-- What `OS_EventTaskRdy` is called with. -/
def StatPend.Wakes (ps : StatPend) : Prop := ps = .ok ∨ ps = .abort

theorem Tcb.Is.wake {typ : E → EventType} (h : t.Is typ s) (hw : s.phase.waitsFor = some e) (pmsg : Ptr)
    {ps : StatPend} (hps : ps.Wakes) : (t.wake pmsg (typ e).stat ps).Is typ ⟨ps.phase e pmsg, s.suspended⟩ := by
  rcases hps with rfl | rfl
  · exact h.wake_given hw pmsg
  · exact h.wake_aborted hw pmsg

theorem Phase.wake_awake {ps : StatPend} (hps : ps.Wakes) (e : E) (pmsg : Ptr) :
    (ps.phase e pmsg).awake = true ∧ (ps.phase e pmsg).waitsFor = none := by
  rcases hps with rfl | rfl <;> exact ⟨rfl, rfl⟩

end

section
variable {E : Type} [DecidableEq E] {k : Kernel E} {p : Prio} {s : Status E} {t : Tcb E} {e : E}

theorem movesTo_wake (h : k.Shows p (some s)) (ht : k.tcb p = some t) (hw : s.phase.waitsFor = some e) (pmsg : Ptr)
    {ps : StatPend} (hps : ps.Wakes) :
    MovesTo k (osEventTaskRemove (readyUnlessSuspended k p (t.wake pmsg (k.typ e).stat ps)) p e) p
      (some ⟨ps.phase e pmsg, s.suspended⟩) := by
  have hi := (h.is ht).wake hw pmsg hps
  have hm := moves_readyUnlessSuspended k p (t.wake pmsg (k.typ e).stat ps)
  have hs := still_readyUnlessSuspended k p (t.wake pmsg (k.typ e).stat ps)
  have ha := Phase.wake_awake hps e pmsg
  refine .mk_some (hm.trans (Kernel.moves_remove _ p e)) (hs.trans ⟨rfl, rfl, rfl, rfl, rfl, rfl, rfl⟩)
    (tcb_readyUnlessSuspended k p _) hi (rdy_readyUnlessSuspended h hi rfl ha.1) (fun e' => ?_)
    (Kernel.creating_of_tcb ht).symm
  rw [osEventTaskRemove, Kernel.waits_setWaits, ha.2]
  split
  · simp [BitTable.mem_remove]
  · case isFalse he =>
    rw [waits_readyUnlessSuspended, h.waits_iff, hw]
    simpa using fun h => he h.symm

/-- The task that `OS_EventTaskRdy` finds. -/
theorem osEventTaskRdy_eq (ht : k.tcb p = some t) (hp : (k.waits e).highest osUnMap = p) (pmsg : Ptr) (msk : BitVec 8)
    (ps : StatPend) :
    osEventTaskRdy k e pmsg msk ps = (osEventTaskRemove (readyUnlessSuspended k p (t.wake pmsg msk ps)) p e, p) := by
  simp only [osEventTaskRdy, hp, ht]

/-! ## The task that runs -/

theorem movesTo_wait (h : k.Shows k.osPrioCur (some s)) (ht : k.tcb k.osPrioCur = some t) (ho : s.phase = .own)
    (n : Nat) :
    MovesTo k
      (osEventTaskWait k { t with
        osTcbStat := t.osTcbStat ||| (k.typ e).stat, osTcbStatPend := .ok, osTcbDly := n } e)
      k.osPrioCur (some ⟨.waiting e n, s.suspended⟩) := by
  have hi := (h.is ht).block ho e n
  refine .mk_some (((k.moves_setTcb _ _).trans (Kernel.moves_insert _ _ e)).trans (Kernel.moves_unready _ _))
    ⟨rfl, rfl, rfl, rfl, rfl, rfl, rfl⟩ (k.tcb_setTcb _ _) hi ?_ (fun e' => ?_) (Kernel.creating_of_tcb ht).symm
  · simp [osEventTaskWait, Status.runnable, Phase.awake]
  · rw [osEventTaskWait, Kernel.waits_unready, Kernel.waits_setWaits]
    split
    · case isTrue he => simp [BitTable.mem_insert, he, Phase.waitsFor]
    · case isFalse he =>
      rw [Kernel.waits_setTcb, h.waits_iff, ho]
      simpa [Phase.waitsFor] using fun h => he h.symm

theorem movesTo_ret (h : k.Shows k.osPrioCur (some s)) (ht : k.tcb k.osPrioCur = some t) (hr : s.runnable = true)
    (he : s.phase.inPend = some e) :
    MovesTo k (osPendReturn k t e).1 k.osPrioCur (some ⟨.own, false⟩) := by
  obtain ⟨ph, b⟩ := s
  have hi := h.is ht
  have hrdy : k.osPrioCur ∈ k.osRdy := h.rdy.mpr hr
  unfold osPendReturn
  by_cases hto : t.osTcbStatPend = .to
  · simp only [hto, if_true]
    refine .mk_some ((Kernel.moves_remove k _ e).trans (Kernel.moves_setTcb _ _ _))
      ⟨rfl, rfl, rfl, rfl, rfl, rfl, rfl⟩ (Kernel.tcb_setTcb _ _ _) (hi.ret hr _) ?_ (fun e' => ?_)
      (Kernel.creating_of_tcb ht).symm
    · exact ⟨fun _ => rfl, fun _ => hrdy⟩
    · rw [Kernel.waits_setTcb, osEventTaskRemove, Kernel.waits_setWaits]
      split
      · simp [BitTable.mem_remove, Phase.waitsFor]
      · case isFalse hne =>
        have hno : ph.waitsFor ≠ some e' := by
          cases ph with
          | waiting e₁ n | timedOut e₁ =>
            obtain rfl : e₁ = e := Option.some.inj he
            exact fun hc => hne (Option.some.inj hc).symm
          | own | delayed n | given e₁ m | aborted e₁ => exact nofun
        rw [h.waits_iff]
        exact iff_of_false hno nofun
  · simp only [hto, if_false]
    refine movesTo_setTcb h (hi.ret hr _) (hr ▸ rfl) ?_ (Kernel.creating_of_tcb ht).symm
    cases ph with
    | waiting e₁ n => cases hr
    | timedOut e₁ => exact absurd hi.statPend hto
    | own | delayed n | given e₁ m | aborted e₁ => rfl

end

end GizwitsSdk
