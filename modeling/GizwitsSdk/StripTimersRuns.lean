import GizwitsSdk.StripTimers

/-!
# Runs of the strip on its timers

A timer of the strip runs on the wheel exactly while the strip has it armed. So
a run with the timers of the kernel is a run of the strip, and the schedule
switches at the signals that its delays end at, day after day.
-/

namespace GizwitsSdk

open Lib

section
variable {ids : Bool → TmrId} {t t' : Timers StripCallback} {spokes spokes' : Fin 8 → List TmrId}
  {free free' rest rest' : List TmrId}
  {on on' : Bool} {s s' : StripSys}

/-- The timers of the strip are one-shot timers in use, and no other timer calls the strip back. -/
structure Owned (ids : Bool → TmrId) (t : Timers StripCallback) : Prop where
  apart : ids true ≠ ids false
  opt : ∀ on, (t.body (ids on)).osTmrOpt = osTmrOptOneShot
  used : ∀ on, (t.body (ids on)).osTmrState ≠ .unused
  callback : ∀ x on, (t.body x).osTmrCallback = some (.strip on) ↔ x = ids on

theorem Owned.inj (h : Owned ids t) : ids on = ids on' ↔ on = on' := by
  have := h.apart
  cases on <;> cases on' <;> simp [h.apart, Ne.symm h.apart]

def NstCall.timer : NstCall → Bool
  | set on _ => on
  | cancel on => on

/-- Where a timer stands right after a call that has left it so. -/
def Placed (t : Timers StripCallback) (rest : List TmrId) (id : TmrId) : Option UInt32 → Prop
  | some value => (t.body id).osTmrState = .running ∧ ticksLeft t rest id = (nstTicks value).toNat
  | none => (t.body id).osTmrState ≠ .running

theorem Placed.running_iff {id : TmrId} {o : Option UInt32} (h : Placed t rest id o) :
    (t.body id).osTmrState = .running ↔ o.isSome := by
  cases o with
  | none =>
    have hr : (t.body id).osTmrState ≠ .running := h
    simp [hr]
  | some value => simp [h.1]

theorem Placed.kept {id : TmrId} {o : Option UInt32} (h : Placed t rest id o) (hb : t'.body id = t.body id)
    (hl : ticksLeft t' rest' id = ticksLeft t rest id) : Placed t' rest' id o := by
  cases o with
  | none =>
    have hr : (t.body id).osTmrState ≠ .running := h
    rwa [Placed, hb]
  | some value => exact ⟨hb ▸ h.1, hl.trans h.2⟩

theorem ticksOf_nstTicks (value : UInt32) : ticksOf (nstTicks value) = (nstTicks value).toNat := by
  have hpos : nstTicks value ≠ 0 := by
    unfold nstTicks
    split
    · decide
    · assumption
  exact if_neg hpos

/-! ## Calls -/

/-- A call about one of the strip's timers that leaves its kind and the callbacks as they are. -/
theorem Owned.call (ho : Owned ids t) (hok : CallOk t t' rest rest' (some (ids on)))
    (hopt : (t'.body (ids on)).osTmrOpt = (t.body (ids on)).osTmrOpt) (hused : (t'.body (ids on)).osTmrState ≠ .unused)
    (hcb : ∀ x, (t'.body x).osTmrCallback = (t.body x).osTmrCallback) : Owned ids t' := by
  have hkept (on' : Bool) (hne : on' ≠ on) : t'.body (ids on') = t.body (ids on') := by
    refine (hok.kept (ids on') (fun e => hne ?_) (ho.used on')).body
    exact ho.inj.mp (Option.some.inj e).symm
  refine ⟨ho.apart, fun on' => ?_, fun on' => ?_, fun x on' => (hcb x).symm ▸ ho.callback x on'⟩
  · by_cases hne : on' = on
    · rw [hne, hopt, ho.opt]
    · rw [hkept on' hne, ho.opt]
  · by_cases hne : on' = on
    · rwa [hne]
    · rw [hkept on' hne]
      exact ho.used on'

theorem set_ok (h : TmrInv t spokes free rest) (ho : Owned ids t) (hp : t.ptmr ≠ some (some (ids on)))
    (value : UInt32) :
    ∃ spokes' free' rest', TmrInv (nstStart t (ids on) value).1 spokes' free' rest' ∧
      CallOk t (nstStart t (ids on) value).1 rest rest' (some (ids on)) ∧ Owned ids (nstStart t (ids on) value).1 ∧
      Placed (nstStart t (ids on) value).1 rest' (ids on) (some value) := by
  obtain ⟨spokes', free', rest', hinv, hok, harmed⟩ := nstStart_ok h hp value
  obtain ⟨hbody, hid⟩ := harmed (ho.used on)
  refine ⟨spokes', free', rest', hinv, hok, ho.call hok ?_ ?_ fun x => nstStart_callback h value, ?_, ?_⟩
  · rw [hbody]
    unfold OsTmr.nstSet
    split <;> rfl
  · rw [hbody]
    simp
  · rw [hbody]
  · exact (ticksLeft_linked hbody hok.time hid).trans (ticksOf_nstTicks value)

theorem cancel_ok (h : TmrInv t spokes free rest) (ho : Owned ids t) (hp : t.ptmr ≠ some (some (ids on))) :
    ∃ spokes' free' rest', TmrInv (nstCancelTimer t (some (ids on))) spokes' free' rest' ∧
      CallOk t (nstCancelTimer t (some (ids on))) rest rest' (some (ids on)) ∧
      Owned ids (nstCancelTimer t (some (ids on))) ∧ Placed (nstCancelTimer t (some (ids on))) rest' (ids on) none := by
  obtain ⟨spokes', free', rest', hinv, hok⟩ := stop_ok h hp osTmrOptNone fun c => c
  have hbody : (nstCancelTimer t (some (ids on))).body (ids on) = { t.body (ids on) with
      osTmrState := if (t.body (ids on)).osTmrState = .running then .stopped else (t.body (ids on)).osTmrState } := by
    rw [nstCancelTimer, stop_fst]
    by_cases hr : (t.osTmrTbl (ids on)).osTmrState = .running
    · have hr' : (t.body (ids on)).osTmrState = .running := hr
      rw [if_pos hr, if_pos hr', body_unlinked h]
    · have hr' : (t.body (ids on)).osTmrState ≠ .running := hr
      rw [if_neg hr, if_neg hr']
  refine ⟨spokes', free', rest', hinv, hok, ho.call hok ?_ ?_ fun x => stop_callback h _ _, ?_⟩
  · rw [hbody]
  · rw [hbody]
    dsimp only
    split
    · simp
    · exact ho.used on
  · rw [Placed, hbody]
    dsimp only
    split
    · simp
    · assumption

theorem nstCall_ok (h : TmrInv t spokes free rest) (ho : Owned ids t) (c : NstCall)
    (hp : t.ptmr ≠ some (some (ids c.timer))) :
    ∃ spokes' free' rest', TmrInv (nstCall (fun on => some (ids on)) t c) spokes' free' rest' ∧
      CallOk t (nstCall (fun on => some (ids on)) t c) rest rest' (some (ids c.timer)) ∧
      Owned ids (nstCall (fun on => some (ids on)) t c) ∧
      ∀ o, Placed (nstCall (fun on => some (ids on)) t c) rest' (ids c.timer) (c.leaves c.timer o) := by
  cases c with
  | set on value =>
    obtain ⟨spokes', free', rest', hinv, hok, hown, hplaced⟩ := set_ok h ho hp value
    have hleaves (o : Option UInt32) : (NstCall.set on value).leaves on o = some value := if_pos rfl
    exact ⟨spokes', free', rest', hinv, hok, hown, fun o => (hleaves o).symm ▸ hplaced⟩
  | cancel on =>
    obtain ⟨spokes', free', rest', hinv, hok, hown, hplaced⟩ := cancel_ok h ho hp
    have hleaves (o : Option UInt32) : (NstCall.cancel on).leaves on o = none := if_pos rfl
    exact ⟨spokes', free', rest', hinv, hok, hown, fun o => (hleaves o).symm ▸ hplaced⟩

/-- The calls about the other timer leave this one as it is. -/
theorem leaves_other (calls : List NstCall) (o : Option UInt32) (h : ∀ c ∈ calls, c.timer ≠ on) :
    calls.foldl (NstCall.leaves on) o = o := by
  induction calls generalizing o with
  | nil => rfl
  | cons c calls ih =>
    have hc : c.leaves on o = o := by
      have hne := h c List.mem_cons_self
      cases c with
      | set on' value => exact if_neg hne
      | cancel on' => exact if_neg hne
    rw [List.foldl_cons, hc]
    exact ih o fun c' hc' => h c' (List.mem_cons_of_mem c hc')

/-- What the calls of a function do: a timer that they are about stands where
the last of them has left it, and the other one where it was. -/
theorem nstCalls_ok (calls : List NstCall) (h : TmrInv t spokes free rest) (ho : Owned ids t)
    (hp : ∀ c ∈ calls, t.ptmr ≠ some (some (ids c.timer))) :
    ∃ spokes' free' rest', TmrInv (calls.foldl (nstCall fun on => some (ids on)) t) spokes' free' rest' ∧
      (calls.foldl (nstCall fun on => some (ids on)) t).osTmrTime = t.osTmrTime ∧
      Owned ids (calls.foldl (nstCall fun on => some (ids on)) t) ∧
      ∀ on, ((∀ c ∈ calls, c.timer ≠ on) →
          Kept t (calls.foldl (nstCall fun on => some (ids on)) t) rest rest' (ids on)) ∧
        ((∃ c ∈ calls, c.timer = on) → ∀ o, Placed (calls.foldl (nstCall fun on => some (ids on)) t) rest' (ids on)
          (calls.foldl (NstCall.leaves on) o)) := by
  induction calls generalizing t spokes free rest with
  | nil => exact ⟨_, _, _, h, rfl, ho, fun on => ⟨fun _ => Kept.refl t rest (ids on), fun ⟨_, hc, _⟩ => by cases hc⟩⟩
  | cons c calls ih =>
    obtain ⟨spokes₁, free₁, rest₁, hinv₁, hok₁, ho₁, hplaced₁⟩ := nstCall_ok h ho c (hp c List.mem_cons_self)
    have hp₁ : ∀ c' ∈ calls, (nstCall (fun on => some (ids on)) t c).ptmr ≠ some (some (ids c'.timer)) :=
      fun c' hc' => hok₁.ptmr ▸ hp c' (List.mem_cons_of_mem c hc')
    obtain ⟨spokes₂, free₂, rest₂, hinv₂, htime₂, ho₂, hcalls₂⟩ := ih hinv₁ ho₁ hp₁
    refine ⟨spokes₂, free₂, rest₂, hinv₂, htime₂.trans hok₁.time, ho₂, fun on => ⟨fun hnone => ?_, fun hsome o => ?_⟩⟩
    · have hne : some (ids c.timer) ≠ some (ids on) := fun e =>
        hnone c List.mem_cons_self (ho.inj.mp (Option.some.inj e))
      have hk₁ := hok₁.kept (ids on) hne (ho.used on)
      have hk₂ := (hcalls₂ on).1 fun c' hc' => hnone c' (List.mem_cons_of_mem c hc')
      exact ⟨hk₂.body.trans hk₁.body, hk₂.place.trans hk₁.place⟩
    · by_cases hlater : ∃ c' ∈ calls, c'.timer = on
      · exact (hcalls₂ on).2 hlater (c.leaves on o)
      · have hnone : ∀ c' ∈ calls, c'.timer ≠ on := fun c' hc' e => hlater ⟨c', hc', e⟩
        have hon : c.timer = on := by
          obtain ⟨c', hc', he⟩ := hsome
          rcases List.mem_cons.mp hc' with rfl | hc'
          · exact he
          · exact (hnone c' hc' he).elim
        have hk := (hcalls₂ on).1 hnone
        have hleaves : (c :: calls).foldl (NstCall.leaves on) o = c.leaves on o := leaves_other calls _ hnone
        rw [hleaves]
        subst hon
        exact (hplaced₁ o).kept hk.body (hk.ticksLeft htime₂)

/-! ## The invariant -/

/-- A timer of the strip runs while the strip has it armed. -/
structure StripOk (ids : Bool → TmrId) (s : StripSys) (spokes : Fin 8 → List TmrId) (free rest : List TmrId) :
    Prop where
  inv : TmrInv s.timers spokes free rest
  own : Owned ids s.timers
  handle : s.handle = fun on => some (ids on)
  armed : ∀ on, (s.timers.body (ids on)).osTmrState = .running ↔ (s.strip.timer on).isSome

/-- The week repeats, and the callback starts its timer again. -/
def StripSt.Repeats (s : StripSt) : Prop := s.status.weekRepeat ≠ 0 ∧ s.repeatFlag

instance (s : StripSt) : Decidable s.Repeats := inferInstanceAs (Decidable (_ ∧ _))

def dayTicks : UInt32 := nstTicks (24 * 60 * 1000 * 60)

/-- What a step without a frame makes of a timer of the strip. -/
inductive StripMove (s s' : StripSys) (rest rest' : List TmrId) (id : TmrId) : Nat → Nat → Prop
  | kept (hb : s'.timers.body id = s.timers.body id) (hl : ticksLeft s'.timers rest' id = ticksLeft s.timers rest id) :
    StripMove s s' rest rest' id 0 0
  | tick (hb : s'.timers.body id = s.timers.body id) (hl : (s.timers.body id).osTmrState = .running →
      ticksLeft s.timers rest id = ticksLeft s'.timers rest' id + 1) : StripMove s s' rest rest' id 1 0
  | again (hr : (s.timers.body id).osTmrState = .running) (h0 : ticksLeft s.timers rest id = 0)
    (hrep : s.strip.Repeats) (hr' : (s'.timers.body id).osTmrState = .running)
    (hl : ticksLeft s'.timers rest' id = dayTicks.toNat) : StripMove s s' rest rest' id 0 1
  | last (hr : (s.timers.body id).osTmrState = .running) (h0 : ticksLeft s.timers rest id = 0)
    (hrep : ¬ s.strip.Repeats) (hr' : (s'.timers.body id).osTmrState = .completed) : StripMove s s' rest rest' id 0 1

def StripAct.ticks : StripAct → Nat
  | .signal => 1
  | _ => 0

def fires (on : Bool) : Option StripEv → Nat
  | some (.timerOn _) => if on then 1 else 0
  | some (.timerOff _) => if on then 0 else 1
  | _ => 0

theorem fires_timer (on on' : Bool) (ticks : UInt32) : fires on' (some (.timer on ticks)) = if on' = on then 1 else 0 := by
  cases on <;> cases on' <;> rfl

theorem stripStep_timer {st : StripSt} (on : Bool) (ticks : UInt32) (h : (st.timer on).isSome) :
    stripStep st (.timer on ticks) = if on then timerOnTask ticks { st with timerOn := none }
      else timerOffTask ticks { st with timerOff := none } := by
  cases on with
  | true => exact if_pos h
  | false => exact if_pos h

/-- After the calls the timers run as the calls leave them. -/
theorem armed_calls (calls : List NstCall) {o : Bool → Option UInt32}
    (harmed : ∀ on, (t.body (ids on)).osTmrState = .running ↔ (o on).isSome)
    (hkept : ∀ on, (∀ c ∈ calls, c.timer ≠ on) → Kept t t' rest rest' (ids on))
    (hplaced : ∀ on, (∃ c ∈ calls, c.timer = on) → ∀ o, Placed t' rest' (ids on) (calls.foldl (NstCall.leaves on) o))
    (on : Bool) :
    (t'.body (ids on)).osTmrState = .running ↔ (calls.foldl (NstCall.leaves on) (o on)).isSome := by
  by_cases h : ∃ c ∈ calls, c.timer = on
  · exact (hplaced on h (o on)).running_iff
  · have hnone : ∀ c ∈ calls, c.timer ≠ on := fun c hc e => h ⟨c, hc, e⟩
    rw [leaves_other calls (o on) hnone, (hkept on hnone).body]
    exact harmed on

/-! ## Steps -/

theorem frame_ok (h : StripOk ids s spokes free rest) (hidle : s.timers.ptmr = none) (attrFlags : UInt8)
    (ctrl : Nat → UInt8) (ticks : UInt32) :
    ∃ spokes' free' rest', StripOk ids { s with
      strip := stripDataParse attrFlags ctrl ticks s.strip
      timers := (frameCalls attrFlags ctrl ticks s.strip.status).foldl (nstCall s.handle) s.timers }
      spokes' free' rest' ∧
      ∀ on, (∃ c ∈ frameCalls attrFlags ctrl ticks s.strip.status, c.timer = on) →
        Placed ((frameCalls attrFlags ctrl ticks s.strip.status).foldl (nstCall s.handle) s.timers) rest' (ids on)
          ((stripDataParse attrFlags ctrl ticks s.strip).timer on) := by
  obtain ⟨spokes', free', rest', hinv, -, hown, hcalls⟩ :=
    nstCalls_ok (frameCalls attrFlags ctrl ticks s.strip.status) h.inv h.own fun c _ => by simp [hidle]
  refine ⟨spokes', free', rest', ⟨?_, ?_, h.handle, fun on => ?_⟩, fun on hc => ?_⟩
  · rw [h.handle]
    exact hinv
  · rw [h.handle]
    exact hown
  · rw [h.handle, ← frameCalls_leaves]
    exact armed_calls _ h.armed (fun on => (hcalls on).1) (fun on => (hcalls on).2) on
  · rw [h.handle, ← frameCalls_leaves]
    exact (hcalls on).2 hc _

/-- The flags with which a frame sets or cancels the timer. -/
theorem frame_touches {attrFlags : UInt8} (h : isSet attrFlags 0x02 ∨ isSet attrFlags (if on then 0x10 else 0x20))
    (ctrl : Nat → UInt8) (ticks : UInt32) (st : SocketStatus) :
    ∃ c ∈ frameCalls attrFlags ctrl ticks st, c.timer = on := by
  unfold frameCalls
  rcases h with h | h
  · rw [if_pos h]
    split
    · cases on with
      | true => exact ⟨_, List.mem_append_left _ (List.mem_append_left _ List.mem_cons_self), rfl⟩
      | false =>
        exact ⟨_, List.mem_append_left _ (List.mem_append_left _ (List.mem_cons_of_mem _ List.mem_cons_self)), rfl⟩
    · cases on with
      | true => exact ⟨_, List.mem_append_left _ (List.mem_append_left _ List.mem_cons_self), rfl⟩
      | false =>
        exact ⟨_, List.mem_append_left _ (List.mem_append_left _ (List.mem_cons_of_mem _ List.mem_cons_self)), rfl⟩
  · cases on with
    | true =>
      rw [if_pos rfl] at h
      refine ⟨.set true (timingValue ticks (decodeInt16 (ctrl 2, ctrl 3))),
        List.mem_append_left _ (List.mem_append_right _ ?_), rfl⟩
      rw [if_pos h]
      exact List.mem_cons_self
    | false =>
      rw [if_neg Bool.false_ne_true] at h
      refine ⟨.set false (timingValue ticks (decodeInt16 (ctrl 4, ctrl 5))), List.mem_append_right _ ?_, rfl⟩
      rw [if_pos h]
      exact List.mem_cons_self

theorem other_ok (h : StripOk ids s spokes free rest) (c : TmrCall StripCallback) (hf : (StripAct.other c).Fair s) :
    ∃ spokes' free' rest', StripOk ids { s with timers := (c.exec s.timers).1 } spokes' free' rest' ∧
      ∀ on, StripMove s { s with timers := (c.exec s.timers).1 } rest rest' (ids on) 0 0 := by
  obtain ⟨hspares, habout, hcb⟩ := hf
  obtain ⟨spokes', free', rest', hinv, hok⟩ := exec_ok h.inv c hspares
  have hkept (on : Bool) : Kept s.timers (c.exec s.timers).1 rest rest' (ids on) :=
    hok.kept (ids on) (habout on (ids on) (by rw [h.handle])) (h.own.used on)
  refine ⟨spokes', free', rest', ⟨hinv, ⟨h.own.apart, fun on => ?_, fun on => ?_, fun x on => ?_⟩, h.handle,
    fun on => ?_⟩, fun on => .kept (hkept on).body ((hkept on).ticksLeft hok.time)⟩
  · rw [(hkept on).body]
    exact h.own.opt on
  · rw [(hkept on).body]
    exact h.own.used on
  · constructor
    · intro hx
      rcases exec_callback h.inv c x with he | he | he
      · exact (h.own.callback x on).mp (he.symm.trans hx)
      · cases he.symm.trans hx
      · exact (hcb on (he.symm.trans hx)).elim
    · rintro rfl
      rw [(hkept on).body]
      exact (h.own.callback _ on).mpr rfl
  · rw [(hkept on).body]
    exact h.armed on

theorem callbackCalls_timer {c : NstCall} {st : StripSt} (hc : c ∈ callbackCalls on st) : c.timer = on := by
  unfold callbackCalls at hc
  split at hc
  · rw [List.mem_singleton.mp hc]
    rfl
  · cases hc

/-- The callback of a timer that has just expired. -/
theorem callback_ok (st : StripSt) (on : Bool) (hinv : TmrInv t spokes free rest) (ho : Owned ids t)
    (hdone : (t.body (ids on)).osTmrState = .completed)
    (harmed : ∀ on', on' ≠ on → ((t.body (ids on')).osTmrState = .running ↔ (st.timer on').isSome)) (ticks : UInt32) :
    ∃ spokes' free' rest',
      StripOk ids (stripCallback on ticks ⟨st, t, fun on => some (ids on)⟩) spokes' free' rest' ∧
      (stripCallback on ticks ⟨st, t, fun on => some (ids on)⟩).timers.osTmrTime = t.osTmrTime ∧
      (∀ on', on' ≠ on → Kept t (stripCallback on ticks ⟨st, t, fun on => some (ids on)⟩).timers rest rest' (ids on')) ∧
      if st.Repeats then
        Placed (stripCallback on ticks ⟨st, t, fun on => some (ids on)⟩).timers rest' (ids on) (some (24 * 60 * 1000 * 60))
      else ((stripCallback on ticks ⟨st, t, fun on => some (ids on)⟩).timers.body (ids on)).osTmrState = .completed := by
  have hp : t.ptmr ≠ some (some (ids on)) := by
    intro e
    obtain ⟨rest', rfl⟩ := hinv.rest_cons e
    have hrun := hinv.running_of_rest (x := ids on) List.mem_cons_self
    rw [hdone] at hrun
    cases hrun
  obtain ⟨spokes', free', rest', hinv', htime, hown, hcalls⟩ :=
    nstCalls_ok (callbackCalls on st) hinv ho fun c hc => callbackCalls_timer hc ▸ hp
  refine ⟨spokes', free', rest', ⟨hinv', hown, rfl, fun on' => ?_⟩, htime, fun on' hne => ?_, ?_⟩
  · have hbefore (on' : Bool) : (t.body (ids on')).osTmrState = .running ↔
        (if on' = on then none else st.timer on').isSome := by
      split
      · case isTrue he => simp [he, hdone]
      · case isFalse he => exact harmed on' he
    have hafter := armed_calls _ hbefore (fun on => (hcalls on).1) (fun on => (hcalls on).2) on'
    rw [callbackCalls_leaves on on' ticks st] at hafter
    exact hafter
  · exact (hcalls on').1 fun c hc e => hne ((callbackCalls_timer hc).symm.trans e).symm
  · split
    · case isTrue hrep =>
      have hcall : callbackCalls on st = [.set on (24 * 60 * 1000 * 60)] := if_pos hrep
      have hplaced := (hcalls on).2 ⟨.set on (24 * 60 * 1000 * 60), by rw [hcall]; exact List.mem_cons_self, rfl⟩ none
      have hleaves : (callbackCalls on st).foldl (NstCall.leaves on) none = some (24 * 60 * 1000 * 60) := by
        rw [hcall]
        exact if_pos rfl
      rwa [hleaves] at hplaced
    · case isFalse hrep =>
      have hcall : callbackCalls on st = [] := if_neg hrep
      have hkept := (hcalls on).1 fun c hc => by
        rw [hcall] at hc
        cases hc
      exact congrArg OsTmr.osTmrState hkept.body |>.trans hdone

/-- A turn that does not call the strip back. -/
theorem quiet_turn (h : StripOk ids s spokes free rest) (hinv : TmrInv t' spokes' free' rest')
    (hcb : ∀ x, (t'.body x).osTmrCallback = (s.timers.body x).osTmrCallback)
    (hbody : ∀ on, t'.body (ids on) = s.timers.body (ids on)) :
    StripOk ids { s with timers := t' } spokes' free' rest' where
  inv := hinv
  own := {
    apart := h.own.apart
    opt on := by rw [hbody, h.own.opt]
    used on := by
      rw [hbody]
      exact h.own.used on
    callback x on := by rw [hcb, h.own.callback] }
  handle := h.handle
  armed on := by
    rw [hbody]
    exact h.armed on

/-- The strip's own timer has expired and calls it back. -/
theorem expiry_ok (h : StripOk ids s spokes free (ids on :: rest)) (ticks : UInt32)
    (hm : s.timers.osTmrTime = (s.timers.body (ids on)).osTmrMatch) :
    (osTmrTurn s.timers (ids on)).2.called = some (.strip on) ∧
      ∃ spokes' free' rest',
        StripOk ids (stripCallback on ticks { s with timers := (osTmrTurn s.timers (ids on)).1 }) spokes' free' rest' ∧
        (stripCallback on ticks { s with timers := (osTmrTurn s.timers (ids on)).1 }).strip =
          stripStep s.strip (.timer on ticks) ∧
        ∀ on', StripMove s (stripCallback on ticks { s with timers := (osTmrTurn s.timers (ids on)).1 })
          (ids on :: rest) rest' (ids on') 0 (fires on' (some (.timer on ticks))) := by
  obtain ⟨hid, -⟩ := List.nodup_cons.mp h.inv.rest_nodup
  have hrun := h.inv.running_of_rest (x := ids on) List.mem_cons_self
  have hcb : (s.timers.body (ids on)).osTmrCallback = some (.strip on) := (h.own.callback _ on).mpr rfl
  obtain ⟨spokes₁, hinv₁, hret, htime₁, hother, hown⟩ := turn_due h.inv hm
  rw [if_neg (by rw [h.own.opt]; decide)] at hown
  have hne {on' : Bool} (hne : on' ≠ on) : ids on' ≠ ids on := fun e => hne (h.own.inj.mp e)
  have hown₁ : Owned ids (osTmrTurn s.timers (ids on)).1 := by
    refine ⟨h.own.apart, fun on' => ?_, fun on' => ?_, fun x on' => ?_⟩
    · by_cases he : on' = on
      · rw [he, hown, h.own.opt]
      · rw [hother _ (hne he), h.own.opt]
    · by_cases he : on' = on
      · rw [he, hown]
        simp
      · rw [hother _ (hne he)]
        exact h.own.used on'
    · by_cases he : x = ids on
      · rw [he, hown]
        exact h.own.callback (ids on) on'
      · rw [hother _ he]
        exact h.own.callback x on'
  obtain ⟨spokes', free', rest', hok, htime, hkept, hafter⟩ := callback_ok s.strip on hinv₁ hown₁
    (by rw [hown]) (fun on' he => by rw [hother _ (hne he)]; exact h.armed on') ticks
  rw [← h.handle] at hok htime hkept hafter
  refine ⟨by rw [hret, hcb], spokes', free', rest', hok,
    (stripStep_timer on ticks ((h.armed on).mp hrun)).symm, fun on' => ?_⟩
  rw [fires_timer]
  by_cases he : on' = on
  · subst he
    rw [if_pos rfl]
    have h0 : ticksLeft s.timers (ids on' :: rest) (ids on') = 0 := ticksLeft_due hm List.mem_cons_self
    split at hafter
    · case isTrue hrep => exact .again hrun h0 hrep hafter.1 hafter.2
    · case isFalse hrep => exact .last hrun h0 hrep hafter
  · rw [if_neg he]
    have hplace : ids on' ∈ rest ↔ ids on' ∈ ids on :: rest := by simp [hne he]
    have hk : Kept s.timers _ (ids on :: rest) rest' (ids on') :=
      ⟨(hkept on' he).body.trans (hother _ (hne he)), (hkept on' he).place.trans hplace⟩
    exact .kept hk.body (hk.ticksLeft (htime.trans htime₁))

theorem turn_ok {o : Option StripEv} {ticks : UInt32} (h : StripOk ids s spokes free rest)
    (hs : stripSysStep s (.turn ticks) = some (s', o)) :
    ∃ spokes' free' rest', StripOk ids s' spokes' free' rest' ∧ s'.strip = o.elim s.strip (stripStep s.strip) ∧
      ∀ on, StripMove s s' rest rest' (ids on) 0 (fires on o) := by
  obtain ⟨r, hr, heq⟩ := Option.map_eq_some_iff.mp hs
  obtain ⟨x, hx, h₁, h₂⟩ := turn_inv (hr : tmrStep s.timers .turn = some (r.1, r.2))
  obtain ⟨rest, rfl⟩ := h.inv.rest_cons hx
  obtain ⟨hid, -⟩ := List.nodup_cons.mp h.inv.rest_nodup
  rw [h₁, h₂] at heq
  by_cases hm : s.timers.osTmrTime = (s.timers.body x).osTmrMatch
  · by_cases hstrip : ∃ on, x = ids on
    · obtain ⟨on, rfl⟩ := hstrip
      obtain ⟨hcalled, spokes', free', rest', hok, hstep, hmove⟩ := expiry_ok h ticks hm
      rw [hcalled] at heq
      obtain ⟨rfl, rfl⟩ := Prod.mk.inj heq
      exact ⟨spokes', free', rest', hok, hstep, hmove⟩
    · obtain ⟨spokes', hinv, hret, htime, hother, hown⟩ := turn_due h.inv hm
      have hne (on : Bool) : ids on ≠ x := fun e => hstrip ⟨on, e.symm⟩
      have hquiet (on : Bool) : (s.timers.body x).osTmrCallback ≠ some (.strip on) := fun e =>
        hstrip ⟨on, (h.own.callback x on).mp e⟩
      have hsys : s' = { s with timers := (osTmrTurn s.timers x).1 } ∧ o = none := by
        rw [hret] at heq
        split at heq
        · case h_1 on hcalled => exact (hquiet on hcalled).elim
        · exact ⟨(congrArg Prod.fst heq).symm, (congrArg Prod.snd heq).symm⟩
      obtain ⟨rfl, rfl⟩ := hsys
      refine ⟨spokes', _, rest, quiet_turn h hinv (fun y => ?_) fun on => hother _ (hne on), rfl, fun on => ?_⟩
      · by_cases hy : y = x
        · subst hy
          rw [hown]
          split <;> rfl
        · rw [hother y hy]
      · have hk : Kept s.timers (osTmrTurn s.timers x).1 (x :: rest) rest (ids on) :=
          ⟨hother _ (hne on), by simp [hne on]⟩
        exact .kept hk.body (hk.ticksLeft htime)
  · obtain ⟨hinv, hturn⟩ := turn_early h.inv hm
    rw [hturn] at heq hinv
    obtain ⟨rfl, rfl⟩ := Prod.mk.inj heq
    refine ⟨spokes, _, rest, quiet_turn h hinv (fun _ => rfl) fun _ => rfl, rfl, fun on => .kept rfl ?_⟩
    by_cases hon : ids on = x
    · rw [hon]
      exact (ticksLeft_early fun e => absurd e hm).trans (ticksLeft_early fun e => absurd e hm).symm
    · exact Kept.ticksLeft ⟨rfl, by simp [hon]⟩ rfl

/-- Every fair step keeps the strip and its timers in line. -/
theorem stripSys_step {a : StripAct} {o : Option StripEv} (h : StripOk ids s spokes free rest)
    (hs : stripSysStep s a = some (s', o)) (hf : a.Fair s) :
    ∃ spokes' free' rest', StripOk ids s' spokes' free' rest' ∧ s'.strip = o.elim s.strip (stripStep s.strip) ∧
      ((∀ f c n, a ≠ .frame f c n) → ∀ on, StripMove s s' rest rest' (ids on) a.ticks (fires on o)) := by
  cases a with
  | frame attrFlags ctrl ticks =>
    obtain ⟨hidle, hs⟩ := Option.ite_none_right_eq_some.mp hs
    obtain ⟨rfl, rfl⟩ := Prod.mk.inj (Option.some.inj hs)
    obtain ⟨_, _, _, hok, -⟩ := frame_ok h hidle attrFlags ctrl ticks
    exact ⟨_, _, _, hok, rfl, fun hne => (hne attrFlags ctrl ticks rfl).elim⟩
  | button gpio10 gpio10' =>
    obtain ⟨-, hs⟩ := Option.ite_none_right_eq_some.mp hs
    obtain ⟨rfl, rfl⟩ := Prod.mk.inj (Option.some.inj hs)
    have htimer (on : Bool) : (checkSocket gpio10 gpio10' s.strip).timer on = s.strip.timer on := by
      unfold checkSocket
      split <;> rfl
    refine ⟨_, _, _, ⟨h.inv, h.own, h.handle, fun on => ?_⟩, rfl, fun _ on => .kept rfl rfl⟩
    rw [htimer]
    exact h.armed on
  | signal =>
    obtain ⟨r, hr, heq⟩ := Option.map_eq_some_iff.mp hs
    obtain ⟨hidle, hr⟩ := Option.ite_none_right_eq_some.mp hr
    obtain rfl := Option.some.inj hr
    obtain ⟨rfl, rfl⟩ := Prod.mk.inj heq
    obtain rfl := h.inv.rest_nil (by rw [hidle]; rfl)
    refine ⟨_, _, _, quiet_turn h (tick_inv h.inv) (fun _ => rfl) fun _ => rfl, rfl, fun _ on => ?_⟩
    have hmove := (tick_step h.inv).move (ids on) (h.own.used on) trivial
    cases hmove with
    | tick hb hl => exact .tick hb hl
  | turn ticks =>
    obtain ⟨spokes', free', rest', hok, hstrip, hmove⟩ := turn_ok h hs
    exact ⟨spokes', free', rest', hok, hstrip, fun _ => hmove⟩
  | finish =>
    obtain ⟨r, hr, heq⟩ := Option.map_eq_some_iff.mp hs
    obtain ⟨hidle, hr⟩ := Option.ite_none_right_eq_some.mp hr
    obtain rfl := Option.some.inj hr
    obtain ⟨rfl, rfl⟩ := Prod.mk.inj heq
    obtain rfl := h.inv.rest_nil (by rw [hidle]; rfl)
    exact ⟨_, _, _, quiet_turn h (finish_inv h.inv) (fun _ => rfl) fun _ => rfl, rfl, fun _ on => .kept rfl rfl⟩
  | other c =>
    obtain ⟨rfl, rfl⟩ := Prod.mk.inj (Option.some.inj hs)
    obtain ⟨spokes', free', rest', hok, hmove⟩ := other_ok h c hf
    exact ⟨spokes', free', rest', hok, rfl, fun _ => hmove⟩

/-! ## The start -/

theorem create_new (h : TmrInv t spokes (x :: free) rest) (dly period : UInt32) (opt : UInt8)
    (callback : Option StripCallback) :
    (osTmrCreate t dly period opt callback).2.ptmr = some x ∧
      TmrInv (osTmrCreate t dly period opt callback).1 spokes free rest ∧
      (osTmrCreate t dly period opt callback).1.body x = { t.body x with
        osTmrState := .stopped, osTmrDly := dly, osTmrPeriod := period, osTmrOpt := opt, osTmrCallback := callback } ∧
      ∀ y, y ≠ x → (osTmrCreate t dly period opt callback).1.body y = t.body y := by
  have hf : t.osTmrFreeList = some x := h.reads.1
  obtain ⟨free', hfree, hok⟩ := h.toWheelOk.create dly period opt callback hf
  obtain rfl := (List.cons.inj hfree).2
  have htbl := osTmrCreate_tbl dly period opt callback hf
  have hrest : (osTmrCreate t dly period opt callback).1.osTmrTime = t.osTmrTime ∧
      (osTmrCreate t dly period opt callback).1.ptmr = t.ptmr := by
    simp [osTmrCreate, osTmrAlloc, hf, Timers.setTmr]
  refine ⟨by simp [osTmrCreate, osTmrAlloc, hf], ⟨hok, hrest.2 ▸ h.ahead, hrest.1 ▸ h.suffix⟩, ?_, fun y hy => ?_⟩
  · rw [Timers.body, htbl, Function.update_self]
    rfl
  · exact body_of_tbl (by rw [htbl, Function.update_of_ne hy])

theorem stripSysInit_ok (h : TmrInv t spokes free rest) (hfree : 2 ≤ free.length)
    (hcb : ∀ x on, (t.osTmrTbl x).osTmrCallback ≠ some (.strip on)) :
    ∃ ids spokes free rest, StripOk ids (stripSysInit t) spokes free rest := by
  match free, hfree with
  | y :: z :: free', _ =>
    have hyz : z ≠ y := fun e => (List.nodup_cons.mp h.freeNodup).1 (e ▸ List.mem_cons_self)
    obtain ⟨hp₁, hinv₁, hown₁, hother₁⟩ := create_new h 0 0 osTmrOptOneShot (some (.strip true))
    have hinit : stripSysInit t =
        (let t₁ := (osTmrCreate t 0 0 osTmrOptOneShot (some (.strip true))).1
        let t₂ := (osTmrCreate t₁ 0 0 osTmrOptOneShot (some (.strip false))).1
        { strip := stripInit
          timers := (osTmrCreate t₂ 0 0 osTmrOptOneShot (some .countDown)).1
          handle := fun on => if on then (osTmrCreate t 0 0 osTmrOptOneShot (some (.strip true))).2.ptmr
            else (osTmrCreate t₁ 0 0 osTmrOptOneShot (some (.strip false))).2.ptmr }) := rfl
    rw [hinit]
    dsimp only
    rw [hp₁]
    generalize (osTmrCreate t 0 0 osTmrOptOneShot (some (.strip true))).1 = t₁ at *
    obtain ⟨hp₂, hinv₂, hown₂, hother₂⟩ := create_new hinv₁ 0 0 osTmrOptOneShot (some (.strip false))
    rw [hp₂]
    generalize (osTmrCreate t₁ 0 0 osTmrOptOneShot (some (.strip false))).1 = t₂ at *
    have hy₂ : t₂.body y = t₁.body y := hother₂ y hyz.symm
    have hcb₂ (x : TmrId) (on : Bool) :
        (t₂.body x).osTmrCallback = some (.strip on) ↔ x = if on then y else z := by
      by_cases hz : x = z
      · rw [hz, hown₂]
        cases on <;> simp [hyz]
      · rw [hother₂ x hz]
        by_cases hy : x = y
        · rw [hy, hown₁]
          cases on <;> simp [hyz.symm]
        · rw [hother₁ x hy]
          have hnone : (t.body x).osTmrCallback ≠ some (.strip on) := hcb x on
          cases on <;> simp [hnone, hz, hy]
    have hused (on : Bool) : (t₂.body (if on then y else z)).osTmrState = .stopped := by
      cases on with
      | true => rw [if_pos rfl, hy₂, hown₁]
      | false => rw [if_neg Bool.false_ne_true, hown₂]
    have hopt (on : Bool) : (t₂.body (if on then y else z)).osTmrOpt = osTmrOptOneShot := by
      cases on with
      | true => rw [if_pos rfl, hy₂, hown₁]
      | false => rw [if_neg Bool.false_ne_true, hown₂]
    obtain ⟨spokes₃, free₃, rest₃, hinv₃, hok₃⟩ := create_ok hinv₂ 0 0 osTmrOptOneShot (some .countDown)
    have hcb₃ := exec_callback hinv₂ (.create 0 0 osTmrOptOneShot (some .countDown))
    have hkept (on : Bool) := hok₃.kept (if on then y else z) (by simp) (by rw [hused]; simp)
    refine ⟨fun on => if on then y else z, spokes₃, free₃, rest₃, hinv₃, ⟨?_, fun on => ?_, fun on => ?_, fun x on => ?_⟩,
      ?_, fun on => ?_⟩
    · exact hyz.symm
    · rw [(hkept on).body, hopt]
    · rw [(hkept on).body, hused]
      simp
    · constructor
      · intro hx
        rcases hcb₃ x with he | he | he
        · exact (hcb₂ x on).mp (he.symm.trans hx)
        · cases he.symm.trans hx
        · cases he.symm.trans hx
      · rintro rfl
        rw [(hkept on).body]
        exact (hcb₂ _ on).mpr rfl
    · funext on
      cases on <;> rfl
    · rw [(hkept on).body, hused]
      cases on <;> simp [StripSt.timer, stripInit]

/-! ## Runs -/

/-- A run from `strip_init` on, with timers that others have used before. -/
structure StripRun (t : Timers StripCallback) (l : List (StripSys × StripAct × Option StripEv)) (s : StripSys) :
    Prop where
  before : ∃ l, TmrRun l t
  room : 2 ≤ t.osTmrFree.toNat
  apart : ∀ x on, (t.osTmrTbl x).osTmrCallback ≠ some (.strip on)
  trace : Trace stripSysStep (stripSysInit t) l s
  fair : ∀ e ∈ l, e.2.1.Fair e.1

variable {l before after : List (StripSys × StripAct × Option StripEv)} {s₀ s₁ s₂ : StripSys}

theorem StripRun.ok (h : StripRun t l s) :
    (∃ ids spokes free rest, StripOk ids s spokes free rest) ∧
      s.strip = run stripStep stripInit (l.filterMap fun e => e.2.2) := by
  obtain ⟨lb, hb⟩ := h.before
  obtain ⟨spokes, free, rest, hinv⟩ := hb.inv
  have hinit := stripSysInit_ok hinv (hinv.freeCount ▸ h.room) h.apart
  refine h.trace.along (R := fun s a _ => a.Fair s) (H := fun l s =>
    (∃ ids spokes free rest, StripOk ids s spokes free rest) ∧
      s.strip = run stripStep stripInit (l.filterMap fun e => e.2.2))
    (fun l s a s' o ⟨⟨_, _, _, _, hok⟩, hrun⟩ hf hs => ?_) ⟨hinit, rfl⟩ h.fair
  obtain ⟨_, _, _, hok', hstrip, -⟩ := stripSys_step hok hs hf
  refine ⟨⟨_, _, _, _, hok'⟩, ?_⟩
  rw [hstrip, hrun, List.filterMap_append]
  cases o with
  | none => simp
  | some e =>
    have hone : [(s, a, some e)].filterMap (fun e => e.2.2) = [e] := rfl
    rw [hone, run_snoc]
    rfl

/-- A run with the timers of the kernel is a run of the strip, and the timers
that run are those that the strip has armed. -/
theorem strip_refines (h : StripRun t l s) :
    s.strip = run stripStep stripInit (l.filterMap fun e => e.2.2) ∧
      ∀ on, ∃ id, s.handle on = some id ∧
        ((s.timers.osTmrTbl id).osTmrState = .running ↔ (s.strip.timer on).isSome) := by
  obtain ⟨⟨ids, _, _, _, hok⟩, hrun⟩ := h.ok
  exact ⟨hrun, fun on => ⟨ids on, by rw [hok.handle], hok.armed on⟩⟩

/-- A frame that sets `Time_On_Minute` to the minute that it is, and the week to repeat. -/
def armsNowEvent : StripEv := .frame 0x18 (fun i => if i = 1 then 0x7f else if i = 2 then 0x01 else 0xe0) 0

def armsNow : StripAct := .frame 0x18 (fun i => if i = 1 then 0x7f else if i = 2 then 0x01 else 0xe0) 0

theorem strip_refines_armsNow : ∃ s l, StripRun osTmrInit l s ∧ s.strip.timerOn.isSome ∧
    ∃ id, s.handle true = some id ∧ (s.timers.osTmrTbl id).osTmrState = .running := by
  have htrace : Trace stripSysStep (stripSysInit osTmrInit) _ _ := trace_get [armsNow] rfl
  have hrun : StripRun osTmrInit _ _ := ⟨⟨[], .nil, by simp⟩, by decide, by decide, htrace, by decide⟩
  obtain ⟨id, hid, hiff⟩ := (strip_refines hrun).2 true
  exact ⟨_, _, hrun, rfl, id, hid, hiff.mpr rfl⟩

/-! ## The schedule day after day -/

/-- What a timer of the strip amounts to: its callback makes it periodic, with a period of a day. -/
def dailyTimer (repeats : Bool) : OsTmr StripCallback :=
  { osTmrOpt := if repeats then osTmrOptPeriodic else osTmrOptOneShot, osTmrPeriod := dayTicks }

def firings (on : Bool) (l : List (StripSys × StripAct × Option StripEv)) : Nat := (l.map fun e => fires on e.2.2).sum

def ticksPassed (l : List (StripSys × StripAct × Option StripEv)) : Nat := (l.map fun e => e.2.1.ticks).sum

def StripAct.IsFrame : StripAct → Prop
  | .frame .. => True
  | _ => False

instance decidableIsFrame : ∀ a : StripAct, Decidable a.IsFrame
  | .frame .. => isTrue trivial
  | .button .. | .signal | .turn _ | .finish | .other _ => isFalse id

/-- What a callback looks at. -/
def StripSt.week (st : StripSt) : UInt8 × Bool := (st.status.weekRepeat, st.repeatFlag)

theorem repeats_of_week {st st' : StripSt} (h : st'.week = st.week) : st'.Repeats ↔ st.Repeats := by
  obtain ⟨hw, hr⟩ := Prod.mk.inj h
  rw [StripSt.Repeats, StripSt.Repeats, hw, hr]

theorem week_switchOnTime (on : Bool) (ticks : UInt32) {setTimer : StripSt → StripSt} (st : StripSt)
    (hset : ∀ st, (setTimer st).week = st.week) : (switchOnTime on ticks setTimer st).week = st.week := by
  have hite (c : Prop) [Decidable c] (st : StripSt) : (if c then switchSocket on st else st).week = st.week := by
    split <;> rfl
  have h₁ := hite (st.status.weekRepeat = 0) st
  unfold switchOnTime
  generalize (if st.status.weekRepeat = 0 then switchSocket on st else st) = st₁ at h₁ ⊢
  refine (hite _ _).trans ?_
  split
  · exact (hset st₁).trans h₁
  · exact h₁

/-- Only a frame changes whether the week repeats. -/
theorem week_step {st : StripSt} {e : StripEv} (he : ∀ f c n, e ≠ .frame f c n) : (stripStep st e).week = st.week := by
  cases e with
  | frame f c n => exact (he f c n rfl).elim
  | timerOn ticks =>
    simp only [stripStep]
    split
    · exact week_switchOnTime true ticks _ fun _ => rfl
    · rfl
  | timerOff ticks =>
    simp only [stripStep]
    split
    · exact week_switchOnTime false ticks _ fun _ => rfl
    · rfl
  | button gpio10 gpio10' =>
    simp only [stripStep, checkSocket]
    split <;> rfl

theorem event_of_step {a : StripAct} {e : StripEv} (hs : stripSysStep s a = some (s', some e)) (ha : ¬ a.IsFrame)
    (f : UInt8) (c : Nat → UInt8) (n : UInt32) : e ≠ .frame f c n := by
  cases a with
  | frame => exact (ha trivial).elim
  | button gpio10 gpio10' =>
    obtain ⟨-, hs⟩ := Option.ite_none_right_eq_some.mp hs
    obtain ⟨-, he⟩ := Prod.mk.inj (Option.some.inj hs)
    obtain rfl := Option.some.inj he
    simp
  | turn ticks =>
    obtain ⟨r, -, heq⟩ := Option.map_eq_some_iff.mp hs
    split at heq
    · case h_1 on _ =>
      obtain ⟨-, he⟩ := Prod.mk.inj heq
      obtain rfl := Option.some.inj he
      cases on <;> simp [StripEv.timer]
    · cases heq
  | signal | finish =>
    obtain ⟨r, -, heq⟩ := Option.map_eq_some_iff.mp hs
    cases heq
  | other c => cases hs

/-- A timer of the strip on its way through the days. -/
theorem phase_step {a : StripAct} {o : Option StripEv} {n f : Nat} {rep : Bool} (on : Bool)
    (hrep : s.strip.Repeats ↔ rep) {ticks : Nat}
    (h : TmrPhase (dailyTimer rep) (s.timers.body (ids on)) n ticks f (ticksLeft s.timers rest (ids on)))
    (hm : StripMove s s' rest rest' (ids on) a.ticks (fires on o)) :
    TmrPhase (dailyTimer rep) (s'.timers.body (ids on)) n (ticks + a.ticks) (f + fires on o)
      (ticksLeft s'.timers rest' (ids on)) := by
  generalize a.ticks = k at hm
  generalize fires on o = m at hm
  cases hm with
  | kept hb hl =>
    rw [hb, hl]
    exact h
  | tick hb hl =>
    rw [hb]
    exact h.tick hl
  | again hr h0 hrep' hr' hl =>
    obtain rfl : rep = true := hrep.mp hrep'
    rw [h0] at h
    have hday : dayTicks.toNat = ticksOf (dailyTimer true).osTmrPeriod := (ticksOf_nstTicks _).symm
    rw [hl, hday]
    exact h.next hr rfl hr'
  | last hr h0 hrep' hr' =>
    obtain rfl : rep = false := by
      cases rep with
      | true => exact (hrep' (hrep.mpr rfl)).elim
      | false => rfl
    rw [h0] at h
    exact h.end hr (by decide) hr'

/-- Once a frame has set it, a timer of the strip calls back with the signal
that its delay ends at, and when the week repeats with every day from then on,
without drift, as long as no frame comes. -/
theorem schedule_on_time {attrFlags : UInt8} {ctrl : Nat → UInt8} {now value : UInt32} {o : Option StripEv}
    (h₀ : StripRun t before s₀) (hs : stripSysStep s₀ (.frame attrFlags ctrl now) = some (s₁, o))
    (hset : isSet attrFlags 0x02 ∨ isSet attrFlags (if on then 0x10 else 0x20)) (hv : s₁.strip.timer on = some value)
    (h : Trace stripSysStep s₁ after s₂) (hf : ∀ e ∈ after, e.2.1.Fair e.1 ∧ ¬ e.2.1.IsFrame)
    (hidle : s₂.timers.ptmr = none) :
    firings on after = (dailyTimer (decide s₁.strip.Repeats)).timesDue (nstTicks value).toNat (ticksPassed after) := by
  obtain ⟨⟨ids, _, _, _, hok₀⟩, -⟩ := h₀.ok
  obtain ⟨hidle₀, hs⟩ := Option.ite_none_right_eq_some.mp hs
  obtain ⟨rfl, rfl⟩ := Prod.mk.inj (Option.some.inj hs)
  obtain ⟨spokes, free, rest, hok, hplaced⟩ := frame_ok hok₀ hidle₀ attrFlags ctrl now
  have hon := hplaced on (frame_touches hset ctrl now _)
  rw [show (stripDataParse attrFlags ctrl now s₀.strip).timer on = some value from hv] at hon
  generalize hs₁ : ({ s₀ with
    strip := stripDataParse attrFlags ctrl now s₀.strip
    timers := (frameCalls attrFlags ctrl now s₀.strip.status).foldl (nstCall s₀.handle) s₀.timers } : StripSys) = s₁ at *
  have hrun : ∃ spokes free rest, StripOk ids s₂ spokes free rest ∧ s₂.strip.week = s₁.strip.week ∧
      TmrPhase (dailyTimer (decide s₁.strip.Repeats)) (s₂.timers.body (ids on)) (nstTicks value).toNat
        (ticksPassed after) (firings on after) (ticksLeft s₂.timers rest (ids on)) := by
    refine h.along (R := fun s a _ => a.Fair s ∧ ¬ a.IsFrame) (H := fun l s => ∃ spokes free rest,
      StripOk ids s spokes free rest ∧ s.strip.week = s₁.strip.week ∧
      TmrPhase (dailyTimer (decide s₁.strip.Repeats)) (s.timers.body (ids on)) (nstTicks value).toNat
        (ticksPassed l) (firings on l) (ticksLeft s.timers rest (ids on)))
      (fun l s a s' o ⟨_, _, _, hok, hweek, hphase⟩ hp hs => ?_) ⟨spokes, free, rest, hok, rfl, ?_⟩ hf
    · obtain ⟨_, _, _, hok', hstrip, hmove⟩ := stripSys_step hok hs hp.1
      refine ⟨_, _, _, hok', ?_, ?_⟩
      · rw [← hweek, hstrip]
        cases o with
        | none => rfl
        | some e => exact week_step (event_of_step hs hp.2)
      · have hrep : s.strip.Repeats ↔ decide s₁.strip.Repeats = true := by
          rw [decide_eq_true_iff]
          exact repeats_of_week hweek
        have hticks : ticksPassed (l ++ [(s, a, o)]) = ticksPassed l + a.ticks := by simp [ticksPassed]
        have hfires : firings on (l ++ [(s, a, o)]) = firings on l + fires on o := by simp [firings]
        rw [hticks, hfires]
        exact phase_step on hrep hphase (hmove (fun f c m e => hp.2 (e ▸ trivial)) on)
    · have hn : ticksLeft s₁.timers rest (ids on) = (nstTicks value).toNat := hs₁ ▸ hon.2
      exact .waits (hs₁ ▸ hon.1) ((Nat.zero_add _).trans hn)
  obtain ⟨_, _, rest₂, hok₂, -, hphase⟩ := hrun
  obtain rfl := hok₂.inv.rest_nil (by rw [hidle]; rfl)
  rw [ticksLeft_early fun _ => List.not_mem_nil] at hphase
  exact hphase.due (ticksOf_pos _)

def twoTicks : List StripAct := [.signal, .turn 1, .finish, .signal, .finish]

def armedNow : StripSys := ((runTrace stripSysStep (stripSysInit osTmrInit) [armsNow]).get rfl).2

theorem schedule_on_time_armsNow : ∃ s₀ o after s₂, stripSysStep s₀ armsNow = some (armedNow, o) ∧
    Trace stripSysStep armedNow after s₂ ∧ ticksPassed after = 2 ∧ firings true after = 1 := by
  have hrun : StripRun osTmrInit [] (stripSysInit osTmrInit) :=
    ⟨⟨[], .nil, by simp⟩, by decide, by decide, .nil, by simp⟩
  have htrace : Trace stripSysStep armedNow _ _ := trace_get twoTicks rfl
  have hstart : stripSysStep (stripSysInit osTmrInit) armsNow = some (armedNow, some armsNowEvent) := rfl
  have hset : isSet 0x18 0x02 ∨ isSet 0x18 (if true then 0x10 else 0x20) := .inr (by decide)
  have h := schedule_on_time hrun hstart hset rfl htrace (by decide) rfl
  exact ⟨_, _, _, _, hstart, htrace, rfl, h.trans (by decide)⟩

end

end GizwitsSdk
