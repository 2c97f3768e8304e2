import GizwitsSdk.OsTmrSteps
import Mathlib.Algebra.BigOperators.Group.List.Basic
import Mathlib.Algebra.Ring.Nat

/-!
# When the timers expire

A timer that is started with a delay expires with that signal, and a periodic
one with every period from then on, whatever the tasks and the callbacks do to
the other timers.
-/

namespace GizwitsSdk

open Lib

section
variable {C : Type} {s s' : Timers C} {spokes spokes' : Fin 8 → List TmrId} {free free' rest rest' : List TmrId}
  {id x : TmrId} {a : TmrAction C} {o : TmrRet C}

/-! ## Ticks -/

/-- The ticks that a delay takes: none at all is the whole circle. -/
def ticksOf (d : UInt32) : Nat := if d = 0 then 2 ^ 32 else d.toNat

theorem ticksOf_pos (d : UInt32) : 0 < ticksOf d := by
  unfold ticksOf
  split
  · exact Nat.two_pow_pos 32
  · case isFalse h => exact Nat.pos_of_ne_zero fun e => h (UInt32.toNat_inj.mp e)

theorem ticksOf_pred {d : UInt32} (h : d ≠ 1) : ticksOf d = ticksOf (d - 1) + 1 := by
  have h1 : d - 1 ≠ 0 := fun e => h (by rw [← UInt32.sub_add_cancel d 1, e]; rfl)
  unfold ticksOf
  rw [if_neg h1, UInt32.toNat_sub, UInt32.toNat_one]
  have hd := d.toNat_lt
  split
  · case isTrue h0 =>
    subst h0
    rfl
  · case isFalse h0 =>
    have hpos : d.toNat ≠ 0 := fun e => h0 (UInt32.toNat_inj.mp e)
    omega

/-- The signals until the timer expires, if it runs: none when the loop has still to come to it. -/
def ticksLeft (s : Timers C) (rest : List TmrId) (id : TmrId) : Nat :=
  if s.osTmrTime = (s.body id).osTmrMatch ∧ id ∈ rest then 0 else ticksOf ((s.body id).osTmrMatch - s.osTmrTime)

theorem ticksLeft_due (hm : s.osTmrTime = (s.body id).osTmrMatch) (hx : id ∈ rest) : ticksLeft s rest id = 0 :=
  if_pos ⟨hm, hx⟩

theorem ticksLeft_early (h : s.osTmrTime = (s.body id).osTmrMatch → id ∉ rest) :
    ticksLeft s rest id = ticksOf ((s.body id).osTmrMatch - s.osTmrTime) := if_neg fun e => h e.1 e.2

theorem Kept.ticksLeft (h : Kept s s' rest rest' id) (ht : s'.osTmrTime = s.osTmrTime) :
    ticksLeft s' rest' id = ticksLeft s rest id := by
  unfold GizwitsSdk.ticksLeft
  simp only [ht, h.body, h.place]

/-! ## Steps -/

def TmrAction.ticks : TmrAction C → Nat
  | .signal => 1
  | _ => 0

def TmrAction.turns : TmrAction C → Nat
  | .turn => 1
  | _ => 0

/-- The callback of a timer that expires in the step, if it does. -/
def expiry (id : TmrId) (e : Timers C × TmrAction C × TmrRet C) : Option (Option C) :=
  match e.2.1 with
  | .turn => if e.2.2.ptmr = some id then some e.2.2.called else none
  | _ => none

/-- What a step makes of a timer in use that no call is about. -/
inductive TmrMove (s s' : Timers C) (rest rest' : List TmrId) (id : TmrId) : Nat → Option (Option C) → Prop
  | kept (hb : s'.body id = s.body id) (hl : ticksLeft s' rest' id = ticksLeft s rest id) :
    TmrMove s s' rest rest' id 0 none
  | tick (hb : s'.body id = s.body id)
    (hl : (s.body id).osTmrState = .running → ticksLeft s rest id = ticksLeft s' rest' id + 1) :
    TmrMove s s' rest rest' id 1 none
  | again (hr : (s.body id).osTmrState = .running) (h0 : ticksLeft s rest id = 0)
    (ho : (s.body id).osTmrOpt = osTmrOptPeriodic)
    (hb : s'.body id =
      { s.body id with osTmrState := .running, osTmrMatch := (s.body id).osTmrPeriod + s.osTmrTime })
    (hl : ticksLeft s' rest' id = ticksOf (s.body id).osTmrPeriod) :
    TmrMove s s' rest rest' id 0 (some (s.body id).osTmrCallback)
  | last (hr : (s.body id).osTmrState = .running) (h0 : ticksLeft s rest id = 0)
    (ho : (s.body id).osTmrOpt ≠ osTmrOptPeriodic) (hb : s'.body id = { s.body id with osTmrState := .completed }) :
    TmrMove s s' rest rest' id 0 (some (s.body id).osTmrCallback)

structure StepOk (s s' : Timers C) (rest rest' : List TmrId) (a : TmrAction C) (o : TmrRet C) : Prop where
  shorter : a.ticks = 0 → rest'.length + a.turns ≤ rest.length
  move : ∀ id, (s.body id).osTmrState ≠ .unused → a.LeavesAlone id →
    TmrMove s s' rest rest' id a.ticks (expiry id (s, a, o))

theorem call_step (h : TmrInv s spokes free rest) (c : TmrCall C) (hp : (TmrAction.call c).Spares s) :
    ∃ spokes' free' rest', TmrInv (c.exec s).1 spokes' free' rest' ∧
      StepOk s (c.exec s).1 rest rest' (.call c) (c.exec s).2 := by
  obtain ⟨spokes', free', rest', hinv, hok⟩ := exec_ok h c hp
  refine ⟨spokes', free', rest', hinv, fun _ => hok.shorter.length_le, fun id hu hc => ?_⟩
  have hkept := hok.kept id hc hu
  exact .kept hkept.body (hkept.ticksLeft hok.time)

theorem tick_step (h : TmrInv s spokes free []) :
    StepOk s (osTmrTick s) [] (spokes (spoke (s.osTmrTime + 1))) .signal {} := by
  refine ⟨fun h => (Nat.one_ne_zero h).elim, fun id _ _ => .tick rfl fun hr => ?_⟩
  have htime : (osTmrTick s).osTmrTime = s.osTmrTime + 1 := rfl
  have hbody : (osTmrTick s).body id = s.body id := rfl
  rw [ticksLeft_early fun _ => List.not_mem_nil]
  by_cases hm : s.osTmrTime + 1 = (s.body id).osTmrMatch
  · have hid : id ∈ spokes (spoke (s.osTmrTime + 1)) := (h.mem _ id).mpr ⟨hr, congrArg spoke hm.symm⟩
    have hone : (s.body id).osTmrMatch - s.osTmrTime = 1 := by grind
    rw [ticksLeft_due (htime.trans hm) hid, hone]
    rfl
  · have hsub : (s.body id).osTmrMatch - (s.osTmrTime + 1) = (s.body id).osTmrMatch - s.osTmrTime - 1 := by
      grind
    rw [ticksLeft_early fun e => absurd e hm, hbody, htime, hsub]
    exact ticksOf_pred (by grind)

theorem turn_step (h : TmrInv s spokes free (x :: rest)) :
    ∃ spokes', TmrInv (osTmrTurn s x).1 spokes' free rest ∧
      StepOk s (osTmrTurn s x).1 (x :: rest) rest .turn (osTmrTurn s x).2 := by
  obtain ⟨hx, -⟩ := List.nodup_cons.mp h.rest_nodup
  have hplace {y : TmrId} (hy : y ≠ x) : y ∈ rest ↔ y ∈ x :: rest := by simp [hy]
  by_cases hm : s.osTmrTime = (s.body x).osTmrMatch
  · obtain ⟨spokes', hinv, hret, htime, hother, hown⟩ := turn_due h hm
    refine ⟨spokes', hinv, fun _ => Nat.le_refl _, fun id _ _ => ?_⟩
    by_cases hid : id = x
    · subst hid
      have hr := h.running_of_rest (x := id) List.mem_cons_self
      have h0 : ticksLeft s (id :: rest) id = 0 := ticksLeft_due hm List.mem_cons_self
      have he : expiry id (s, .turn, (osTmrTurn s id).2) = some (s.body id).osTmrCallback := by
        simp [expiry, hret]
      rw [he]
      by_cases ho : (s.body id).osTmrOpt = osTmrOptPeriodic
      · rw [if_pos ho] at hown
        refine .again hr h0 ho hown ?_
        rw [ticksLeft_early fun _ => hx, hown, htime]
        exact congrArg ticksOf (UInt32.add_sub_cancel _ _)
      · rw [if_neg ho] at hown
        exact .last hr h0 ho hown
    · have he : expiry id (s, .turn, (osTmrTurn s x).2) = none := by
        simp [expiry, hret, Ne.symm hid]
      have hkept : Kept s (osTmrTurn s x).1 (x :: rest) rest id := ⟨hother id hid, hplace hid⟩
      rw [he]
      exact .kept hkept.body (hkept.ticksLeft htime)
  · obtain ⟨hinv, heq⟩ := turn_early h hm
    refine ⟨spokes, hinv, fun _ => Nat.le_refl _, fun id _ _ => ?_⟩
    rw [heq]
    refine .kept rfl ?_
    by_cases hid : id = x
    · subst hid
      exact (ticksLeft_early fun e => absurd e hm).trans (ticksLeft_early fun e => absurd e hm).symm
    · exact Kept.ticksLeft ⟨rfl, hplace hid⟩ rfl

theorem turn_inv (h : tmrStep s .turn = some (s', o)) :
    ∃ x, s.ptmr = some (some x) ∧ s' = (osTmrTurn s x).1 ∧ o = (osTmrTurn s x).2 := by
  cases hx : s.ptmr with
  | none => simp [tmrStep, hx] at h
  | some ptmr =>
    cases ptmr with
    | none => simp [tmrStep, hx] at h
    | some x =>
      have hturn : osTmrTurn s x = (s', o) := by simpa [tmrStep, hx] using h
      exact ⟨x, rfl, (congrArg Prod.fst hturn).symm, (congrArg Prod.snd hturn).symm⟩

/-- Every step that spares the saved timer. -/
theorem tmrStep_ok (h : TmrInv s spokes free rest) (hs : tmrStep s a = some (s', o)) (hp : a.Spares s) :
    ∃ spokes' free' rest', TmrInv s' spokes' free' rest' ∧ StepOk s s' rest rest' a o := by
  cases a with
  | call c =>
    obtain ⟨rfl, rfl⟩ := Prod.mk.inj (Option.some.inj hs)
    exact call_step h c hp
  | signal =>
    obtain ⟨hnone, hs⟩ := Option.ite_none_right_eq_some.mp hs
    obtain ⟨rfl, rfl⟩ := Prod.mk.inj (Option.some.inj hs)
    obtain rfl := h.rest_nil (by rw [hnone]; rfl)
    exact ⟨_, _, _, tick_inv h, tick_step h⟩
  | turn =>
    obtain ⟨x, hx, rfl, rfl⟩ := turn_inv hs
    obtain ⟨rest', rfl⟩ := h.rest_cons hx
    obtain ⟨spokes', hinv, hok⟩ := turn_step h
    exact ⟨_, _, _, hinv, hok⟩
  | finish =>
    obtain ⟨hnone, hs⟩ := Option.ite_none_right_eq_some.mp hs
    obtain ⟨rfl, rfl⟩ := Prod.mk.inj (Option.some.inj hs)
    obtain rfl := h.rest_nil (by rw [hnone]; rfl)
    exact ⟨_, _, _, finish_inv h, fun _ => Nat.le_refl _, fun id _ _ => .kept rfl rfl⟩

/-! ## Runs -/

/-- A run in which every call spares the timer that the loop has saved. -/
structure TmrRun (l : List (Timers C × TmrAction C × TmrRet C)) (s : Timers C) : Prop where
  trace : Trace tmrStep osTmrInit l s
  spares : ∀ e ∈ l, e.2.1.Spares e.1

variable {l before after : List (Timers C × TmrAction C × TmrRet C)} {s₀ s₁ s₂ : Timers C}

theorem init_reads : Reads (fun i : TmrId => if h : i.val + 1 < 16 then some ⟨i.val + 1, h⟩ else none)
    (some ⟨0, Nat.succ_pos 15⟩) (List.finRange 16) := by decide

theorem osTmrInit_inv : TmrInv (osTmrInit : Timers C) (fun _ => []) (List.finRange 16) [] where
  line _ := line_nil
  nodup _ := List.nodup_nil
  mem i id := by simp [osTmrInit, Timers.body, OsTmr.bare]
  entries _ := rfl
  reads := init_reads
  freeNodup := List.nodup_finRange 16
  mem_free id := by simp [osTmrInit, Timers.body, OsTmr.bare]
  freeCount := rfl
  used := rfl
  ahead := rfl
  suffix := List.suffix_refl _

theorem inv_run (h : Trace tmrStep s l s₁) (hi : ∃ spokes free rest, TmrInv s spokes free rest)
    (hl : ∀ e ∈ l, e.2.1.Spares e.1) : ∃ spokes free rest, TmrInv s₁ spokes free rest := by
  refine h.along (R := fun s a _ => a.Spares s) (H := fun _ s => ∃ spokes free rest, TmrInv s spokes free rest)
    (fun _ s a s' o ⟨_, _, _, hinv⟩ hp hs => ?_) hi hl
  obtain ⟨_, _, _, hinv', -⟩ := tmrStep_ok hinv hs hp
  exact ⟨_, _, _, hinv'⟩

theorem TmrRun.inv (h : TmrRun l s) : ∃ spokes free rest, TmrInv s spokes free rest :=
  inv_run h.trace ⟨_, _, _, osTmrInit_inv⟩ h.spares

theorem tmrRun_get (as : List (TmrAction C)) (h : (runTrace tmrStep (osTmrInit : Timers C) as).isSome = true)
    (hs : ∀ e ∈ ((runTrace tmrStep (osTmrInit : Timers C) as).get h).1, e.2.1.Spares e.1) :
    TmrRun ((runTrace tmrStep (osTmrInit : Timers C) as).get h).1
      ((runTrace tmrStep (osTmrInit : Timers C) as).get h).2 := ⟨trace_get as h, hs⟩

abbrev firstTimer : TmrId := ⟨0, by decide⟩

abbrev secondTimer : TmrId := ⟨1, by decide⟩

/-- A periodic timer and one that has been started to expire once. -/
def twoTimers : List (TmrAction Bool) :=
  [.call (.create 3 2 osTmrOptPeriodic (some true)), .call (.create 1 0 osTmrOptOneShot (some false)),
    .call (.start secondTimer)]

def idleTimers : Timers Bool := ((runTrace tmrStep osTmrInit twoTimers).get rfl).2

/-- The wheel holds the timers that run, each in the spoke of its match and in
no other, and the free list those that are not used. -/
theorem wheel_holds (h : TmrRun l s) : ∃ spokes free, WheelOk s spokes free := by
  obtain ⟨spokes, free, _, hinv⟩ := h.inv
  exact ⟨spokes, free, hinv.toWheelOk⟩

theorem wheel_holds_twoTimers : ∃ spokes free, WheelOk idleTimers spokes free :=
  wheel_holds (tmrRun_get twoTimers rfl (by decide))

/-! ## One timer -/

def signals (l : List (Timers C × TmrAction C × TmrRet C)) : Nat := (l.map fun e => e.2.1.ticks).sum

/-- The callbacks of a timer that expires, one after the other. -/
def expiries (id : TmrId) (l : List (Timers C × TmrAction C × TmrRet C)) : List (Option C) :=
  l.filterMap (expiry id)

/-- How often a timer is due within the ticks, when its first time is after `n`. -/
def OsTmr.timesDue (t : OsTmr C) (n ticks : Nat) : Nat :=
  if ticks < n then 0
  else if t.osTmrOpt = osTmrOptPeriodic then (ticks - n) / ticksOf t.osTmrPeriod + 1
  else 1

theorem signals_snoc (l : List (Timers C × TmrAction C × TmrRet C)) (e : Timers C × TmrAction C × TmrRet C) :
    signals (l ++ [e]) = signals l + e.2.1.ticks := by
  simp [signals]

theorem expiries_snoc (id : TmrId) (l : List (Timers C × TmrAction C × TmrRet C))
    (e : Timers C × TmrAction C × TmrRet C) :
    expiries id (l ++ [e]) = expiries id l ++ (expiry id e).toList := by
  rw [expiries, List.filterMap_append]
  cases he : expiry id e <;> simp [expiries, he]

/-- Where a timer stands: the signals so far and those it has left are its
first delay and a period for each time it has expired. -/
inductive TmrPhase (t b : OsTmr C) (n : Nat) : Nat → Nat → Nat → Prop
  | waits {ticks left} (hr : b.osTmrState = .running) (h : ticks + left = n) : TmrPhase t b n ticks 0 left
  | again {ticks k left} (hr : b.osTmrState = .running) (ho : t.osTmrOpt = osTmrOptPeriodic)
    (h : ticks + left = n + (k + 1) * ticksOf t.osTmrPeriod) (hl : left ≤ ticksOf t.osTmrPeriod) :
    TmrPhase t b n ticks (k + 1) left
  | ended {ticks left} (hr : b.osTmrState = .completed) (ho : t.osTmrOpt ≠ osTmrOptPeriodic) (h : n ≤ ticks) :
    TmrPhase t b n ticks 1 left

/-- The timer has kept its settings, and has expired as often as it should. -/
structure OnTime (t : OsTmr C) (n : Nat) (id : TmrId) (l : List (Timers C × TmrAction C × TmrRet C))
    (s : Timers C) (rest : List TmrId) (f : Nat) : Prop where
  opt : (s.body id).osTmrOpt = t.osTmrOpt
  period : (s.body id).osTmrPeriod = t.osTmrPeriod
  callback : (s.body id).osTmrCallback = t.osTmrCallback
  expired : expiries id l = List.replicate f t.osTmrCallback
  phase : TmrPhase t (s.body id) n (signals l) f (ticksLeft s rest id)

variable {t : OsTmr C} {n f : Nat}

theorem TmrPhase.used {b : OsTmr C} {ticks left : Nat} (h : TmrPhase t b n ticks f left) :
    b.osTmrState ≠ .unused := by
  cases h with
  | waits hr => simp [hr]
  | again hr => simp [hr]
  | ended hr => simp [hr]

theorem TmrPhase.tick {b : OsTmr C} {ticks left left' : Nat} (h : TmrPhase t b n ticks f left)
    (hl : b.osTmrState = .running → left = left' + 1) : TmrPhase t b n (ticks + 1) f left' := by
  cases h with
  | waits hr heq =>
    have := hl hr
    exact .waits hr (by omega)
  | again hr ho heq hle =>
    have := hl hr
    exact .again hr ho (by omega) (by omega)
  | ended hr ho heq => exact .ended hr ho (by omega)

theorem TmrPhase.next {b b' : OsTmr C} {ticks : Nat} (h : TmrPhase t b n ticks f 0) (hr : b.osTmrState = .running)
    (ho : t.osTmrOpt = osTmrOptPeriodic) (hr' : b'.osTmrState = .running) :
    TmrPhase t b' n ticks (f + 1) (ticksOf t.osTmrPeriod) := by
  cases h with
  | waits _ heq => exact .again hr' ho (by omega) (Nat.le_refl _)
  | again _ _ heq _ =>
    refine .again hr' ho ?_ (Nat.le_refl _)
    rw [Nat.succ_mul]
    omega
  | ended hr'' =>
    rw [hr] at hr''
    cases hr''

theorem TmrPhase.end {b b' : OsTmr C} {ticks left : Nat} (h : TmrPhase t b n ticks f 0) (hr : b.osTmrState = .running)
    (ho : t.osTmrOpt ≠ osTmrOptPeriodic) (hr' : b'.osTmrState = .completed) : TmrPhase t b' n ticks (f + 1) left := by
  cases h with
  | waits _ heq => exact .ended hr' ho (by omega)
  | again _ ho' => exact (ho ho').elim
  | ended hr'' =>
    rw [hr] at hr''
    cases hr''

/-- Between the signals a timer has ticks left, and has expired as often as it was due. -/
theorem TmrPhase.due {b : OsTmr C} {ticks left : Nat} (h : TmrPhase t b n ticks f left) (hpos : 0 < left) :
    f = t.timesDue n ticks := by
  unfold OsTmr.timesDue
  cases h with
  | waits _ heq => rw [if_pos (by omega)]
  | @again k _ _ ho heq hle =>
    rw [Nat.succ_mul] at heq
    have hk : ticks - n = k * ticksOf t.osTmrPeriod + (ticksOf t.osTmrPeriod - left) := by omega
    have hdiv := Nat.add_mul_div_right (ticksOf t.osTmrPeriod - left) k (ticksOf_pos t.osTmrPeriod)
    rw [if_neg (by omega), if_pos ho, hk, Nat.add_comm (k * _), hdiv, Nat.div_eq_of_lt (by omega), Nat.zero_add]
  | ended _ ho heq => rw [if_neg (by omega), if_neg ho]

theorem onTime_step (h : OnTime t n id l s rest f)
    (hm : TmrMove s s' rest rest' id a.ticks (expiry id (s, a, o))) :
    ∃ f', OnTime t n id (l ++ [(s, a, o)]) s' rest' f' := by
  have hticks : signals (l ++ [(s, a, o)]) = signals l + a.ticks := signals_snoc l _
  have hexp : expiries id (l ++ [(s, a, o)]) = expiries id l ++ (expiry id (s, a, o)).toList := expiries_snoc id l _
  generalize expiry id (s, a, o) = fired at hm hexp
  generalize a.ticks = ticks at hm hticks
  have hphase := h.phase
  cases hm with
  | kept hb hl =>
    refine ⟨f, hb ▸ h.opt, hb ▸ h.period, hb ▸ h.callback, by rw [hexp, h.expired]; simp, ?_⟩
    rw [hticks, hb, hl]
    exact hphase
  | tick hb hl =>
    refine ⟨f, hb ▸ h.opt, hb ▸ h.period, hb ▸ h.callback, by rw [hexp, h.expired]; simp, ?_⟩
    rw [hticks, hb]
    exact hphase.tick hl
  | again hr h0 ho hb hl =>
    refine ⟨f + 1, by rw [hb]; exact h.opt, by rw [hb]; exact h.period, by rw [hb]; exact h.callback, ?_, ?_⟩
    · rw [hexp, h.expired, h.callback, List.replicate_succ']
      rfl
    · rw [hticks, hl, h.period]
      rw [h0] at hphase
      exact hphase.next hr (h.opt.symm.trans ho) (by rw [hb])
  | last hr h0 ho hb =>
    refine ⟨f + 1, by rw [hb]; exact h.opt, by rw [hb]; exact h.period, by rw [hb]; exact h.callback, ?_, ?_⟩
    · rw [hexp, h.expired, h.callback, List.replicate_succ']
      rfl
    · rw [hticks]
      rw [h0] at hphase
      exact hphase.end hr (fun e => ho (h.opt.trans e)) (by rw [hb])

theorem onTime_run (h : Trace tmrStep s l s₁) (hi : TmrInv s spokes free rest)
    (hr : (s.body id).osTmrState = .running)
    (hl : ∀ e ∈ l, e.2.1.Spares e.1 ∧ e.2.1.LeavesAlone id) :
    ∃ spokes free rest' f, TmrInv s₁ spokes free rest' ∧
      OnTime (s.body id) (ticksLeft s rest id) id l s₁ rest' f := by
  refine h.along (R := fun s a _ => a.Spares s ∧ a.LeavesAlone id)
    (H := fun l s₁ => ∃ spokes free rest' f, TmrInv s₁ spokes free rest' ∧
      OnTime (s.body id) (ticksLeft s rest id) id l s₁ rest' f) (fun l s₁ a s₂ o ⟨_, _, _, _, hinv, hon⟩ hp hs => ?_)
    ⟨_, _, _, 0, hi, rfl, rfl, rfl, rfl, .waits hr (Nat.zero_add _)⟩ hl
  obtain ⟨_, _, _, hinv', hok⟩ := tmrStep_ok hinv hs hp.1
  obtain ⟨f', hon'⟩ := onTime_step hon (hok.move id hon.phase.used hp.2)
  exact ⟨_, _, _, f', hinv', hon'⟩

theorem OnTime.due (h : OnTime t n id l s [] f) : f = t.timesDue n (signals l) := by
  have hp := h.phase
  rw [ticksLeft_early fun _ => List.not_mem_nil] at hp
  exact hp.due (ticksOf_pos _)

/-- A timer that has just been linked has all of its ticks to go. -/
theorem ticksLeft_linked {t : OsTmr C} {d : UInt32} {st : TmrState}
    (hb : s'.body id = { t with osTmrState := st, osTmrMatch := d + s.osTmrTime }) (ht : s'.osTmrTime = s.osTmrTime)
    (hid : id ∉ rest) : ticksLeft s' rest id = ticksOf d := by
  rw [ticksLeft_early fun _ => hid, hb, ht]
  exact congrArg ticksOf (UInt32.add_sub_cancel _ _)

/-- A timer expires with the signal that its delay ends at, and a periodic one
with each period after it, whatever is done to the others. -/
theorem timer_on_time (h₀ : TmrRun before s₀) (hs : tmrStep s₀ (.call (.start id)) = some (s₁, o))
    (ho : o.err = .none) (hp : (TmrAction.call (.start id)).Spares s₀) (h : Trace tmrStep s₁ after s₂)
    (hl : ∀ e ∈ after, e.2.1.Spares e.1 ∧ e.2.1.LeavesAlone id) (hidle : s₂.ptmr = none) :
    expiries id after = List.replicate
      ((s₀.osTmrTbl id).timesDue (ticksOf ((s₀.osTmrTbl id).linkTicks false)) (signals after))
      (s₀.osTmrTbl id).osTmrCallback := by
  obtain ⟨spokes, free, rest, hinv⟩ := h₀.inv
  have hstart : osTmrStart s₀ id = (s₁, o) := Option.some.inj hs
  obtain rfl : (osTmrStart s₀ id).1 = s₁ := congrArg Prod.fst hstart
  obtain rfl : (osTmrStart s₀ id).2 = o := congrArg Prod.snd hstart
  have hu : (s₀.body id).osTmrState ≠ .unused := by
    intro hu
    have hu' : (s₀.osTmrTbl id).osTmrState = .unused := hu
    simp [osTmrStart, hu'] at ho
  obtain ⟨spokes₁, free₁, rest₁, hinv₁, hok₁, harmed⟩ := start_ok hinv (hp id rfl)
  obtain ⟨hbody, hid⟩ := harmed hu
  have hleft := ticksLeft_linked hbody hok₁.time hid
  obtain ⟨_, _, rest₂, f, hinv₂, hon⟩ := onTime_run h hinv₁ (by rw [hbody]) hl
  obtain rfl := hinv₂.rest_nil (by rw [hidle]; rfl)
  rw [hon.expired, hon.due, hleft, hbody]
  rfl

/-- The first signal finds the second timer due, and its callback creates a third one. -/
def fiveSignals : List (TmrAction Bool) :=
  [.signal, .turn, .call (.create 7 0 osTmrOptOneShot none), .finish, .signal, .finish, .signal, .turn, .finish,
    .signal, .finish, .signal, .turn, .finish]

theorem timer_on_time_twoTimers : ∃ s₀ s₁ : Timers Bool, ∃ o after s₂,
    tmrStep s₀ (.call (.start firstTimer)) = some (s₁, o) ∧ Trace tmrStep s₁ after s₂ ∧ signals after = 5 ∧
      expiries firstTimer after = [some true, some true] := by
  have hrun := tmrRun_get twoTimers rfl (by decide)
  have hstart : tmrStep idleTimers (.call (.start firstTimer)) =
      some ((osTmrStart idleTimers firstTimer).1, (osTmrStart idleTimers firstTimer).2) := rfl
  have htrace : Trace tmrStep (osTmrStart idleTimers firstTimer).1 _ _ := trace_get fiveSignals rfl
  have h := timer_on_time hrun hstart rfl (by decide) htrace (by decide) rfl
  exact ⟨_, _, _, _, _, hstart, htrace, rfl, h⟩

/-- `OSTmrRemainGet` tells how many signals are left. -/
theorem remain_exact (h₀ : TmrRun before s₁) (hr : (s₁.osTmrTbl id).osTmrState = .running) (hidle₁ : s₁.ptmr = none)
    (h : Trace tmrStep s₁ after s₂) (hl : ∀ e ∈ after, e.2.1.Spares e.1 ∧ e.2.1.LeavesAlone id)
    (hidle : s₂.ptmr = none) :
    expiries id after = [] ↔ signals after < ticksOf (osTmrRemainGet s₁ id).remain := by
  obtain ⟨spokes, free, rest, hinv⟩ := h₀.inv
  obtain rfl := hinv.rest_nil (by rw [hidle₁]; rfl)
  obtain ⟨_, _, rest₂, f, hinv₂, hon⟩ := onTime_run h hinv hr hl
  obtain rfl := hinv₂.rest_nil (by rw [hidle]; rfl)
  have hremain : (osTmrRemainGet s₁ id).remain = (s₁.body id).osTmrMatch - s₁.osTmrTime := by
    simp [osTmrRemainGet, hr, Timers.body, OsTmr.bare]
  rw [hon.expired, hon.due, ticksLeft_early fun _ => List.not_mem_nil, hremain, List.replicate_eq_nil_iff]
  unfold OsTmr.timesDue
  split
  · simp [*]
  · split <;> simp [*]

/-- The first signal finds the second timer due. -/
def oneSignal : List (TmrAction Bool) := [.signal, .turn, .finish]

theorem remain_exact_twoTimers : ∃ after s₂, Trace tmrStep idleTimers after s₂ ∧ signals after = 1 ∧
    expiries secondTimer after ≠ [] := by
  have hrun := tmrRun_get twoTimers rfl (by decide)
  have htrace : Trace tmrStep idleTimers _ _ := trace_get oneSignal rfl
  have h : expiries secondTimer _ = [] ↔ signals _ < ticksOf (osTmrRemainGet idleTimers secondTimer).remain :=
    remain_exact hrun rfl rfl htrace (by decide) rfl
  exact ⟨_, _, htrace, rfl, h.not.mpr (by decide)⟩

/-! ## The loop comes to its end -/

def turns (l : List (Timers C × TmrAction C × TmrRet C)) : Nat := (l.map fun e => e.2.1.turns).sum

/-- The loop goes through no more timers than the spoke held at the signal,
although the callbacks may put more into it. -/
theorem round_ends (h₀ : TmrRun before s₀) (hs : tmrStep s₀ .signal = some (s₁, o)) (h : Trace tmrStep s₁ after s₂)
    (hl : ∀ e ∈ after, e.2.1.Spares e.1) (hq : signals after = 0) :
    turns after ≤ (s₁.osTmrWheelTbl (spoke s₁.osTmrTime)).osTmrEntries.toNat := by
  obtain ⟨spokes, free, rest, hinv⟩ := h₀.inv
  obtain ⟨hnone, hs⟩ := Option.ite_none_right_eq_some.mp hs
  obtain ⟨rfl, rfl⟩ := Prod.mk.inj (Option.some.inj hs)
  obtain rfl := hinv.rest_nil (by rw [hnone]; rfl)
  have hlen : ((osTmrTick s₀).osTmrWheelTbl (spoke (osTmrTick s₀).osTmrTime)).osTmrEntries.toNat =
      (spokes (spoke (s₀.osTmrTime + 1))).length := hinv.entries _
  have hzero : ∀ e ∈ after, e.2.1.ticks = 0 := fun e he =>
    List.sum_eq_zero_iff_forall_eq_nat.mp hq _ (List.mem_map.mpr ⟨e, he, rfl⟩)
  rw [hlen]
  generalize hstart : spokes (spoke (s₀.osTmrTime + 1)) = start
  -- each turn takes one timer off the rest, and no call puts one in
  have hrun : ∃ spokes free rest, TmrInv s₂ spokes free rest ∧ turns after + rest.length ≤ start.length := by
    refine h.along (R := fun s a _ => a.Spares s ∧ a.ticks = 0)
      (H := fun l s => ∃ spokes free rest, TmrInv s spokes free rest ∧ turns l + rest.length ≤ start.length)
      (fun l s a s' o ⟨_, _, rest, hinv, hle⟩ hp hs => ?_) ⟨_, _, _, hstart ▸ tick_inv hinv, ?_⟩
      fun e he => ⟨hl e he, hzero e he⟩
    · obtain ⟨_, _, rest', hinv', hok⟩ := tmrStep_ok hinv hs hp.1
      refine ⟨_, _, _, hinv', ?_⟩
      have hshort := hok.shorter hp.2
      have hturns : turns (l ++ [(s, a, o)]) = turns l + a.turns := by simp [turns]
      omega
    · exact Nat.le_of_eq (Nat.zero_add _)
  obtain ⟨_, _, _, -, hle⟩ := hrun
  exact Nat.le_of_add_right_le hle

/-- The callback of the second timer puts another one in front of the spoke that the loop is in. -/
def startsInFront : List (TmrAction Bool) :=
  [.turn, .call (.create 8 0 osTmrOptOneShot none), .call (.start ⟨2, Nat.lt_add_left 13 (Nat.lt_succ_self 2)⟩),
    .finish]

theorem round_ends_twoTimers : ∃ after s₂, Trace tmrStep (osTmrTick idleTimers) after s₂ ∧ turns after ≤ 1 := by
  have hrun := tmrRun_get twoTimers rfl (by decide)
  have htrace : Trace tmrStep (osTmrTick idleTimers) _ _ := trace_get startsInFront rfl
  exact ⟨_, _, htrace, round_ends hrun rfl htrace (by decide) rfl⟩

/-! ## Timers that do not run -/

theorem start_not_running {y : TmrId} (h : TmrInv s spokes free rest) (hy : id ≠ y)
    (hr : (s.body id).osTmrState ≠ .running) : ((osTmrStart s y).1.body id).osTmrState ≠ .running := by
  unfold osTmrStart
  cases hs : (s.osTmrTbl y).osTmrState with
  | running => rwa [body_link false hy, body_unlink h hy]
  | stopped | completed => rwa [body_link false hy]
  | unused => exact hr

theorem exec_not_running (h : TmrInv s spokes free rest) (c : TmrCall C) (hp : (TmrAction.call c).Spares s)
    (hc : (TmrAction.call c).LeavesOff id) (hr : (s.body id).osTmrState ≠ .running) :
    ((c.exec s).1.body id).osTmrState ≠ .running := by
  cases c with
  | create dly period opt callback =>
    cases hf : s.osTmrFreeList with
    | none =>
      rw [TmrCall.exec, osTmrCreate_none dly period opt callback hf]
      exact hr
    | some y =>
      have htbl := osTmrCreate_tbl dly period opt callback hf
      rw [TmrCall.exec, Timers.body, htbl]
      by_cases hy : id = y
      · subst hy
        simp [OsTmr.bare]
      · rw [Function.update_of_ne hy]
        exact hr
  | del y =>
    rw [TmrCall.exec]
    by_cases hy : id = y
    · subst hy
      unfold osTmrDel
      cases hs : (s.osTmrTbl id).osTmrState with
      | running => exact (hr hs).elim
      | stopped | completed => simp [osTmrFree, Timers.body, OsTmr.bare, Timers.setTmr]
      | unused => exact hr
    · unfold osTmrDel
      cases hs : (s.osTmrTbl y).osTmrState with
      | running => rwa [body_release hy, body_unlink h hy]
      | stopped | completed => rwa [body_release hy]
      | unused => exact hr
  | start y =>
    exact start_not_running h hc.symm hr
  | nstStart y value =>
    have hy : id ≠ y := hc.symm
    have hown : (s.setTmr y ((s.osTmrTbl y).nstSet value)).body id = s.body id :=
      body_of_tbl (Function.update_of_ne hy _ _)
    obtain ⟨hinv, -⟩ := settings_ok h y value
    rw [TmrCall.exec, nstStart]
    exact start_not_running hinv hy (hown ▸ hr)
  | stop y opt callbackArg =>
    rw [TmrCall.exec, stop_fst]
    split
    · case isTrue hs =>
      have hy : id ≠ y := fun e => hr (e ▸ hs)
      rwa [body_unlink h hy]
    · exact hr

/-- No step but its start makes a timer run, and one that does not run does not expire. -/
theorem step_not_running (h : TmrInv s spokes free rest) (hs : tmrStep s a = some (s', o)) (hp : a.Spares s)
    (hc : a.LeavesOff id) (hr : (s.body id).osTmrState ≠ .running) :
    (s'.body id).osTmrState ≠ .running ∧ expiry id (s, a, o) = none := by
  cases a with
  | call c =>
    obtain ⟨rfl, rfl⟩ := Prod.mk.inj (Option.some.inj hs)
    exact ⟨exec_not_running h c hp hc hr, rfl⟩
  | signal =>
    obtain ⟨-, hs⟩ := Option.ite_none_right_eq_some.mp hs
    obtain ⟨rfl, rfl⟩ := Prod.mk.inj (Option.some.inj hs)
    exact ⟨hr, rfl⟩
  | turn =>
    obtain ⟨x, hx, rfl, rfl⟩ := turn_inv hs
    obtain ⟨rest', rfl⟩ := h.rest_cons hx
    have hid : id ≠ x := fun e => hr (h.running_of_rest (e ▸ List.mem_cons_self))
    by_cases hm : s.osTmrTime = (s.body x).osTmrMatch
    · obtain ⟨_, -, hret, -, hother, -⟩ := turn_due h hm
      refine ⟨hother id hid ▸ hr, ?_⟩
      simp [expiry, hret, hid.symm]
    · obtain ⟨-, heq⟩ := turn_early h hm
      rw [heq]
      exact ⟨hr, rfl⟩
  | finish =>
    obtain ⟨-, hs⟩ := Option.ite_none_right_eq_some.mp hs
    obtain ⟨rfl, rfl⟩ := Prod.mk.inj (Option.some.inj hs)
    exact ⟨hr, rfl⟩

/-- A timer that has been stopped or deleted calls nobody back until it is
started again. It may have been due in the round that stopped it, unless the
loop had saved it. -/
theorem stopped_silent (h₀ : TmrRun before s₁) (hr : (s₁.osTmrTbl id).osTmrState ≠ .running)
    (h : Trace tmrStep s₁ after s₂) (hl : ∀ e ∈ after, e.2.1.Spares e.1 ∧ e.2.1.LeavesOff id) :
    expiries id after = [] := by
  have hrun : (∃ spokes free rest, TmrInv s₂ spokes free rest) ∧ (s₂.body id).osTmrState ≠ .running ∧
      expiries id after = [] := by
    refine h.along (R := fun s a _ => a.Spares s ∧ a.LeavesOff id)
      (H := fun l s => (∃ spokes free rest, TmrInv s spokes free rest) ∧ (s.body id).osTmrState ≠ .running ∧
        expiries id l = []) (fun l s a s' o ⟨⟨_, _, _, hinv⟩, hr, he⟩ hp hs => ?_) ⟨h₀.inv, hr, rfl⟩ hl
    obtain ⟨hr', he'⟩ := step_not_running hinv hs hp.1 hp.2 hr
    obtain ⟨_, _, _, hinv', -⟩ := tmrStep_ok hinv hs hp.1
    refine ⟨⟨_, _, _, hinv'⟩, hr', ?_⟩
    rw [expiries_snoc, he, he']
    rfl
  exact hrun.2.2

def secondStopped : List (TmrAction Bool) := twoTimers ++ [.call (.stop secondTimer osTmrOptNone not)]

theorem stopped_silent_twoTimers : ∃ before, ∃ s₁ : Timers Bool, ∃ after s₂, TmrRun before s₁ ∧
    Trace tmrStep s₁ after s₂ ∧ signals after = 1 ∧ expiries secondTimer after = [] := by
  have hrun := tmrRun_get secondStopped rfl (by decide)
  have htrace : Trace tmrStep ((runTrace tmrStep (osTmrInit : Timers Bool) secondStopped).get rfl).2 _ _ :=
    trace_get [.signal, .finish] rfl
  exact ⟨_, _, _, _, hrun, htrace, rfl, stopped_silent hrun (by decide) htrace (by decide)⟩

end

end GizwitsSdk
