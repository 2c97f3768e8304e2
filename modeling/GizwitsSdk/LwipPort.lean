import GizwitsSdk.LwipTimers
import GizwitsSdk.SysArch

/-!
# The timeouts of lwIP on the ticks of the kernel

`sys_timeouts_mbox_fetch` waits with the `sys_arch_mbox_fetch` of the port, which
rounds a wait down to ticks and what it reports up to milliseconds. So a wait ends
too early rather than too late, but for one that is shorter than a tick, and one
that the count of ticks wraps in.
-/

namespace GizwitsSdk

open Lib

/-- The thread of lwIP on the port: a fetch begins at the tick `start`, and the kernel ends its wait. -/
inductive PortAct (H A P : Type)
  | timeout (msecs : UInt32) (handler : H) (arg : A)
  | untimeout (handler : H) (arg : A)
  | fetch (start : UInt32) (pend : UInt16 → Pend P)

/-- A wait for the first entry: its time, and the ticks. -/
structure PortWait where
  time : UInt32
  count : UInt16
  start : UInt32
  finish : UInt32

def PortWait.ticks (w : PortWait) : Nat := (w.finish - w.start).toNat

/-- The kernel ends a wait by the last tick of its count. -/
def PortWait.InTime (w : PortWait) : Prop := w.ticks ≤ w.count.toNat

instance decidableInTime (w : PortWait) : Decidable w.InTime := inferInstanceAs (Decidable (_ ≤ _))

/-- What the report may be short of the ticks, in milliseconds. -/
def PortWait.slack (w : PortWait) : Nat := if w.time < 10 ∨ w.finish < w.start then 9 else 0

section
variable {H A P : Type} [DecidableEq P]

def PortAct.onPort (pvNullPointer : P) (s : Timeouts H A) : PortAct H A P → TimeoutAct H A
  | .timeout msecs handler arg => .timeout msecs handler arg
  | .untimeout handler arg => .untimeout handler arg
  | .fetch start pend =>
    match s.nextTimeout with
    | [] => .fetch (sysArchMboxFetch pvNullPointer 0 start pend).timeout
    | t :: _ => .fetch (sysArchMboxFetch pvNullPointer t.time start pend).timeout

def portStep [DecidableEq H] [DecidableEq A] (pvNullPointer : P) (s : Timeouts H A) (a : PortAct H A P) :
    Option (Timeouts H A × Option (H × A)) :=
  timeoutStep s (a.onPort pvNullPointer s)

/-- The wait of a fetch; an entry with no time left is not waited for. -/
def portWait (pvNullPointer : P) (s : Timeouts H A) : PortAct H A P → Option PortWait
  | .timeout .. | .untimeout .. => none
  | .fetch start pend =>
    match s.nextTimeout with
    | [] => none
    | t :: _ =>
      if 0 < t.time then
        let count := (sysArchMboxFetch pvNullPointer t.time start pend).count
        some { time := t.time, count, start, finish := (pend count).finish }
      else none

/-- The waits of a run, while there was a timeout to wait for. -/
def portWaits (pvNullPointer : P) (l : List (Timeouts H A × PortAct H A P × Option (H × A))) : List PortWait :=
  l.filterMap fun e => portWait pvNullPointer e.1 e.2.1

/-- A run on the port, as a run of the list. -/
def onPort (pvNullPointer : P) (l : List (Timeouts H A × PortAct H A P × Option (H × A))) :
    List (Timeouts H A × TimeoutAct H A × Option (H × A)) :=
  l.map fun e => (e.1, e.2.1.onPort pvNullPointer e.1, e.2.2)

def PortAct.Leaves (k : H × A) : PortAct H A P → Prop
  | .timeout _ handler arg | .untimeout handler arg => (handler, arg) ≠ k
  | .fetch .. => True

instance decidablePortLeaves [DecidableEq H] [DecidableEq A] (k : H × A) :
    DecidablePred fun a : PortAct H A P => a.Leaves k
  | .timeout _ handler arg => inferInstanceAs (Decidable ((handler, arg) ≠ k))
  | .untimeout handler arg => inferInstanceAs (Decidable ((handler, arg) ≠ k))
  | .fetch .. => inferInstanceAs (Decidable True)

variable {pvNullPointer : P} {s s' : Timeouts H A} {a : PortAct H A P} {o : Option (H × A)} {n : Nat}
  {l : List (Timeouts H A × PortAct H A P × Option (H × A))}

/-! ## One wait -/

theorem count_le (pvNullPointer : P) {timeout : UInt32} (h : timeout ≠ 0) (start : UInt32) (pend : UInt16 → Pend P) :
    (sysArchMboxFetch pvNullPointer timeout start pend).count.toNat ≤ max 1 (timeout.toNat / 10) := by
  have hcut : cutTicks timeout ≤ timeout.toNat / 10 := by
    have := Nat.mod_le (timeout.toNat * 100) (2 ^ 32)
    unfold cutTicks
    omega
  show (ucosTimeout 65535 timeout).toUInt16.toNat ≤ _
  rw [count_eq (n := 65535) (by decide) h rfl]
  split
  · omega
  · have := Nat.mod_le (max 1 (cutTicks timeout)) 65536
    omega

/-- What a wait that was satisfied reports, from its ticks. -/
theorem report_le (start finish : UInt32) (hd : (finish - start).toNat < 65536) :
    (finish - start).toNat = 0 ∨
      (finish - start).toNat * 10 + 1 ≤
        (ticksToMs (if start < finish then finish - start else 0xffffffff - start + finish)).toNat +
          if finish < start then 10 else 0 := by
  split
  · case isTrue hlt =>
    right
    rw [(ticksToMs_iff _).mpr (by omega)]
    exact Nat.le_add_right _ _
  · case isFalse hge =>
    obtain hlt | heq := UInt32.lt_or_eq_of_le (UInt32.not_lt.mp hge)
    · right
      have hpos : 1 ≤ (finish - start).toNat := by
        have hne : finish - start ≠ 0 := by grind
        have := UInt32.toNat_inj.not.mpr hne
        rw [UInt32.toNat_zero] at this
        omega
      have hone : (finish - start - 1).toNat = (finish - start).toNat - 1 :=
        UInt32.toNat_sub_of_le _ 1 (UInt32.le_iff_toNat_le.mpr hpos)
      rw [elapsed_from_max, (ticksToMs_iff _).mpr (by omega), hone, if_pos hlt]
      omega
    · left
      rw [heq, UInt32.sub_self, UInt32.toNat_zero]

/-- The clock goes on by the ticks of a wait, but for its slack. -/
theorem wait_not_late {w : PortWait} (hw : portWait pvNullPointer s a = some w) (hin : w.InTime) :
    w.ticks * 10 ≤ elapsed s (a.onPort pvNullPointer s) + w.slack := by
  cases a with
  | timeout msecs handler arg => cases hw
  | untimeout handler arg => cases hw
  | fetch start pend =>
    obtain ⟨nextTimeout, free⟩ := s
    cases nextTimeout with
    | nil => cases hw
    | cons t rest =>
      obtain ⟨hpos, hw⟩ := Option.ite_none_right_eq_some.mp hw
      obtain rfl := Option.some.inj hw
      have ht : 0 < t.time.toNat := hpos
      have hcount := count_le pvNullPointer (UInt32.pos_iff_ne_zero.mp hpos) start pend
      have h16 := (sysArchMboxFetch pvNullPointer t.time start pend).count.toNat_lt
      have hten : t.time < 10 ↔ t.time.toNat < 10 := UInt32.lt_iff_toNat_lt
      simp only [PortWait.InTime, PortWait.ticks, PortWait.slack, PortAct.onPort, elapsed, hten] at hin ⊢
      generalize hc : (sysArchMboxFetch pvNullPointer t.time start pend).count = count at *
      have hreport : (sysArchMboxFetch pvNullPointer t.time start pend).timeout =
          if (pend count).timedOut then 0xffffffff
          else ticksToMs (if start < (pend count).finish then (pend count).finish - start
            else 0xffffffff - start + (pend count).finish) := by
        rw [← hc]
        rfl
      rw [hreport]
      have hsat := report_le start (pend count).finish (by omega)
      split
      · have htop : (0xffffffff : UInt32).toNat = 2 ^ 32 - 1 := rfl
        have htime := t.time.toNat_lt
        rw [htop]
        split <;> omega
      · generalize (ticksToMs _).toNat = report at *
        by_cases hwrap : (pend count).finish < start
        · rw [if_pos hwrap] at hsat
          rw [if_pos (.inr hwrap)]
          omega
        · rw [if_neg hwrap] at hsat
          simp only [hwrap, or_false]
          split <;> omega

/-! ## Runs -/

/-- The clock of the list is behind the kernel's by the slack of the waits at most. -/
theorem clock_not_late (hl : ∀ w ∈ portWaits pvNullPointer l, w.InTime) :
    ((portWaits pvNullPointer l).map PortWait.ticks).sum * 10 ≤
      clock (onPort pvNullPointer l) + ((portWaits pvNullPointer l).map PortWait.slack).sum := by
  induction l with
  | nil => exact Nat.le_refl 0
  | cons e l ih =>
    have hclock : clock (onPort pvNullPointer (e :: l)) =
        elapsed e.1 (e.2.1.onPort pvNullPointer e.1) + clock (onPort pvNullPointer l) := by
      rw [clock, onPort, List.map_cons, List.map_cons, List.sum_cons]
      rfl
    rw [hclock]
    cases hw : portWait pvNullPointer e.1 e.2.1 with
    | none =>
      have hwaits : portWaits pvNullPointer (e :: l) = portWaits pvNullPointer l := List.filterMap_cons_none hw
      rw [hwaits] at hl ⊢
      have := ih hl
      omega
    | some w =>
      have hwaits : portWaits pvNullPointer (e :: l) = w :: portWaits pvNullPointer l := List.filterMap_cons_some hw
      rw [hwaits] at hl ⊢
      have hstep := wait_not_late hw (hl w List.mem_cons_self)
      have := ih fun w' hw' => hl w' (List.mem_cons_of_mem _ hw')
      simp only [List.map_cons, List.sum_cons]
      omega

theorem onPort_leaves {k : H × A} (h : a.Leaves k) : (a.onPort pvNullPointer s).Leaves k := by
  cases a with
  | timeout msecs handler arg => exact h
  | untimeout handler arg => exact h
  | fetch start pend =>
    simp only [PortAct.onPort]
    split <;> exact trivial

variable [DecidableEq H] [DecidableEq A]

theorem callsAt_nil {k : H × A} {l : List (Timeouts H A × TimeoutAct H A × Option (H × A))}
    (h : ∀ e ∈ l, e.2.2 ≠ some k) (c : Nat) : callsAt k c l = [] := by
  induction l generalizing c with
  | nil => rfl
  | cons e l ih =>
    simp only [callsAt]
    rw [if_neg (h e List.mem_cons_self)]
    exact ih (fun e' he' => h e' (List.mem_cons_of_mem _ he')) _

theorem onPort_run (h : Trace (portStep pvNullPointer) s l s') : Trace timeoutStep s (onPort pvNullPointer l) s' := by
  induction h with
  | nil => exact .nil
  | snoc _ hs ih =>
    rw [onPort, List.map_append]
    exact ih.snoc hs

variable {before after : List (Timeouts H A × PortAct H A P × Option (H × A))} {s₀ s₁ s₂ : Timeouts H A}

/-- As long as a timeout has not been called, its time in ticks has not gone by,
but for the slack of the waits. -/
theorem timeout_not_late {msecs : UInt32} {handler : H} {arg : A}
    (h₀ : Trace (portStep pvNullPointer) (bootTimeouts n) before s₀)
    (hs : portStep pvNullPointer s₀ (.timeout msecs handler arg) = some (s₁, o)) (hfree : s₀.free ≠ 0)
    (hnew : ∀ t ∈ s₀.nextTimeout, (t.h, t.arg) ≠ (handler, arg)) (h : Trace (portStep pvNullPointer) s₁ after s₂)
    (hl : ∀ e ∈ after, e.2.1.Leaves (handler, arg)) (hin : ∀ w ∈ portWaits pvNullPointer after, w.InTime)
    (hcall : ∀ e ∈ after, e.2.2 ≠ some (handler, arg)) :
    ((portWaits pvNullPointer after).map PortWait.ticks).sum * 10 ≤
      msecs.toNat + ((portWaits pvNullPointer after).map PortWait.slack).sum := by
  have hleaves : ∀ e ∈ onPort pvNullPointer after, e.2.1.Leaves (handler, arg) := by
    intro e he
    obtain ⟨e', he', rfl⟩ := List.mem_map.mp he
    exact onPort_leaves (hl e' he')
  have hsilent : ∀ e ∈ onPort pvNullPointer after, e.2.2 ≠ some (handler, arg) := by
    intro e he
    obtain ⟨e', he', rfl⟩ := List.mem_map.mp he
    exact hcall e' he'
  have hclock : clock (onPort pvNullPointer after) ≤ msecs.toNat := by
    obtain ⟨-, hle, -⟩ | ⟨hat, -⟩ := timeout_awaited (onPort_run h₀) hs hfree hnew (onPort_run h) hleaves
    · exact Nat.le_of_add_le_add_left hle
    · rw [callsAt_nil hsilent] at hat
      cases hat
  have := clock_not_late hin
  omega

/-- A message after three ticks, and a second timeout that runs out. -/
theorem timeout_not_late_two : ∃ (after : List (Timeouts Bool Unit × PortAct Bool Unit Nat × Option (Bool × Unit)))
    (s₁ s₂ : Timeouts Bool Unit), Trace (portStep 0) s₁ after s₂ ∧ after.length = 3 ∧
      ((portWaits 0 after).map PortWait.ticks).sum * 10 ≤ 250 + ((portWaits 0 after).map PortWait.slack).sum := by
  have hs : portStep 0 (bootTimeouts 8) (.timeout 250 true () : PortAct Bool Unit Nat) =
      some (timeoutExec (bootTimeouts 8) (.timeout 250 true ())) := rfl
  have h : Trace (portStep 0) (timeoutExec (bootTimeouts 8) (.timeout 250 true ())).1 _ _ :=
    trace_get ([.timeout 100 false (), .fetch 5 fun _ => ⟨false, some 1, 8⟩,
      .fetch 8 fun count => ⟨true, none, 8 + count.toUInt32⟩] : List (PortAct Bool Unit Nat)) rfl
  have hle := timeout_not_late .nil hs (by decide) (fun t ht => by cases ht) h (by decide) (by decide) (by decide)
  exact ⟨_, _, _, h, rfl, hle⟩

end

end GizwitsSdk
