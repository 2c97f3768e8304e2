import GizwitsSdk.Lib.Agenda
import GizwitsSdk.Lib.Trace
import Mathlib.Algebra.BigOperators.Group.List.Basic

/-!
# The timeouts of lwIP: `timers.c`

Each entry of the list holds the time that it is due after the entry before it,
so a wait takes time off the first alone. The clock here is the sum of what the
waits report; a report past the time of the first entry counts as that time, as
the list takes it.
-/

namespace GizwitsSdk

open Lib

/-- `struct sys_timeo`; a null handler is taken from the list like any other, and not called. -/
structure SysTimeo (H A : Type) where
  time : UInt32
  h : H
  arg : A

/-- The list and the free blocks of `MEMP_SYS_TIMEOUT`. -/
structure Timeouts (H A : Type) where
  nextTimeout : List (SysTimeo H A) := []
  free : Nat

section
variable {H A : Type}

def timeoutLoop (timeout : SysTimeo H A) : List (SysTimeo H A) → List (SysTimeo H A)
  | [] => []
  | [t] => [t, { timeout with time := timeout.time - t.time }]
  | t :: next :: rest =>
    let timeout := { timeout with time := timeout.time - t.time }
    if timeout.time < next.time then t :: timeout :: { next with time := next.time - timeout.time } :: rest
    else t :: timeoutLoop timeout (next :: rest)

/-- `sys_timeout`, without a block it does nothing. -/
def sysTimeout (msecs : UInt32) (handler : H) (arg : A) (s : Timeouts H A) : Timeouts H A :=
  if s.free = 0 then s
  else
    let timeout : SysTimeo H A := { time := msecs, h := handler, arg }
    { free := s.free - 1
      nextTimeout :=
        match s.nextTimeout with
        | [] => [timeout]
        | next :: rest =>
          if msecs < next.time then timeout :: { next with time := next.time - msecs } :: rest
          else timeoutLoop timeout (next :: rest) }

/-- `t->next->time += t->time` -/
def giveBack (time : UInt32) : List (SysTimeo H A) → List (SysTimeo H A)
  | [] => []
  | next :: rest => { next with time := next.time + time } :: rest

def untimeoutLoop [DecidableEq H] [DecidableEq A] (handler : H) (arg : A) :
    List (SysTimeo H A) → List (SysTimeo H A)
  | [] => []
  | t :: rest => if t.h = handler ∧ t.arg = arg then giveBack t.time rest else t :: untimeoutLoop handler arg rest

def sysUntimeout [DecidableEq H] [DecidableEq A] (handler : H) (arg : A) (s : Timeouts H A) : Timeouts H A :=
  if s.nextTimeout.any fun t => t.h = handler ∧ t.arg = arg then
    { nextTimeout := untimeoutLoop handler arg s.nextTimeout, free := s.free + 1 }
  else s

def sysArchTimeout : UInt32 := 0xffffffff

/-- `sys_timeouts_mbox_fetch` from `again` to the next `again` or its end:
`timeNeeded` is what `sys_arch_mbox_fetch` returns, where it is called. -/
def mboxFetch (timeNeeded : UInt32) (s : Timeouts H A) : Timeouts H A × Option (H × A) :=
  match s.nextTimeout with
  | [] => (s, none)
  | t :: rest =>
    let timeNeeded := if 0 < t.time then timeNeeded else sysArchTimeout
    if timeNeeded = sysArchTimeout then ({ nextTimeout := rest, free := s.free + 1 }, some (t.h, t.arg))
    else
      let time := if timeNeeded < t.time then t.time - timeNeeded else 0
      ({ s with nextTimeout := { t with time } :: rest }, none)

/-- What runs in the thread of lwIP: its loop, and the calls of handlers and messages. -/
inductive TimeoutAct (H A : Type)
  | timeout (msecs : UInt32) (handler : H) (arg : A)
  | untimeout (handler : H) (arg : A)
  | fetch (timeNeeded : UInt32)

def timeoutExec [DecidableEq H] [DecidableEq A] (s : Timeouts H A) :
    TimeoutAct H A → Timeouts H A × Option (H × A)
  | .timeout msecs handler arg => (sysTimeout msecs handler arg s, none)
  | .untimeout handler arg => (sysUntimeout handler arg s, none)
  | .fetch timeNeeded => mboxFetch timeNeeded s

def timeoutStep [DecidableEq H] [DecidableEq A] (s : Timeouts H A) (a : TimeoutAct H A) :
    Option (Timeouts H A × Option (H × A)) :=
  some (timeoutExec s a)

/-! ## Deadlines -/

/-- The list, as it is due from the clock `c` on. -/
def dues (c : Nat) : List (SysTimeo H A) → List (Due (H × A))
  | [] => []
  | t :: rest => ⟨c + t.time.toNat, (t.h, t.arg)⟩ :: dues (c + t.time.toNat) rest

def elapsed (s : Timeouts H A) : TimeoutAct H A → Nat
  | .timeout .. | .untimeout .. => 0
  | .fetch timeNeeded =>
    match s.nextTimeout with
    | [] => 0
    | t :: _ => min t.time.toNat timeNeeded.toNat

def label (s : Timeouts H A) : TimeoutAct H A → AgendaAct (H × A)
  | .timeout msecs handler arg => if s.free = 0 then .wait 0 else .set msecs.toNat (handler, arg)
  | .untimeout handler arg => .cancel (handler, arg)
  | .fetch timeNeeded =>
    match s.nextTimeout with
    | [] => .wait 0
    | t :: _ =>
      if t.time = 0 ∨ timeNeeded = sysArchTimeout then .fire else .wait (min t.time.toNat timeNeeded.toNat)

def clock (l : List (Timeouts H A × TimeoutAct H A × Option (H × A))) : Nat :=
  (l.map fun e => elapsed e.1 e.2.1).sum

/-- An action that is not about a handler with its argument. -/
def TimeoutAct.Leaves (k : H × A) : TimeoutAct H A → Prop
  | .timeout _ handler arg | .untimeout handler arg => (handler, arg) ≠ k
  | .fetch _ => True

instance decidableLeaves [DecidableEq H] [DecidableEq A] (k : H × A) :
    DecidablePred fun a : TimeoutAct H A => a.Leaves k
  | .timeout _ handler arg => inferInstanceAs (Decidable ((handler, arg) ≠ k))
  | .untimeout handler arg => inferInstanceAs (Decidable ((handler, arg) ≠ k))
  | .fetch _ => inferInstanceAs (Decidable True)

/-- All that is set fits into 32 bits from the clock on. -/
def Room (c : Nat) (l : List (SysTimeo H A)) : Prop := ∀ d ∈ dues c l, d.deadline < c + 2 ^ 32

variable {s s' : Timeouts H A} {timeout t : SysTimeo H A} {rest l : List (SysTimeo H A)} {c n : Nat}
  {a : TimeoutAct H A} {o : Option (H × A)}

theorem le_dues : ∀ d ∈ dues c l, c ≤ d.deadline := by
  induction l generalizing c with
  | nil => intro d hd; cases hd
  | cons t rest ih =>
    intro d hd
    obtain rfl | hd := List.mem_cons.mp hd
    · exact Nat.le_add_right _ _
    · exact Nat.le_trans (Nat.le_add_right _ _) (ih d hd)

theorem Room.tail (h : Room c (t :: rest)) : Room (c + t.time.toNat) rest := by
  intro d hd
  have := h d (List.mem_cons_of_mem _ hd)
  omega

/-- What is left behind an earlier entry falls due at the same time. -/
theorem add_toNat_sub {m n : UInt32} (c : Nat) (h : m ≤ n) : c + m.toNat + (n - m).toNat = c + n.toNat := by
  have hle := UInt32.le_iff_toNat_le.mp h
  have hsub := UInt32.toNat_sub_of_le n m h
  omega

theorem dues_timeoutLoop (hle : t.time ≤ timeout.time) :
    dues c (timeoutLoop timeout (t :: rest)) =
      enter ⟨c + timeout.time.toNat, (timeout.h, timeout.arg)⟩ (dues c (t :: rest)) := by
  induction rest generalizing t timeout c with
  | nil =>
    have hle' := UInt32.le_iff_toNat_le.mp hle
    rw [enter, dues, List.orderedInsert_cons, if_neg (by simpa using hle')]
    simp only [timeoutLoop, dues, add_toNat_sub c hle, List.orderedInsert_nil]
  | cons next rest ih =>
    have hle' := UInt32.le_iff_toNat_le.mp hle
    have hsum := add_toNat_sub c hle
    rw [enter, dues, List.orderedInsert_cons, if_neg (by simpa using hle')]
    simp only [timeoutLoop]
    split
    · case isTrue hlt =>
      have hlt' := UInt32.lt_iff_toNat_lt.mp hlt
      have hnext := add_toNat_sub (c + t.time.toNat) (UInt32.le_of_lt hlt)
      rw [hsum] at hnext
      simp only [dues, hsum, hnext, List.orderedInsert_cons]
      rw [if_pos (by omega)]
    · case isFalse hge =>
      have hih : dues (c + t.time.toNat) (timeoutLoop { timeout with time := timeout.time - t.time } (next :: rest)) =
          enter ⟨c + t.time.toNat + (timeout.time - t.time).toNat, (timeout.h, timeout.arg)⟩
            (dues (c + t.time.toNat) (next :: rest)) := ih (UInt32.not_lt.mp hge)
      rw [dues, hih, hsum, enter]

theorem dues_sysTimeout (hf : s.free ≠ 0) (msecs : UInt32) (handler : H) (arg : A) :
    dues c (sysTimeout msecs handler arg s).nextTimeout =
      enter ⟨c + msecs.toNat, (handler, arg)⟩ (dues c s.nextTimeout) := by
  obtain ⟨l, free⟩ := s
  rw [sysTimeout, if_neg hf]
  cases l with
  | nil => rfl
  | cons next rest =>
    show dues c (if msecs < next.time then _ else _) = _
    split
    · case isTrue hlt =>
      have hlt' := UInt32.lt_iff_toNat_lt.mp hlt
      simp only [enter, dues, add_toNat_sub c (UInt32.le_of_lt hlt), List.orderedInsert_cons]
      rw [if_pos (by omega)]
    · case isFalse hge =>
      exact dues_timeoutLoop (UInt32.not_lt.mp hge)

theorem dues_inOrder : InOrder (c, dues c l) := by
  refine ⟨fun d hd => le_dues d hd, ?_⟩
  induction l generalizing c with
  | nil => exact List.Pairwise.nil
  | cons t rest ih => exact List.pairwise_cons.mpr ⟨fun d hd => le_dues d hd, ih⟩

theorem label_within (s : Timeouts H A) (a : TimeoutAct H A) : (label s a).Within (2 ^ 32) := by
  cases a with
  | timeout msecs handler arg =>
    simp only [label]
    split
    · exact trivial
    · exact msecs.toNat_lt
  | untimeout handler arg => exact trivial
  | fetch timeNeeded =>
    simp only [label]
    split
    · exact trivial
    · split <;> exact trivial

theorem clock_snoc (l : List (Timeouts H A × TimeoutAct H A × Option (H × A))) (s : Timeouts H A) (a : TimeoutAct H A)
    (o : Option (H × A)) : clock (l ++ [(s, a, o)]) = clock l + elapsed s a := by
  simp [clock]

theorem label_leaves {k : H × A} (h : a.Leaves k) : (label s a).Leaves k := by
  cases a with
  | timeout msecs handler arg =>
    simp only [label]
    split
    · exact trivial
    · exact h
  | untimeout handler arg => exact h
  | fetch timeNeeded =>
    simp only [label]
    split
    · exact trivial
    · split <;> exact trivial

variable [DecidableEq H] [DecidableEq A]

theorem dues_untimeoutLoop (handler : H) (arg : A) (h : Room c l) :
    dues c (untimeoutLoop handler arg l) = (dues c l).eraseP (·.key = (handler, arg)) := by
  induction l generalizing c with
  | nil => rfl
  | cons t rest ih =>
    unfold untimeoutLoop
    split
    · case isTrue hk =>
      rw [dues, List.eraseP_cons_of_pos (by simpa using hk)]
      cases rest with
      | nil => rfl
      | cons next rest =>
        have hroom := h ⟨c + t.time.toNat + next.time.toNat, (next.h, next.arg)⟩
          (List.mem_cons_of_mem _ List.mem_cons_self)
        have hadd : (next.time + t.time).toNat = next.time.toNat + t.time.toNat := by
          rw [UInt32.toNat_add]
          exact Nat.mod_eq_of_lt (by simp only at hroom; omega)
        have hsum : c + (next.time.toNat + t.time.toNat) = c + t.time.toNat + next.time.toNat := by omega
        simp only [giveBack, dues, hadd, hsum]
    · case isFalse hk =>
      rw [dues, dues, List.eraseP_cons_of_neg (by simpa using hk), ih h.tail]

theorem untimeoutLoop_none {handler : H} {arg : A} (h : ¬ (l.any fun t => t.h = handler ∧ t.arg = arg) = true) :
    untimeoutLoop handler arg l = l := by
  induction l with
  | nil => rfl
  | cons t rest ih =>
    rw [List.any_cons, Bool.or_eq_true, not_or] at h
    rw [untimeoutLoop, if_neg (by simpa using h.1), ih h.2]

theorem sysUntimeout_list (handler : H) (arg : A) (s : Timeouts H A) :
    (sysUntimeout handler arg s).nextTimeout = untimeoutLoop handler arg s.nextTimeout := by
  unfold sysUntimeout
  split
  · rfl
  · case isFalse h => exact (untimeoutLoop_none h).symm

/-- Every action is a step of the agenda. -/
theorem exec_step (h : Room c s.nextTimeout) (a : TimeoutAct H A) :
    agendaStep (c, dues c s.nextTimeout) (label s a) =
      some ((c + elapsed s a, dues (c + elapsed s a) (timeoutExec s a).1.nextTimeout), (timeoutExec s a).2) := by
  have hstill : agendaStep (c, dues c s.nextTimeout) (.wait 0) = some ((c + 0, dues c s.nextTimeout), none) :=
    if_pos fun d hd => le_dues d hd
  cases a with
  | timeout msecs handler arg =>
    simp only [label, elapsed, timeoutExec]
    split
    · case isTrue hf => rw [hstill, sysTimeout, if_pos hf]; rfl
    · case isFalse hf =>
      rw [Nat.add_zero, dues_sysTimeout hf]
      rfl
  | untimeout handler arg =>
    simp only [label, elapsed, timeoutExec]
    rw [Nat.add_zero, sysUntimeout_list, dues_untimeoutLoop handler arg h]
    rfl
  | fetch timeNeeded =>
    obtain ⟨l, free⟩ := s
    cases l with
    | nil => exact hstill
    | cons t rest =>
      have ht := t.time.toNat_lt
      simp only [label, elapsed, timeoutExec, mboxFetch]
      by_cases hfire : t.time = 0 ∨ timeNeeded = sysArchTimeout
      · have hneeded : (if 0 < t.time then timeNeeded else sysArchTimeout) = sysArchTimeout := by
          obtain h0 | hto := hfire
          · rw [if_neg (by rw [h0]; exact UInt32.lt_irrefl 0)]
          · rw [hto, ite_self]
        have hmin : min t.time.toNat timeNeeded.toNat = t.time.toNat := by
          obtain h0 | hto := hfire
          · rw [h0]; exact Nat.zero_min _
          · have : timeNeeded.toNat = 2 ^ 32 - 1 := by rw [hto]; rfl
            omega
        rw [if_pos hfire, if_pos hneeded, hmin]
        rfl
      · obtain ⟨h0, hto⟩ := not_or.mp hfire
        have hpos : 0 < t.time := UInt32.pos_iff_ne_zero.mpr h0
        rw [if_neg hfire, if_pos hpos, if_neg hto]
        have htime : c + min t.time.toNat timeNeeded.toNat +
            (if timeNeeded < t.time then t.time - timeNeeded else 0).toNat = c + t.time.toNat := by
          split
          · case isTrue hlt =>
            have hlt' := UInt32.lt_iff_toNat_lt.mp hlt
            rw [Nat.min_eq_right (Nat.le_of_lt hlt'), add_toNat_sub c (UInt32.le_of_lt hlt)]
          · case isFalse hge =>
            have hle' := UInt32.le_iff_toNat_le.mp (UInt32.not_lt.mp hge)
            rw [Nat.min_eq_left hle', UInt32.toNat_zero, Nat.add_zero]
        simp only [dues, htime]
        refine if_pos fun d hd => ?_
        obtain rfl | hd := List.mem_cons.mp hd
        · show c + min t.time.toNat timeNeeded.toNat ≤ c + t.time.toNat
          omega
        · have : c + t.time.toNat ≤ d.deadline := le_dues d hd
          omega

theorem room_step (h : Room c s.nextTimeout) (a : TimeoutAct H A) :
    Room (c + elapsed s a) (timeoutExec s a).1.nextTimeout :=
  agendaStep_within dues_inOrder h (label_within s a) (exec_step h a)

/-! ## Runs -/

def bootTimeouts (n : Nat) : Timeouts H A := { free := n }

variable {before after l₁ : List (Timeouts H A × TimeoutAct H A × Option (H × A))} {s₀ s₁ s₂ : Timeouts H A}

theorem run_room (h : Trace timeoutStep s₀ l₁ s₁) (h₀ : Room c s₀.nextTimeout) :
    Room (c + clock l₁) s₁.nextTimeout := by
  induction h with
  | nil => exact h₀
  | snoc _ hs ih =>
    obtain ⟨rfl, rfl⟩ := Prod.mk.inj (Option.some.inj hs)
    rw [clock_snoc, ← Nat.add_assoc]
    exact room_step ih _

/-- Every run is a run of the agenda: the same calls, at the deadlines. -/
theorem timeouts_refine (h : Trace timeoutStep (bootTimeouts n) l₁ s₁) :
    ∃ l', Trace agendaStep (0, []) l' (clock l₁, dues (clock l₁) s₁.nextTimeout) ∧
      (l'.map fun e => e.2) = l₁.map fun e => (label e.1 e.2.1, e.2.2) := by
  induction h with
  | nil => exact ⟨[], .nil, rfl⟩
  | @snoc l s s' a o ht hs ih =>
    obtain ⟨l', ht', hmap⟩ := ih
    have hroom := run_room (c := 0) ht fun d hd => by cases hd
    rw [Nat.zero_add] at hroom
    have hstep := exec_step hroom a
    rw [show timeoutExec s a = (s', o) from Option.some.inj hs] at hstep
    rw [clock_snoc]
    exact ⟨_, ht'.snoc hstep, by rw [List.map_append, List.map_append, hmap]; rfl⟩

/-- Two timeouts, a message after 30 ms, and the two run out. -/
def twoTimeouts : List (TimeoutAct Bool Unit) :=
  [.timeout 250 true (), .timeout 100 false (), .fetch 30, .fetch sysArchTimeout, .fetch sysArchTimeout]

theorem timeouts_refine_two : ∃ l s l', Trace timeoutStep (bootTimeouts 8 : Timeouts Bool Unit) l s ∧ l.length = 5 ∧
    Trace agendaStep (0, []) l' ((250, []) : Nat × List (Due (Bool × Unit))) := by
  have h : Trace timeoutStep (bootTimeouts 8 : Timeouts Bool Unit) _ _ := trace_get twoTimeouts rfl
  obtain ⟨l', ht, -⟩ := timeouts_refine h
  exact ⟨_, _, l', h, rfl, ht⟩

/-! ## One timeout -/

/-- When a handler is called, by the clock that stands at `c` at first. -/
def callsAt (k : H × A) : Nat → List (Timeouts H A × TimeoutAct H A × Option (H × A)) → List Nat
  | _, [] => []
  | c, e :: l =>
    let c := c + elapsed e.1 e.2.1
    if e.2.2 = some k then c :: callsAt k c l else callsAt k c l

theorem callsAt_snoc (k : H × A) (l : List (Timeouts H A × TimeoutAct H A × Option (H × A)))
    (e : Timeouts H A × TimeoutAct H A × Option (H × A)) :
    callsAt k c (l ++ [e]) =
      callsAt k c l ++ if e.2.2 = some k then [c + clock l + elapsed e.1 e.2.1] else [] := by
  induction l generalizing c with
  | nil => simp [callsAt, clock]
  | cons b l ih =>
    have hc : c + elapsed b.1 b.2.1 + clock l = c + clock (b :: l) := by
      rw [clock, clock, List.map_cons, List.sum_cons, Nat.add_assoc]
    simp only [List.cons_append, callsAt, ih, hc]
    split <;> rfl

theorem dues_keys {k : H × A} (h : ∀ t ∈ l, (t.h, t.arg) ≠ k) : (dues c l).filter (·.key = k) = [] := by
  induction l generalizing c with
  | nil => rfl
  | cons t rest ih =>
    have ht := h t List.mem_cons_self
    rw [dues, List.filter_cons_of_neg (by simpa using ht)]
    exact ih fun x hx => h x (List.mem_cons_of_mem _ hx)

/-- A timeout that has been set is awaited, by the clock of the list, as long as no action is about it. -/
theorem timeout_awaited {msecs : UInt32} {handler : H} {arg : A} (h₀ : Trace timeoutStep (bootTimeouts n) before s₀)
    (hs : timeoutStep s₀ (.timeout msecs handler arg) = some (s₁, o)) (hfree : s₀.free ≠ 0)
    (hnew : ∀ t ∈ s₀.nextTimeout, (t.h, t.arg) ≠ (handler, arg)) (h : Trace timeoutStep s₁ after s₂)
    (hl : ∀ e ∈ after, e.2.1.Leaves (handler, arg)) :
    Awaits (handler, arg) (clock before + msecs.toNat) (callsAt (handler, arg) (clock before) after)
      (clock before + clock after, dues (clock before + clock after) s₂.nextTimeout) := by
  have hroom := run_room (c := 0) h₀ fun d hd => by cases hd
  rw [Nat.zero_add] at hroom
  obtain ⟨rfl, -⟩ := Prod.mk.inj (Option.some.inj hs)
  have hset : Awaits (handler, arg) (clock before + msecs.toNat) []
      (clock before, dues (clock before) (sysTimeout msecs handler arg s₀).nextTimeout) := by
    refine .inl ⟨rfl, Nat.le_add_right _ _, ?_⟩
    rw [dues_sysTimeout hfree]
    exact filter_enter_self (d := ⟨_, handler, arg⟩) (dues_keys hnew)
  have hrun : Room (clock before + clock after) s₂.nextTimeout ∧
      Awaits (handler, arg) (clock before + msecs.toNat) (callsAt (handler, arg) (clock before) after)
        (clock before + clock after, dues (clock before + clock after) s₂.nextTimeout) := by
    refine h.along (R := fun _ a _ => a.Leaves (handler, arg))
      (H := fun l s => Room (clock before + clock l) s.nextTimeout ∧
        Awaits (handler, arg) (clock before + msecs.toNat) (callsAt (handler, arg) (clock before) l)
          (clock before + clock l, dues (clock before + clock l) s.nextTimeout))
      (fun l s a s' o hind hp hs => ?_) ⟨room_step hroom (.timeout msecs handler arg), hset⟩ hl
    obtain ⟨hr, hind⟩ := hind
    have hr' := room_step hr a
    have hstep := exec_step hr a
    rw [show timeoutExec s a = (s', o) from Option.some.inj hs] at hstep hr'
    have hnext := hind.step dues_inOrder (label_leaves hp) hstep
    rw [callsAt_snoc, clock_snoc, ← Nat.add_assoc]
    exact ⟨hr', hnext⟩
  exact hrun.2

/-- A timeout is called once its time has gone by, and at that time. -/
theorem timeout_exact {msecs : UInt32} {handler : H} {arg : A} (h₀ : Trace timeoutStep (bootTimeouts n) before s₀)
    (hs : timeoutStep s₀ (.timeout msecs handler arg) = some (s₁, o)) (hfree : s₀.free ≠ 0)
    (hnew : ∀ t ∈ s₀.nextTimeout, (t.h, t.arg) ≠ (handler, arg)) (h : Trace timeoutStep s₁ after s₂)
    (hl : ∀ e ∈ after, e.2.1.Leaves (handler, arg)) :
    callsAt (handler, arg) (clock before) after = [] ∧ clock after ≤ msecs.toNat ∨
      callsAt (handler, arg) (clock before) after = [clock before + msecs.toNat] ∧ msecs.toNat ≤ clock after := by
  obtain ⟨ht, hle, -⟩ | ⟨ht, hle, -⟩ := timeout_awaited h₀ hs hfree hnew h hl
  · exact .inl ⟨ht, Nat.le_of_add_le_add_left hle⟩
  · exact .inr ⟨ht, Nat.le_of_add_le_add_left hle⟩

theorem timeout_exact_two : ∃ (s₁ : Timeouts Bool Unit) (after : _) (s₂ : _),
    Trace timeoutStep s₁ after s₂ ∧ callsAt (true, ()) 0 after = [250] := by
  have hs : timeoutStep (bootTimeouts 8) (.timeout 250 true ()) =
      some (timeoutExec (bootTimeouts 8) (.timeout 250 true ())) := rfl
  have h : Trace timeoutStep (timeoutExec (bootTimeouts 8) (.timeout 250 true ())).1 _ _ :=
    trace_get twoTimeouts.tail rfl
  have hcall := timeout_exact .nil hs (by decide) (fun t ht => by cases ht) h (by decide)
  exact ⟨_, _, _, h, (hcall.resolve_left (by decide)).1⟩

end

end GizwitsSdk
