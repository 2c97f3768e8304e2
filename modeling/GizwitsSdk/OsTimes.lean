import GizwitsSdk.OsFrame
import GizwitsSdk.OsTaskRuns

/-!
# Delays and timeouts

An `OSTimeTick` looks at every task once, however far its loop has got when the
run is cut. A delay ends with the tick that is its last and not before. A pend
has the outcome of what has reached the task, and times out where nothing has.
-/

namespace GizwitsSdk

open Lib

section
variable {E : Type}

/-! ## Delays and pends as words -/

def Ev.isTick : Ev E → Bool
  | tick => true
  | _ => false

/-- How often a tick has looked at the task. -/
def looks (evs : List (Ev E)) : Nat := evs.countP Ev.isTick

/-- What has reached the task: how its pend ends, and with which message. -/
def Ev.reached : Ev E → Option (StatPend × Ptr)
  | wake _ pmsg ps => some (ps, pmsg)
  | _ => none

def reached (evs : List (Ev E)) : List (StatPend × Ptr) := evs.filterMap Ev.reached

variable {os os' : Option (Status E)} {evs evs₁ evs₂ : List (Ev E)} {b : Bool} {n : Nat} {e : E} {ph : Phase E}

theorem looks_append : looks (evs₁ ++ evs₂) = looks evs₁ + looks evs₂ := List.countP_append

@[simp] theorem looks_tick : looks (.tick :: evs) = looks evs + 1 := List.countP_cons_of_pos rfl

theorem looks_cons {ev : Ev E} (h : ev.isTick = false) : looks (ev :: evs) = looks evs :=
  List.countP_cons_of_neg (by simp [h])

@[simp] theorem reached_wake {pmsg : Ptr} {ps : StatPend} :
    reached (.wake e pmsg ps :: evs) = (ps, pmsg) :: reached evs := rfl

theorem reached_cons {ev : Ev E} (h : ev.reached = none) : reached (ev :: evs) = reached evs :=
  List.filterMap_cons_none h

theorem isSome_of_leads (h : Leads os evs os') (hs : os.isSome = true) (hd : .delete ∉ evs) :
    os'.isSome = true := by
  induction evs generalizing os with
  | nil =>
    obtain rfl : os' = os := h
    exact hs
  | cons ev evs ih =>
    obtain ⟨hne, hd⟩ := List.ne_and_not_mem_of_not_mem_cons hd
    refine ih h.2 ?_ hd
    cases ev with
    | delete => exact absurd rfl hne
    | create => rfl
    | wake e m ps | tick | expire | suspend | resume | block e n | delay n | ret => simpa [Ev.apply] using hs

/-- What can happen to a task in a delay or a pend, before it runs or is deleted. -/
theorem fits_busy {ev : Ev E} (h : ev.Fits (some ⟨ph, b⟩)) (ho : ph ≠ .own) (hr : ph.awake = true → .ret ≠ ev)
    (hd : .delete ≠ ev) :
    (∃ e pmsg ps, ev = .wake e pmsg ps ∧ ps.Wakes ∧ ph.waitsFor = some e) ∨ ev = .tick ∨ ev = .expire ∨
      ev = .suspend ∨ ev = .resume := by
  cases ev with
  | wake e pmsg ps =>
    obtain ⟨hps, s, hs, hw⟩ := h
    obtain rfl := Option.some.inj hs
    exact .inl ⟨e, pmsg, ps, rfl, hps, hw⟩
  | tick => exact .inr (.inl rfl)
  | expire => exact .inr (.inr (.inl rfl))
  | suspend => exact .inr (.inr (.inr (.inl rfl)))
  | resume => exact .inr (.inr (.inr (.inr rfl)))
  | block e m =>
    obtain ⟨s, hs, hown⟩ := h
    obtain rfl := Option.some.inj hs
    exact absurd hown ho
  | delay m =>
    obtain ⟨-, s, hs, hown⟩ := h
    obtain rfl := Option.some.inj hs
    exact absurd hown ho
  | ret =>
    obtain ⟨s, e, hs, ha, -⟩ := h
    obtain rfl := Option.some.inj hs
    exact absurd rfl (hr ha)
  | create => cases h
  | delete => exact absurd rfl hd

/-- A delay takes its ticks one by one. -/
theorem leads_delayed (h : Leads (some ⟨.delayed n, b⟩) evs os') (hx : .expire ∉ evs) (hd : .delete ∉ evs)
    (hlt : looks evs < n) : ∃ b', os' = some ⟨.delayed (n - looks evs), b'⟩ := by
  induction evs generalizing n b with
  | nil => exact ⟨b, h⟩
  | cons ev evs ih =>
    obtain ⟨hfit, h⟩ := h
    obtain ⟨hnx, hxs⟩ := List.ne_and_not_mem_of_not_mem_cons hx
    obtain ⟨hnd, hds⟩ := List.ne_and_not_mem_of_not_mem_cons hd
    obtain ⟨e, m, ps, rfl, -, hw⟩ | rfl | rfl | rfl | rfl := fits_busy hfit nofun nofun hnd
    · cases hw
    · rw [looks_tick] at hlt ⊢
      have hn : n ≠ 1 := by omega
      have hstep : Ev.tick.apply (some ⟨.delayed n, b⟩ : Option (Status E)) = some ⟨.delayed (n - 1), b⟩ := by
        simp [Ev.apply, Phase.tick, hn]
      rw [hstep] at h
      obtain ⟨b', hb'⟩ := ih h hxs hds (by omega)
      refine ⟨b', ?_⟩
      rw [hb', Nat.sub_sub, Nat.add_comm 1]
    · exact absurd rfl hnx
    · rw [looks_cons rfl] at hlt ⊢
      exact ih h hxs hds hlt
    · rw [looks_cons rfl] at hlt ⊢
      exact ih h hxs hds hlt

/-- A task that something has reached stays so until it runs. -/
theorem leads_awake (h : Leads (some ⟨ph, b⟩) evs os') (ha : ph.awake = true) (ho : ph ≠ .own)
    (hw : ph.waitsFor = none) (hr : .ret ∉ evs) (hd : .delete ∉ evs) :
    reached evs = [] ∧ ∃ b', os' = some ⟨ph, b'⟩ := by
  induction evs generalizing b with
  | nil => exact ⟨rfl, b, h⟩
  | cons ev evs ih =>
    obtain ⟨hfit, h⟩ := h
    obtain ⟨hnr, hrs⟩ := List.ne_and_not_mem_of_not_mem_cons hr
    obtain ⟨hnd, hds⟩ := List.ne_and_not_mem_of_not_mem_cons hd
    obtain ⟨e', m, ps, rfl, -, hw'⟩ | rfl | rfl | rfl | rfl := fits_busy hfit ho (fun _ => hnr) hnd
    · exact nomatch hw.symm.trans hw'
    · rw [reached_cons rfl]
      simp only [Ev.apply, Option.map_some, ph.tick_of_awake ha] at h
      exact ih h hrs hds
    · have hexp : ph.expire = ph := by
        cases ph with
        | delayed n | waiting e n => cases ha
        | own | timedOut e | given e m | aborted e => rfl
      rw [reached_cons rfl]
      simp only [Ev.apply, Option.map_some, hexp] at h
      exact ih h hrs hds
    · rw [reached_cons rfl]
      exact ih h hrs hds
    · rw [reached_cons rfl]
      exact ih h hrs hds

/-- The phase that a pend is in by what has reached the task. -/
def Ends (e : E) (got : List (StatPend × Ptr)) (quiet : Phase E → Prop) (ph : Phase E) : Prop :=
  (got = [] ∧ quiet ph) ∨ ∃ ps pmsg, ps.Wakes ∧ got = [(ps, pmsg)] ∧ ph = ps.phase e pmsg

theorem Ends.mono {got : List (StatPend × Ptr)} {q q' : Phase E → Prop} (h : Ends e got q ph)
    (hq : q ph → q' ph) : Ends e got q' ph := h.imp (fun hn => ⟨hn.1, hq hn.2⟩) id

theorem leads_woken {pmsg : Ptr} {ps : StatPend} (hps : ps.Wakes)
    (h : Leads (some ⟨ps.phase e pmsg, b⟩) evs os') (hr : .ret ∉ evs) (hd : .delete ∉ evs)
    (quiet : Phase E → Prop) : ∃ ph b', os' = some ⟨ph, b'⟩ ∧ Ends e ((ps, pmsg) :: reached evs) quiet ph := by
  have hph : (ps.phase e pmsg : Phase E).awake = true ∧ ps.phase e pmsg ≠ .own ∧
      (ps.phase e pmsg).waitsFor = none := by
    rcases hps with rfl | rfl <;> exact ⟨rfl, nofun, rfl⟩
  obtain ⟨hnil, b', hb'⟩ := leads_awake h hph.1 hph.2.1 hph.2.2 hr hd
  exact ⟨_, b', hb', .inr ⟨ps, pmsg, hps, by rw [hnil], rfl⟩⟩

/-- A task whose time is up can still be reached before it runs. -/
theorem leads_timedOut (h : Leads (some ⟨.timedOut e, b⟩) evs os') (hr : .ret ∉ evs) (hd : .delete ∉ evs) :
    ∃ ph b', os' = some ⟨ph, b'⟩ ∧ Ends e (reached evs) (· = .timedOut e) ph := by
  induction evs generalizing b with
  | nil => exact ⟨_, b, h, .inl ⟨rfl, rfl⟩⟩
  | cons ev evs ih =>
    obtain ⟨hfit, h⟩ := h
    obtain ⟨hnr, hrs⟩ := List.ne_and_not_mem_of_not_mem_cons hr
    obtain ⟨hnd, hds⟩ := List.ne_and_not_mem_of_not_mem_cons hd
    obtain ⟨e', m, ps, rfl, hps, hw⟩ | hrest := fits_busy hfit nofun (fun _ => hnr) hnd
    · obtain rfl : e = e' := Option.some.inj hw
      exact leads_woken hps h hrs hds _
    · rcases hrest with rfl | rfl | rfl | rfl
      all_goals
        rw [reached_cons rfl]
        exact ih h hrs hds

/-- Is the time of a pend up? A timeout of 0 ticks is none. -/
def TimeUp (n : Nat) (evs : List (Ev E)) : Prop := .expire ∈ evs ∨ 0 < n ∧ n ≤ looks evs

/-- Where a pend stands that nothing has reached. -/
def Quiet (e : E) (n : Nat) (evs : List (Ev E)) (ph : Phase E) : Prop :=
  (TimeUp n evs ∧ ph = .timedOut e) ∨ (¬TimeUp n evs ∧ ph = .waiting e (n - looks evs))

theorem quiet_cons (ev : Ev E) (h : ev.isTick = false) (hx : .expire ≠ ev) :
    Quiet e n (ev :: evs) ph ↔ Quiet e n evs ph := by
  rw [Quiet, Quiet, TimeUp, TimeUp, looks_cons h, List.mem_cons, or_iff_right hx]

theorem timeUp_tick (hn : n ≠ 1) : TimeUp n (.tick :: evs) ↔ TimeUp (n - 1) evs := by
  refine or_congr (by simp) ?_
  rw [looks_tick]
  omega

theorem leads_waiting (h : Leads (some ⟨.waiting e n, b⟩) evs os') (hr : .ret ∉ evs) (hd : .delete ∉ evs) :
    ∃ ph b', os' = some ⟨ph, b'⟩ ∧ Ends e (reached evs) (Quiet e n evs) ph := by
  induction evs generalizing n b with
  | nil =>
    refine ⟨_, b, h, .inl ⟨rfl, .inr ⟨?_, rfl⟩⟩⟩
    rintro (hx | ⟨h0, hle⟩)
    · cases hx
    · exact absurd hle (Nat.not_le.mpr h0)
  | cons ev evs ih =>
    obtain ⟨hfit, h⟩ := h
    obtain ⟨hnr, hrs⟩ := List.ne_and_not_mem_of_not_mem_cons hr
    obtain ⟨hnd, hds⟩ := List.ne_and_not_mem_of_not_mem_cons hd
    obtain ⟨e', m, ps, rfl, hps, hw⟩ | rfl | rfl | rfl | rfl := fits_busy hfit (by simp) (by simp [Phase.awake]) hnd
    · obtain rfl : e = e' := Option.some.inj hw
      exact leads_woken hps h hrs hds _
    · rw [reached_cons rfl]
      by_cases hn1 : n = 1
      · subst hn1
        obtain ⟨ph, b', hos, hends⟩ := leads_timedOut h hrs hds
        refine ⟨ph, b', hos, hends.mono fun hph => .inl ⟨.inr ⟨Nat.one_pos, ?_⟩, hph⟩⟩
        rw [looks_tick]
        omega
      · have hstep : Ev.tick.apply (some ⟨.waiting e n, b⟩ : Option (Status E)) =
            some ⟨.waiting e (n - 1), b⟩ := by
          by_cases hn0 : n = 0
          · subst hn0
            rfl
          · simp [Ev.apply, Phase.tick, hn0, hn1]
        rw [hstep] at h
        obtain ⟨ph, b', hos, hends⟩ := ih h hrs hds
        refine ⟨ph, b', hos, hends.mono fun hq => ?_⟩
        rw [Quiet, timeUp_tick hn1, looks_tick, Nat.add_comm, ← Nat.sub_sub]
        exact hq
    · rw [reached_cons rfl]
      obtain ⟨ph, b', hos, hends⟩ := leads_timedOut h hrs hds
      exact ⟨ph, b', hos, hends.mono fun hph => .inl ⟨.inl List.mem_cons_self, hph⟩⟩
    · rw [reached_cons rfl]
      obtain ⟨ph, b', hos, hends⟩ := ih h hrs hds
      exact ⟨ph, b', hos, hends.mono (quiet_cons .suspend rfl (by simp)).mpr⟩
    · rw [reached_cons rfl]
      obtain ⟨ph, b', hos, hends⟩ := ih h hrs hds
      exact ⟨ph, b', hos, hends.mono (quiet_cons .resume rfl (by simp)).mpr⟩

end

section
variable {E : Type} {k k' : Kernel E} {p : Prio}

/-! ## Ticks -/

def Rec.isTimeTick : Rec E → Bool
  | (_, .timeTick, _) => true
  | _ => false

def timeTicks (l : List (Rec E)) : Nat := l.countP Rec.isTimeTick

/-- Has the tick on its way still to look at the task? -/
def Kernel.unlooked (k : Kernel E) (p : Prio) : Nat :=
  match k.tick with
  | some (_, ps) => ps.count p
  | none => 0

theorem unlooked_eq (h : k'.tick = k.tick) (p : Prio) : k'.unlooked p = k.unlooked p := by
  rw [Kernel.unlooked, Kernel.unlooked, h]

theorem looks_of_kind {a : Action E} {r : Option Ret} (h : a.kind ≠ some .tick) :
    looks (Rec.evsOf p (k, a, r)) = 0 := by
  refine List.countP_eq_zero.mpr fun ev hev => ?_
  have hkind := mem_evsOf hev
  cases ev with
  | tick => exact absurd hkind h
  | wake e m ps | expire | suspend | resume | block e n | delay n | ret | create | delete => exact Bool.false_ne_true

theorem takeWhile_idle (h : TablesOk k) (hp : p ≠ osTaskIdlePrio) (hs : (k.status p).isSome = true) :
    (k.osTcbList.takeWhile (· ≠ osTaskIdlePrio)).count p = 1 := by
  obtain ⟨l, hl⟩ := h.last
  have hnd := h.nodup
  have hmem := (h.mem_list p).mpr hs
  rw [hl] at hnd hmem ⊢
  have hidle : ∀ q ∈ l, q ≠ osTaskIdlePrio := by
    rintro q hq rfl
    exact (List.nodup_append.mp hnd).2.2 _ hq _ (List.mem_singleton_self _) rfl
  have htake : (l ++ [osTaskIdlePrio]).takeWhile (· ≠ osTaskIdlePrio) = l := by
    rw [List.takeWhile_append_of_pos (by simpa using hidle)]
    simp
  rw [htake]
  have hpl : p ∈ l := by simpa [hp] using hmem
  exact List.count_eq_one_of_mem (List.nodup_append.mp hnd).1 hpl

/-- What a control block says of a task that is not waiting for time or for an event any more. -/
theorem KernelOk.woken (g : KernelOk k) {s : Status E} (hs : k.status p = some s) (ha : s.phase.awake = true) :
    ∃ t, k.tcb p = some t ∧ t.Is k.typ s ∧ t.osTcbDly = 0 ∧
      (p ∈ k.osRdy ↔ t.osTcbStat &&& osStatSuspend = osStatRdy) := by
  have hshow := g.tables.shows_some hs
  obtain ⟨t, ht, hi⟩ := hshow.tcb_some
  refine ⟨t, ht, hi, hi.dly.trans (s.phase.ticks_of_awake ha), hshow.rdy.trans ?_⟩
  rw [hi.suspended_iff]
  simp [Status.runnable, ha]

/-- And of one that is. -/
theorem KernelOk.asleep (g : KernelOk k) {s : Status E} (hs : k.status p = some s) (ha : s.phase.awake = false) :
    p ∉ k.osRdy ∧ ∃ t, k.tcb p = some t ∧ t.Is k.typ s ∧ t.osTcbDly = s.phase.ticks := by
  have hshow := g.tables.shows_some hs
  obtain ⟨t, ht, hi⟩ := hshow.tcb_some
  refine ⟨fun hr => ?_, t, ht, hi, hi.dly⟩
  have hrun := hshow.rdy.mp hr
  simp [Status.runnable, ha] at hrun

end

section
variable {E : Type} [DecidableEq E] {k k' : Kernel E} {p : Prio} {a : Action E} {r : Option Ret}

theorem looks_step (g : KernelOk k) (h : kernelStep k a = some (k', r)) (hp : p ≠ osTaskIdlePrio)
    (hs : (k.status p).isSome = true) :
    looks (Rec.evsOf p (k, a, r)) + k'.unlooked p = timeTicks [(k, a, r)] + k.unlooked p := by
  have hframe := (step_frame h).2.2
  cases a with
  | call c =>
    have hno : c.kind ≠ some .tick := by cases c <;> exact nofun
    rw [looks_of_kind, unlooked_eq (hframe rfl)]
    · rfl
    · exact hno
  | pendReturn | tcbInit | intEnter | intExit =>
    rw [looks_of_kind, unlooked_eq (hframe rfl)]
    · rfl
    · exact nofun
  | timeTick =>
    simp only [kernelStep] at h
    split at h
    · case isTrue hc =>
      obtain ⟨rfl, -⟩ := Prod.mk.inj (Option.some.inj h)
      have h0 : k.unlooked p = 0 := by rw [Kernel.unlooked, hc.2]
      have h1 : (osTimeTick k).unlooked p = 1 := takeWhile_idle g.tables hp hs
      rw [h0, h1]
      rfl
    · cases h
  | tickTask =>
    simp only [kernelStep] at h
    split at h
    · case h_1 level q qs htick =>
      split at h
      · obtain ⟨rfl, -⟩ := Prod.mk.inj (Option.some.inj h)
        have hev : Rec.evsOf p (k, .tickTask, r) = if q = p then [.tick] else [] := by
          simp only [Rec.evsOf, Action.evs, htick, evsOf_singleton]
        have h0 : k.unlooked p = (q :: qs).count p := by rw [Kernel.unlooked, htick]
        have h1 : ({ osTimeTickTask k q with tick := some (level, qs) } : Kernel E).unlooked p = qs.count p := rfl
        rw [hev, h0, h1, List.count_cons]
        by_cases hq : q = p
        · simp [hq, timeTicks, Rec.isTimeTick, looks, Ev.isTick, Nat.add_comm]
        · simp [hq, timeTicks, Rec.isTimeTick, looks]
      · cases h
    · case h_2 level htick =>
      split at h
      · obtain ⟨rfl, -⟩ := Prod.mk.inj (Option.some.inj h)
        have hev : Rec.evsOf p (k, .tickTask, r) = [] := by
          simp only [Rec.evsOf, Action.evs, htick, evsOf_nil]
        have h0 : k.unlooked p = 0 := by rw [Kernel.unlooked, htick]; rfl
        rw [hev, h0]
        rfl
      · cases h
    · cases h

/-- Each `OSTimeTick` looks once at each task that is there. -/
theorem looks_run (g : KernelOk k) {l : List (Rec E)} (h : Trace kernelStep k l k') (hp : p ≠ osTaskIdlePrio)
    (hs : (k.status p).isSome = true) (hd : .delete ∉ word p l) :
    looks (word p l) + k'.unlooked p = timeTicks l + k.unlooked p := by
  induction h with
  | nil => rfl
  | @snoc l k₁ k₂ a r ht hstep ih =>
    rw [word_append, List.mem_append, not_or] at hd
    have ih := ih hd.1
    have g₁ := trace_ok g ht
    have hs₁ := isSome_of_leads (task_run g ht p) hs hd.1
    have hone := looks_step g₁ hstep hp hs₁
    have hword : word p [(k₁, a, r)] = Rec.evsOf p (k₁, a, r) := by simp [word]
    have hticks : timeTicks (l ++ [(k₁, a, r)]) = timeTicks l + timeTicks [(k₁, a, r)] := List.countP_append
    rw [word_append, looks_append, hword, hticks]
    omega

/-! ## Delays -/

variable {k₀ k₁ : Kernel E} {e : E} {free : Nat} {event : E → OsEvent} {ps : List Prio} {l₀ l : List (Rec E)}

/-- A delay of `n` ticks is over with the `n`-th tick that looks at the task,
unless `OSTimeDlyResume` ends it, and every `OSTimeTick` looks at it once. -/
theorem delay_exact (h : Reaches free event ps l₀ k₀) {n : UInt32} (hn : n ≠ 0) (hnest : k₀.osIntNesting = 0)
    (hlock : k₀.osLockNesting = 0) (hstep : kernelStep k₀ (.call (.timeDly n)) = some (k₁, r))
    (hrun : Trace kernelStep k₁ l k) (hx : .expire ∉ word k₀.osPrioCur l) (hd : .delete ∉ word k₀.osPrioCur l) :
    looks (word k₀.osPrioCur l) + k.unlooked k₀.osPrioCur = timeTicks l ∧
      (looks (word k₀.osPrioCur l) < n.toNat → k₀.osPrioCur ∉ k.osRdy ∧
        ∃ t, k.tcb k₀.osPrioCur = some t ∧ t.osTcbDly = n.toNat - looks (word k₀.osPrioCur l)) ∧
      (looks (word k₀.osPrioCur l) + 1 = n.toNat → ∀ level qs k' r', k.tick = some (level, k₀.osPrioCur :: qs) →
        kernelStep k .tickTask = some (k', r') → ∃ t, k'.tcb k₀.osPrioCur = some t ∧ t.osTcbDly = 0 ∧
          (k₀.osPrioCur ∈ k'.osRdy ↔ t.osTcbStat &&& osStatSuspend = osStatRdy)) := by
  have g₀ := h.ok
  have hgoes := kernelStep_goes g₀ hstep
  have g₁ := hgoes.ok
  have g := trace_ok g₁ hrun
  obtain ⟨s, hs, -⟩ := g₀.cur.awake
  have hst : k₁.status k₀.osPrioCur = some ⟨.delayed n.toNat, s.suspended⟩ := by
    have hevs : (Action.call (.timeDly n)).evs k₀ r = [(k₀.osPrioCur, .delay n.toNat)] := if_pos ⟨hnest, hlock, hn⟩
    rw [hgoes.status, hevs, applyEvs, List.foldl_cons, List.foldl_nil, Function.update_self, hs]
    rfl
  have hidle : k₀.osPrioCur ≠ osTaskIdlePrio := g₁.tables.ne_idle hst (by simp)
  have hleads := task_run g₁ hrun k₀.osPrioCur
  rw [hst] at hleads
  refine ⟨?_, fun hlt => ?_, fun hlast level qs k' r' htick hstep' => ?_⟩
  · have h0 : k₁.unlooked k₀.osPrioCur = 0 := by
      rw [unlooked_eq ((step_frame hstep).2.2 rfl), Kernel.unlooked, g₀.tick_none hnest]
    have hrun' := looks_run g₁ hrun hidle (by rw [hst]; rfl) hd
    rwa [h0] at hrun'
  · obtain ⟨b, hb⟩ := leads_delayed hleads hx hd hlt
    obtain ⟨hnr, t, ht, -, hdly⟩ := g.asleep hb rfl
    exact ⟨hnr, t, ht, hdly⟩
  · obtain ⟨b, hb⟩ := leads_delayed hleads hx hd (by omega)
    have hone : n.toNat - looks (word k₀.osPrioCur l) = 1 := by omega
    rw [hone] at hb
    have hgoes' := kernelStep_goes g hstep'
    have hown : k'.status k₀.osPrioCur = some ⟨.own, b⟩ := by
      rw [hgoes'.status]
      simp only [Action.evs, htick]
      rw [applyEvs, List.foldl_cons, List.foldl_nil, Function.update_self, hb]
      rfl
    obtain ⟨t, ht, -, hdly, hrdy⟩ := hgoes'.ok.woken hown rfl
    exact ⟨t, ht, hdly, hrdy⟩

/-- One tick that looks at both tasks. -/
def oneTick : List (Action Unit) := [.intEnter, .timeTick, .tickTask, .tickTask, .tickTask, .intExit]

theorem delay_exact_twoTasks : ∃ k l k', kernelStep twoTasks (.call (.timeDly 2)) = some (k, some {}) ∧
    Trace kernelStep k l k' ∧ looks (word 3 l) = 1 ∧ 3 ∉ k'.osRdy ∧ ∃ t, k'.tcb 3 = some t ∧ t.osTcbDly = 1 := by
  have hrun : Trace kernelStep (osTimeDly twoTasks 2).1 _ _ := trace_get oneTick rfl
  have hword : word 3 ((runTrace kernelStep (osTimeDly twoTasks 2).1 oneTick).get rfl).1 = [.tick] := rfl
  have hx : Ev.expire ∉ word 3 ((runTrace kernelStep (osTimeDly twoTasks 2).1 oneTick).get rfl).1 := by simp [hword]
  have hd : Ev.delete ∉ word 3 ((runTrace kernelStep (osTimeDly twoTasks 2).1 oneTick).get rfl).1 := by simp [hword]
  have h := delay_exact (twoTasks_reaches [] rfl) (n := 2) (by decide) rfl rfl rfl hrun hx hd
  exact ⟨_, _, _, rfl, hrun, rfl, h.2.1 (by decide)⟩

/-! ## Pends -/

def Call.pendsOn : Call E → Option (E × UInt32)
  | semPend e timeout | mboxPend e timeout | qPend e timeout => some (e, timeout)
  | _ => none

theorem status_blocked (g : KernelOk k₀) {c : Call E} {timeout : UInt32} (hc : c.pendsOn = some (e, timeout))
    (hstep : kernelStep k₀ (.call c) = some (k₁, none)) :
    ∃ b, k₁.status k₀.osPrioCur = some ⟨.waiting e timeout.toNat, b⟩ := by
  obtain ⟨s, hs, -⟩ := g.cur.awake
  have hevs : (Action.call c).evs k₀ none = [(k₀.osPrioCur, .block e timeout.toNat)] := by
    cases c with
    | semPend e' n | mboxPend e' n | qPend e' n =>
      obtain ⟨rfl, rfl⟩ := Prod.mk.inj (Option.some.inj hc)
      simp [Action.evs, Call.evs, blocks]
    | _ => cases hc
  refine ⟨s.suspended, ?_⟩
  rw [(kernelStep_goes g hstep).status, hevs, applyEvs, List.foldl_cons, List.foldl_nil, Function.update_self, hs]
  rfl

/-- Until something reaches a task in a pend it stays in the wait list. It is
ready from the tick on with which its time is up, and not before. -/
theorem pend_waits (h : Reaches free event ps l₀ k₀) {c : Call E} {timeout : UInt32}
    (hc : c.pendsOn = some (e, timeout)) (hstep : kernelStep k₀ (.call c) = some (k₁, none))
    (hrun : Trace kernelStep k₁ l k) (hr : .ret ∉ word k₀.osPrioCur l) (hd : .delete ∉ word k₀.osPrioCur l)
    (hquiet : reached (word k₀.osPrioCur l) = []) :
    k₀.osPrioCur ∈ k.waits e ∧ ∃ t, k.tcb k₀.osPrioCur = some t ∧
      (TimeUp timeout.toNat (word k₀.osPrioCur l) → t.osTcbStatPend = .to ∧
        (k₀.osPrioCur ∈ k.osRdy ↔ t.osTcbStat &&& osStatSuspend = osStatRdy)) ∧
      (¬TimeUp timeout.toNat (word k₀.osPrioCur l) → k₀.osPrioCur ∉ k.osRdy ∧
        t.osTcbDly = timeout.toNat - looks (word k₀.osPrioCur l)) := by
  have g₀ := h.ok
  have g₁ := (kernelStep_goes g₀ hstep).ok
  have g := trace_ok g₁ hrun
  obtain ⟨b, hst⟩ := status_blocked g₀ hc hstep
  have hleads := task_run g₁ hrun k₀.osPrioCur
  rw [hst] at hleads
  obtain ⟨ph, b', hos, hends⟩ := leads_waiting hleads hr hd
  rcases hends with ⟨-, hq⟩ | ⟨ps, m, -, hgot, -⟩
  · rcases hq with ⟨hup, rfl⟩ | ⟨hup, rfl⟩
    · obtain ⟨t, ht, hi, -, hrdy⟩ := g.woken hos rfl
      refine ⟨((g.tables.shows_some hos).waits_iff e).mpr rfl, t, ht, fun _ => ⟨hi.statPend, hrdy⟩, fun hno => ?_⟩
      exact absurd hup hno
    · obtain ⟨hnr, t, ht, -, hdly⟩ := g.asleep hos rfl
      refine ⟨((g.tables.shows_some hos).waits_iff e).mpr rfl, t, ht, fun hyes => absurd hyes hup, fun _ => ?_⟩
      exact ⟨hnr, hdly⟩
  · exact nomatch hquiet.symm.trans hgot

theorem pend_waits_twoTasks : ∃ k l k', kernelStep twoTasks (.call (.qPend () 2)) = some (k, none) ∧
    Trace kernelStep k l k' ∧ looks (word 3 l) = 1 ∧ 3 ∈ k'.waits () := by
  have hrun : Trace kernelStep onePends.2 _ _ := trace_get oneTick rfl
  have hword : word 3 ((runTrace kernelStep onePends.2 oneTick).get rfl).1 = [.tick] := rfl
  have hr : Ev.ret ∉ word 3 ((runTrace kernelStep onePends.2 oneTick).get rfl).1 := by simp [hword]
  have hd : Ev.delete ∉ word 3 ((runTrace kernelStep onePends.2 oneTick).get rfl).1 := by simp [hword]
  have h := pend_waits (twoTasks_reaches [] rfl) (c := .qPend () 2) rfl rfl hrun hr hd rfl
  exact ⟨_, _, _, rfl, hrun, rfl, h.1⟩

theorem kernelStep_pendReturn {ret : Ret} (g : KernelOk k) (h : kernelStep k .pendReturn = some (k', some ret)) :
    ∃ t e' s, k.tcb k.osPrioCur = some t ∧ k.status k.osPrioCur = some s ∧ t.Is k.typ s ∧
      s.phase.inPend = some e' ∧ ret = (osPendReturn k t e').2 := by
  simp only [kernelStep] at h
  split at h
  · case h_1 t e' hp =>
    split at h
    · obtain ⟨s, ht, hs, he⟩ := g.inPend hp
      refine ⟨t, e', s, ht, hs, (g.tables.shows_some hs).is ht, he, ?_⟩
      exact (Option.some.inj (Prod.mk.inj (Option.some.inj h)).2).symm
    · cases h
  · cases h

/-- A pend that has waited gives what has reached its task, be it after the time
was up, and `OS_ERR_TIMEOUT` only where nothing has. At most one thing has. -/
theorem pend_outcome (h : Reaches free event ps l₀ k₀) {c : Call E} {timeout : UInt32} {ret : Ret}
    (hc : c.pendsOn = some (e, timeout)) (hstep : kernelStep k₀ (.call c) = some (k₁, none))
    (hrun : Trace kernelStep k₁ l k) (hr : .ret ∉ word k₀.osPrioCur l) (hd : .delete ∉ word k₀.osPrioCur l)
    (hcur : k.osPrioCur = k₀.osPrioCur) (hret : kernelStep k .pendReturn = some (k', some ret)) :
    (reached (word k₀.osPrioCur l) = [] ∧ ret.err = .timeout ∧ TimeUp timeout.toNat (word k₀.osPrioCur l)) ∨
      (∃ pmsg, reached (word k₀.osPrioCur l) = [(.ok, pmsg)] ∧
        ret = { msg := if k.typ e = .sem then 0 else pmsg }) ∨
      ∃ pmsg, reached (word k₀.osPrioCur l) = [(.abort, pmsg)] ∧ ret.err = .pendAbort := by
  have g₀ := h.ok
  have g₁ := (kernelStep_goes g₀ hstep).ok
  have g := trace_ok g₁ hrun
  obtain ⟨b, hst⟩ := status_blocked g₀ hc hstep
  have hleads := task_run g₁ hrun k₀.osPrioCur
  rw [hst] at hleads
  obtain ⟨ph, b', hos, hends⟩ := leads_waiting hleads hr hd
  obtain ⟨t, e', s, ht, hs, hi, he, rfl⟩ := kernelStep_pendReturn g hret
  rw [hcur] at hs
  obtain rfl : s = ⟨ph, b'⟩ := Option.some.inj (hs.symm.trans hos)
  obtain ⟨s', hs', ha⟩ := g.cur.awake
  rw [hcur, hos] at hs'
  obtain rfl := Option.some.inj hs'
  rcases hends with ⟨hnil, ⟨hup, rfl⟩ | ⟨-, rfl⟩⟩ | ⟨ps, m, hps, hgot, rfl⟩
  · have hto : t.osTcbStatPend = .to := hi.statPend
    exact .inl ⟨hnil, by simp [osPendReturn, hto], hup⟩
  · cases ha
  · obtain rfl : e = e' := by rcases hps with rfl | rfl <;> exact Option.some.inj he
    rcases hps with rfl | rfl
    · obtain ⟨hok, hmsg⟩ : t.osTcbStatPend = .ok ∧ t.osTcbMsg = m := hi.statPend
      refine .inr (.inl ⟨m, hgot, ?_⟩)
      by_cases hty : (k.osEvent e).osEventType = .sem
      · simp [osPendReturn, Kernel.typ, hok, hty]
      · simp [osPendReturn, Kernel.typ, hok, hty, hmsg]
    · have hab : t.osTcbStatPend = .abort := hi.statPend
      exact .inr (.inr ⟨m, hgot, by simp [osPendReturn, hab]⟩)

theorem pend_outcome_twoTasks : ∃ k l k' k₁ ret, kernelStep twoTasks (.call (.qPend () 2)) = some (k, none) ∧
    Trace kernelStep k l k' ∧ kernelStep k' .pendReturn = some (k₁, some ret) ∧ ret = { msg := 7 } := by
  have hrun : Trace kernelStep onePends.2 _ _ := trace_get [.call (.qPost () 7)] rfl
  have hword : word 3 ((runTrace kernelStep onePends.2 [.call (.qPost () 7)]).get rfl).1 = [.wake () 7 .ok] := rfl
  have hr : Ev.ret ∉ word 3 ((runTrace kernelStep onePends.2 [.call (.qPost () 7)]).get rfl).1 := by simp [hword]
  have hd : Ev.delete ∉ word 3 ((runTrace kernelStep onePends.2 [.call (.qPost () 7)]).get rfl).1 := by simp [hword]
  refine ⟨_, _, _, _, _, rfl, hrun, rfl, ?_⟩
  have h := pend_outcome (twoTasks_reaches [] rfl) (c := .qPend () 2) rfl rfl hrun hr hd rfl rfl
  rcases h with ⟨hnil, -⟩ | ⟨m, hm, h⟩ | ⟨m, hm, -⟩
  · exact nomatch hnil
  · have hm7 : [(StatPend.ok, (7 : Ptr))] = [(.ok, m)] := hm
    obtain ⟨-, rfl⟩ := Prod.mk.inj (List.cons.inj hm7).1
    exact h
  · exact nomatch hm

end

end GizwitsSdk
