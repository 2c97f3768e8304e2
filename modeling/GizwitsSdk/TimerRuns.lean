import GizwitsSdk.CoreGAgent

/-!
# When the timers fire

A slot is followed by itself: no other timer changes it, and while it is in use
no timer is created in it. Its counter is the rest of the ticks to the next
multiple of its period. A time below a tenth of a second is rounded to a
period of 0, which the counter passes before it is compared.
-/

namespace GizwitsSdk

open Lib

section
variable {F : Type} {s : TimerSt F} {i : Fin 32}

/-! ## One tick -/

def slotView (i : Fin 32) (s : TimerSt F) : CoreGAgentTimer F × List (TimerCall F) :=
  (s.timers i, s.calls.filter (·.slot = i))

def tickView (i : Fin 32) (v : CoreGAgentTimer F × List (TimerCall F)) :
    CoreGAgentTimer F × List (TimerCall F) :=
  (countDown v.1, if expires v.1 then ⟨i, v.1.id, v.1.pfFunc⟩ :: v.2 else v.2)

theorem timerSlot_own (i : Fin 32) (s : TimerSt F) : slotView i (timerSlot s i) = tickView i (slotView i s) := by
  by_cases h : expires (s.timers i) <;> simp [slotView, tickView, timerSlot, h]

theorem timerSlot_other {i j : Fin 32} (h : j ≠ i) (s : TimerSt F) :
    slotView i (timerSlot s j) = slotView i s := by
  by_cases he : expires (s.timers j) <;> simp [slotView, timerSlot, he, h, h.symm]

theorem gAgentTimer_view (i : Fin 32) (s : TimerSt F) :
    slotView i (gAgentTimer s) = tickView i (slotView i s) :=
  sweep_finRange (slotView i) (timerSlot_own i) (fun s _ h => timerSlot_other h s) { s with ticks := s.ticks + 1 }

theorem gAgentTimer_timers (i : Fin 32) (s : TimerSt F) : (gAgentTimer s).timers i = countDown (s.timers i) :=
  congrArg Prod.fst (gAgentTimer_view i s)

theorem gAgentTimer_created (s : TimerSt F) : (gAgentTimer s).created = s.created :=
  sweep_keeps TimerSt.created (fun _ _ => rfl) (List.finRange 32) { s with ticks := s.ticks + 1 }

theorem gAgentTimer_ticks (s : TimerSt F) : (gAgentTimer s).ticks = s.ticks + 1 :=
  sweep_keeps TimerSt.ticks (fun _ _ => rfl) (List.finRange 32) { s with ticks := s.ticks + 1 }

theorem mem_calls_iff {c : TimerCall F} : c ∈ s.calls ↔ c ∈ (slotView c.slot s).2 := by
  simp [slotView]

theorem gAgentTimer_calls_mem {c : TimerCall F} (h : c ∈ (gAgentTimer s).calls) :
    c ∈ s.calls ∨ (s.timers c.slot).flag ≠ 0 ∧ c.id = (s.timers c.slot).id := by
  rw [mem_calls_iff, gAgentTimer_view] at h
  simp only [tickView] at h
  by_cases he : expires (slotView c.slot s).1
  · rw [if_pos he] at h
    rcases List.mem_cons.mp h with h | h
    · simp only [expires, Bool.and_eq_true, decide_eq_true_eq] at he
      exact .inr ⟨he.1, congrArg TimerCall.id h⟩
    · exact .inl (mem_calls_iff.mpr h)
  · rw [if_neg he] at h
    exact .inl (mem_calls_iff.mpr h)

theorem freeSlot_free {j : Fin 32} {k : Int} (h : freeSlot k s = some j) : (s.timers j).flag = 0 := by
  unfold freeSlot at h
  split at h
  · cases h
  · simpa using List.find?_some h

/-! ## One timer -/

/-- A timer of a period of `p` ticks, `n` ticks after it was created. -/
def running (flag : Int) (p n : Nat) (f : F) (id : Nat) : CoreGAgentTimer F :=
  ⟨flag, Int32.ofNat (p - n % p), Int32.ofNat p, some f, id⟩

theorem clock_ne_period : gagentTimerClock ≠ gagentTimerPeriod := by decide

section
variable {flag : Int} {p n id : Nat} {f : F}

theorem running_expires (h0 : flag ≠ 0) (hp : 0 < p) (hm : p ≤ 2 ^ 32) :
    expires (running flag p n f id) = true ↔ (n + 1) % p = 0 := by
  simp [expires, running, h0, countdown_ends hp hm]

theorem countDown_running (h0 : flag ≠ 0) (hp : 0 < p) (hm : p ≤ 2 ^ 32) (hz : (n + 1) % p ≠ 0) :
    countDown (running flag p n f id) = running flag p (n + 1) f id := by
  have he : Int32.ofNat (p - n % p) - 1 ≠ 0 := fun h => hz ((countdown_ends hp hm n).mp h)
  rw [countDown, running, if_neg h0, if_neg he, running, countdown_next hp hz]

theorem countDown_ended (h0 : flag ≠ 0) (hp : 0 < p) (hm : p ≤ 2 ^ 32) (hz : (n + 1) % p = 0) :
    countDown (running flag p n f id) =
      if flag = gagentTimerClock then ⟨0, 0, 0, some f, id⟩ else running flag p (n + 1) f id := by
  have he : Int32.ofNat (p - n % p) - 1 = 0 := (countdown_ends hp hm n).mpr hz
  rw [countDown, running, if_neg h0, if_pos he, running, hz, Nat.sub_zero]

section
variable [DecidableEq F]

theorem gAgentTimer_count (i : Fin 32) (id : Nat) (f : Option F) (s : TimerSt F) :
    (gAgentTimer s).calls.count ⟨i, id, f⟩ = s.calls.count ⟨i, id, f⟩ +
      if expires (s.timers i) ∧ (s.timers i).id = id ∧ (s.timers i).pfFunc = f then 1 else 0 := by
  have hview (s : TimerSt F) : s.calls.count ⟨i, id, f⟩ = (slotView i s).2.count ⟨i, id, f⟩ :=
    (List.count_filter (by simp)).symm
  rw [hview, hview, gAgentTimer_view]
  by_cases he : expires (s.timers i)
  · simp [tickView, slotView, he, List.count_cons]
  · simp [tickView, slotView, he]

/-- What is known of the timer `id` that was given slot `i`. -/
structure Track (i : Fin 32) (id : Nat) (f : F) (flag : Int) (p n : Nat) (s : TimerSt F) : Prop where
  created : id < s.created
  calls : s.calls.count ⟨i, id, some f⟩ = if flag = gagentTimerPeriod then n / p else if p ≤ n then 1 else 0
  runs : flag = gagentTimerPeriod ∨ n < p → s.timers i = running flag p n f id
  gone : flag = gagentTimerClock → p ≤ n → (s.timers i).flag = 0 ∨ id < (s.timers i).id

theorem tick_periodic (hp : 0 < p) (hm : p ≤ 2 ^ 32) (h : Track i id f gagentTimerPeriod p n s) :
    Track i id f gagentTimerPeriod p (n + 1) (gAgentTimer s) := by
  have ht := h.runs (.inl rfl)
  have h0 : gagentTimerPeriod ≠ 0 := by decide
  refine ⟨?_, ?_, fun _ => ?_, fun hk => absurd hk (by decide)⟩
  · rw [gAgentTimer_created]
    exact h.created
  · rw [gAgentTimer_count, h.calls, if_pos rfl, if_pos rfl, ht]
    by_cases hz : (n + 1) % p = 0
    · rw [if_pos ⟨(running_expires h0 hp hm).mpr hz, rfl, rfl⟩, Nat.succ_div_of_mod_eq_zero hz]
    · rw [if_neg fun h => hz ((running_expires h0 hp hm).mp h.1), Nat.succ_div_of_mod_ne_zero hz]
      rfl
  · rw [gAgentTimer_timers, ht]
    by_cases hz : (n + 1) % p = 0
    · rw [countDown_ended h0 hp hm hz, if_neg (by decide)]
    · rw [countDown_running h0 hp hm hz]

/-- Whoever has the slot of a timer that is gone is another one. -/
theorem tick_gone (hp : p ≤ n) (h : Track i id f gagentTimerClock p n s) :
    Track i id f gagentTimerClock p (n + 1) (gAgentTimer s) := by
  have hg := h.gone rfl hp
  refine ⟨?_, ?_, fun hk => ?_, fun _ _ => ?_⟩
  · rw [gAgentTimer_created]
    exact h.created
  · have he : ¬ (expires (s.timers i) ∧ (s.timers i).id = id ∧ (s.timers i).pfFunc = some f) := by
      rintro ⟨he, hid, -⟩
      simp only [expires, Bool.and_eq_true, decide_eq_true_eq] at he
      rcases hg with hg | hg
      · exact he.1 hg
      · exact absurd hid (Nat.ne_of_gt hg)
    rw [gAgentTimer_count, h.calls, if_neg he, if_neg clock_ne_period, if_neg clock_ne_period, if_pos hp,
      if_pos (Nat.le_succ_of_le hp)]
  · rcases hk with hk | hk
    · exact absurd hk (by decide)
    · omega
  · rw [gAgentTimer_timers]
    rcases hg with hg | hg
    · left
      rw [countDown, if_pos hg]
      exact hg
    · right
      simp only [countDown]
      split_ifs <;> exact hg

theorem tick_once (hp : n < p) (hm : p ≤ 2 ^ 32) (h : Track i id f gagentTimerClock p n s) :
    Track i id f gagentTimerClock p (n + 1) (gAgentTimer s) := by
  have ht := h.runs (.inr hp)
  have h0 : gagentTimerClock ≠ 0 := by decide
  have hpos : 0 < p := by omega
  have hz : (n + 1) % p = 0 ↔ n + 1 = p := by
    rw [succ_mod_eq hpos, Nat.mod_eq_of_lt hp]
    split <;> omega
  refine ⟨?_, ?_, fun hk => ?_, fun _ hle => ?_⟩
  · rw [gAgentTimer_created]
    exact h.created
  · have hex : expires (running gagentTimerClock p n f id) = true ↔ (n + 1) % p = 0 :=
      running_expires h0 hpos hm
    rw [gAgentTimer_count, h.calls, if_neg clock_ne_period, if_neg clock_ne_period, if_neg (Nat.not_le.mpr hp), ht]
    by_cases he : n + 1 = p
    · rw [if_pos ⟨hex.mpr (hz.mpr he), rfl, rfl⟩, if_pos he.ge]
    · rw [if_neg fun h => he (hz.mp (hex.mp h.1)), if_neg (by omega)]
  · have hlt : n + 1 < p := hk.resolve_left (by decide)
    rw [gAgentTimer_timers, ht, countDown_running h0 hpos hm fun he => absurd (hz.mp he) (by omega)]
  · left
    rw [gAgentTimer_timers, ht, countDown_ended h0 hpos hm (hz.mpr (by omega)), if_pos rfl]

theorem tick_track (hf : flag = gagentTimerPeriod ∨ flag = gagentTimerClock) (hp : 0 < p) (hm : p ≤ 2 ^ 32)
    (h : Track i id f flag p n s) : Track i id f flag p (n + 1) (gAgentTimer s) := by
  rcases hf with rfl | rfl
  · exact tick_periodic hp hm h
  · rcases Nat.lt_or_ge n p with hlt | hge
    · exact tick_once hlt hm h
    · exact tick_gone hge h

theorem create_track (h : Track i id f flag p n s) (h0 : flag ≠ 0) (k : Int) (ms : UInt32) (g : F) :
    Track i id f flag p n (gAgentCreateTimer k ms g s) := by
  unfold gAgentCreateTimer
  split
  · next j hj =>
    refine ⟨Nat.lt_succ_of_lt h.created, h.calls, fun hk => ?_, fun hk hle => ?_⟩
    · have hij : i ≠ j := by
        rintro rfl
        have hfree := freeSlot_free hj
        rw [h.runs hk] at hfree
        exact h0 hfree
      simp only [Function.update_of_ne hij]
      exact h.runs hk
    · by_cases hij : i = j
      · subst hij
        simp only [Function.update_self]
        exact .inr h.created
      · simp only [Function.update_of_ne hij]
        exact h.gone hk hle
  · exact h

/-! ## Runs -/

/-- What is known of a timer, by the ticks made since `t₀`. -/
def TrackSince (i : Fin 32) (id : Nat) (f : F) (flag : Int) (p t₀ : Nat) (s : TimerSt F) : Prop :=
  t₀ ≤ s.ticks ∧ Track i id f flag p (s.ticks - t₀) s

variable {t₀ : Nat}

theorem timerLoop_track (hf : flag = gagentTimerPeriod ∨ flag = gagentTimerClock) (hp : 0 < p) (hm : p ≤ 2 ^ 32) :
    ∀ (k : Nat) (s : TimerSt F), TrackSince i id f flag p t₀ s → TrackSince i id f flag p t₀ (timerLoop k s)
  | 0, _, h => h
  | k + 1, s, h => by
    obtain ⟨hle, ht⟩ := h
    have hw : Track i id f flag p (s.ticks - t₀) { s with interruptTime := k } :=
      ⟨ht.created, ht.calls, ht.runs, ht.gone⟩
    refine timerLoop_track hf hp hm k _ ⟨?_, ?_⟩
    · rw [gAgentTimer_ticks]
      exact Nat.le_succ_of_le hle
    · rw [gAgentTimer_ticks, Nat.succ_sub hle]
      exact tick_track hf hp hm hw

theorem timerStep_track (hf : flag = gagentTimerPeriod ∨ flag = gagentTimerClock) (hp : 0 < p) (hm : p ≤ 2 ^ 32)
    (h : TrackSince i id f flag p t₀ s) (e : TimerEv F) : TrackSince i id f flag p t₀ (timerStep s e) := by
  cases e with
  | create k ms g =>
    have h0 : flag ≠ 0 := by rcases hf with rfl | rfl <;> decide
    have hticks : (gAgentCreateTimer k ms g s).ticks = s.ticks := by unfold gAgentCreateTimer; split <;> rfl
    exact ⟨hticks ▸ h.1, hticks ▸ create_track h.2 h0 k ms g⟩
  | handler => exact ⟨h.1, h.2.created, h.2.calls, h.2.runs, h.2.gone⟩
  | timerRun => exact timerLoop_track hf hp hm _ s h

end

end

/-! ## Fresh numbers -/

structure Fresh (s : TimerSt F) : Prop where
  calls : ∀ c ∈ s.calls, c.id < s.created
  timers : ∀ i, (s.timers i).flag ≠ 0 → (s.timers i).id < s.created

theorem countDown_keeps (t : CoreGAgentTimer F) :
    (countDown t).id = t.id ∧ ((countDown t).flag ≠ 0 → t.flag ≠ 0) := by
  unfold countDown
  split_ifs <;> simp_all

theorem gAgentTimer_fresh (h : Fresh s) : Fresh (gAgentTimer s) := by
  constructor
  · intro c hc
    rw [gAgentTimer_created]
    rcases gAgentTimer_calls_mem hc with hc | ⟨hf, hid⟩
    · exact h.calls c hc
    · rw [hid]
      exact h.timers c.slot hf
  · intro i hf
    rw [gAgentTimer_timers] at hf ⊢
    obtain ⟨hid, hf'⟩ := countDown_keeps (s.timers i)
    rw [gAgentTimer_created, hid]
    exact h.timers i (hf' hf)

theorem timerLoop_fresh : ∀ (k : Nat) (s : TimerSt F), Fresh s → Fresh (timerLoop k s)
  | 0, _, h => h
  | k + 1, _, h => timerLoop_fresh k _ (gAgentTimer_fresh ⟨h.calls, h.timers⟩)

theorem create_fresh (h : Fresh s) (k : Int) (ms : UInt32) (g : F) : Fresh (gAgentCreateTimer k ms g s) := by
  unfold gAgentCreateTimer
  split
  · next j _ =>
    refine ⟨fun c hc => Nat.lt_succ_of_lt (h.calls c hc), fun i hf => ?_⟩
    by_cases hij : i = j
    · subst hij
      simp
    · simp only [Function.update_of_ne hij] at hf ⊢
      exact Nat.lt_succ_of_lt (h.timers i hf)
  · exact h

theorem timerStep_fresh (s : TimerSt F) (e : TimerEv F) (h : Fresh s) : Fresh (timerStep s e) := by
  cases e with
  | create k ms g => exact create_fresh h k ms g
  | handler => exact ⟨h.calls, h.timers⟩
  | timerRun => exact timerLoop_fresh _ s h

theorem timerRun_fresh (es : List (TimerEv F)) : Fresh (run timerStep ({} : TimerSt F) es) :=
  run_inv ⟨by simp, by simp⟩ timerStep_fresh

/-! ## The life of a timer -/

/-- A timer is created after one run, and another run follows. -/
structure TimerLife (F : Type) where
  before : List (TimerEv F)
  flag : Int
  ms : UInt32
  pfFunc : F
  slot : Fin 32
  after : List (TimerEv F)
  small : ms.toNat < 2 ^ 31
  given : freeSlot flag (run timerStep {} before) = some slot

namespace TimerLife

def start (l : TimerLife F) : TimerSt F := run timerStep {} l.before

def finish (l : TimerLife F) : TimerSt F :=
  run timerStep (gAgentCreateTimer l.flag l.ms l.pfFunc l.start) l.after

def ticks (l : TimerLife F) : Nat := l.finish.ticks - l.start.ticks

def fired [DecidableEq F] (l : TimerLife F) : Nat :=
  l.finish.calls.count ⟨l.slot, l.start.created, some l.pfFunc⟩

/-- The seconds that a time in milliseconds comes to. -/
def seconds (l : TimerLife F) : Nat := max 1 ((l.ms.toNat + 900) / 1000)

/-- The slot is free, or was given to a timer created later. -/
def Released (l : TimerLife F) : Prop :=
  (l.finish.timers l.slot).flag = 0 ∨ l.start.created < (l.finish.timers l.slot).id

structure OnTime [DecidableEq F] (l : TimerLife F) : Prop where
  periodic : l.flag = gagentTimerPeriod → l.fired = l.ticks / l.seconds
  once : l.flag = gagentTimerClock → l.fired = if l.seconds ≤ l.ticks then 1 else 0
  released : l.flag = gagentTimerClock → l.seconds ≤ l.ticks → l.Released

def period (l : TimerLife F) : Nat := if l.ms.toNat < 100 then 2 ^ 32 else l.seconds

end TimerLife

variable {l : TimerLife F}

theorem timerSeconds_eq (l : TimerLife F) : timerSeconds l.ms = Int32.ofNat l.period := by
  have hs := l.small
  show UInt32.toInt32 _ = (UInt32.ofNat l.period).toInt32
  congr 1
  rw [← UInt32.toNat_inj, UInt32.toNat_ofNat', TimerLife.period, TimerLife.seconds]
  simp only [UInt32.toNat_div, UInt32.toNat_add, UInt32.reduceToNat]
  split <;> omega

theorem period_bounds (l : TimerLife F) : 0 < l.period ∧ l.period ≤ 2 ^ 32 := by
  have hs := l.small
  simp only [TimerLife.period, TimerLife.seconds]
  split <;> omega

theorem flag_cases (l : TimerLife F) : l.flag = gagentTimerPeriod ∨ l.flag = gagentTimerClock := by
  have hg := l.given
  by_contra hn
  rw [not_or] at hn
  rw [freeSlot, if_pos hn] at hg
  cases hg

section
variable [DecidableEq F]

theorem track_start (l : TimerLife F) :
    Track l.slot l.start.created l.pfFunc l.flag l.period 0 (gAgentCreateTimer l.flag l.ms l.pfFunc l.start) := by
  have hpos := (period_bounds l).1
  have hfresh : Fresh l.start := timerRun_fresh l.before
  have hgiven : freeSlot l.flag l.start = some l.slot := l.given
  have hnone : l.start.calls.count ⟨l.slot, l.start.created, some l.pfFunc⟩ = 0 :=
    List.count_eq_zero.mpr fun hm => Nat.lt_irrefl _ (hfresh.calls _ hm)
  simp only [gAgentCreateTimer, hgiven]
  refine ⟨Nat.lt_succ_self _, ?_, fun _ => ?_, fun _ hle => absurd hle (Nat.not_le.mpr hpos)⟩
  · refine hnone.trans ?_
    rw [Nat.zero_div, if_neg (Nat.not_le.mpr hpos), ite_self]
  · simp [running, timerSeconds_eq]

theorem track_finish (l : TimerLife F) :
    Track l.slot l.start.created l.pfFunc l.flag l.period l.ticks l.finish := by
  have hticks : (gAgentCreateTimer l.flag l.ms l.pfFunc l.start).ticks = l.start.ticks := by
    unfold gAgentCreateTimer
    split <;> rfl
  have h0 : TrackSince l.slot l.start.created l.pfFunc l.flag l.period l.start.ticks
      (gAgentCreateTimer l.flag l.ms l.pfFunc l.start) := by
    refine ⟨hticks.ge, ?_⟩
    rw [hticks, Nat.sub_self]
    exact track_start l
  obtain ⟨hp, hm⟩ := period_bounds l
  exact (run_inv h0 fun _ e h => timerStep_track (flag_cases l) hp hm h e).2

/-- **A timer fires in time** in any company and however its ticks are made,
exactly when its time is a tenth of a second at least; a shorter time never
comes to 0 before the counter has gone round. -/
theorem timer_on_time_iff (l : TimerLife F) :
    l.OnTime ↔ 100 ≤ l.ms.toNat ∨ l.ticks = 0 ∨ (l.flag = gagentTimerClock ∧ 2 ^ 32 ≤ l.ticks) := by
  have ht := track_finish l
  have hfired : l.fired = _ := ht.calls
  rcases Nat.lt_or_ge l.ms.toNat 100 with hms | hms
  · have hp : l.period = 2 ^ 32 := if_pos hms
    have hs : l.seconds = 1 := by
      rw [TimerLife.seconds]
      omega
    rw [hp] at hfired ht
    constructor
    · intro h
      rcases flag_cases l with hf | hf
      · have hq := h.periodic hf
        rw [hfired, if_pos hf, hs, Nat.div_one] at hq
        omega
      · have hq := h.once hf
        rw [hfired, if_neg (hf ▸ clock_ne_period), hs] at hq
        have hbig : l.ticks = 0 ∨ 2 ^ 32 ≤ l.ticks := by
          split at hq <;> split at hq <;> omega
        exact .inr (hbig.imp_right fun hb => ⟨hf, hb⟩)
    · intro h
      refine ⟨fun hf => ?_, fun hf => ?_, fun hf hle => ?_⟩
      · have h0 : l.ticks = 0 := by
          rcases h with h | h | h
          · omega
          · exact h
          · exact absurd (h.1.symm.trans hf) clock_ne_period
        rw [hfired, if_pos hf, h0, Nat.zero_div, Nat.zero_div]
      · rw [hfired, if_neg (hf ▸ clock_ne_period), hs]
        split <;> split <;> omega
      · exact ht.gone hf (by omega)
  · have hp : l.period = l.seconds := if_neg (Nat.not_lt.mpr hms)
    rw [hp] at hfired ht
    refine iff_of_true ⟨fun h => ?_, fun h => ?_, ht.gone⟩ (.inl hms)
    · rw [hfired, if_pos h]
    · rw [hfired, if_neg (h ▸ clock_ne_period)]

end

end

def shortLife : TimerLife Unit where
  before := []
  flag := gagentTimerPeriod
  ms := 50
  pfFunc := ()
  slot := 0
  after := [.handler, .timerRun]
  small := by decide
  given := by decide

theorem short_timer_silent : ¬ ∀ l : TimerLife Unit, l.OnTime := by
  intro hall
  have h := (hall shortLife).periodic rfl
  exact absurd h (by decide +kernel)

end GizwitsSdk
