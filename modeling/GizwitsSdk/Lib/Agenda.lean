import Mathlib.Data.List.Sort
import Mathlib.Algebra.Ring.Nat

/-!
# Agendas

What is due, sorted by deadline; of what is due at the same time, what was set
first comes first. The clock goes on by waits, none of which goes past a deadline,
and what is first fires at its own.
-/

namespace Lib

structure Due (K : Type) where
  deadline : Nat
  key : K

inductive AgendaAct (K : Type)
  | set (delay : Nat) (key : K)
  | cancel (key : K)
  | wait (n : Nat)
  | fire

section
variable {K : Type}

/-- Behind everything that is due no later. -/
def enter (d : Due K) (ds : List (Due K)) : List (Due K) :=
  ds.orderedInsert (fun a b => a.deadline < b.deadline) d

theorem mem_enter {d b : Due K} {ds : List (Due K)} : b ∈ enter d ds ↔ b = d ∨ b ∈ ds := List.mem_orderedInsert _

theorem enter_sorted {d : Due K} {ds : List (Due K)} (h : ds.Pairwise fun a b => a.deadline ≤ b.deadline) :
    (enter d ds).Pairwise fun a b => a.deadline ≤ b.deadline := by
  induction ds with
  | nil => simp [enter]
  | cons b ds ih =>
    obtain ⟨hb, hds⟩ := List.pairwise_cons.mp h
    have hih := ih hds
    unfold enter at hih ⊢
    rw [List.orderedInsert_cons]
    split
    · case isTrue hlt =>
      refine List.pairwise_cons.mpr ⟨fun x hx => ?_, h⟩
      obtain rfl | hx := List.mem_cons.mp hx
      · exact Nat.le_of_lt hlt
      · exact Nat.le_trans (Nat.le_of_lt hlt) (hb x hx)
    · case isFalse hge =>
      refine List.pairwise_cons.mpr ⟨fun x hx => ?_, hih⟩
      obtain rfl | hx := mem_enter.mp hx
      · exact Nat.le_of_not_lt hge
      · exact hb x hx

variable [DecidableEq K]

/-- The clock and what is due; an item that fires gives its key out. -/
def agendaStep (s : Nat × List (Due K)) : AgendaAct K → Option ((Nat × List (Due K)) × Option K)
  | .set delay key => some ((s.1, enter ⟨s.1 + delay, key⟩ s.2), none)
  | .cancel key => some ((s.1, s.2.eraseP (·.key = key)), none)
  | .wait n => if ∀ d ∈ s.2, s.1 + n ≤ d.deadline then some ((s.1 + n, s.2), none) else none
  | .fire =>
    match s.2 with
    | [] => none
    | d :: ds => some ((d.deadline, ds), some d.key)

/-- An action that is not about a key. -/
def AgendaAct.Leaves (k : K) : AgendaAct K → Prop
  | .set _ key | .cancel key => key ≠ k
  | .wait _ | .fire => True

variable {s s' : Nat × List (Due K)} {a : AgendaAct K} {o : Option K} {d : Due K} {ds : List (Due K)} {k : K}
  {t : Nat} {times : List Nat}

theorem filter_enter_ne (h : d.key ≠ k) : (enter d ds).filter (·.key = k) = ds.filter (·.key = k) := by
  induction ds with
  | nil => simp [enter, h]
  | cons b ds ih =>
    unfold enter at ih ⊢
    rw [List.orderedInsert_cons]
    split
    · rw [List.filter_cons_of_neg (by simpa using h)]
    · rw [List.filter_cons, List.filter_cons, ih]

theorem filter_enter_self (h : ds.filter (·.key = d.key) = []) : (enter d ds).filter (·.key = d.key) = [d] := by
  induction ds with
  | nil => simp [enter]
  | cons b ds ih =>
    have hb : ¬ b.key = d.key := by simpa using List.filter_eq_nil_iff.mp h b List.mem_cons_self
    have hds : ds.filter (·.key = d.key) = [] := by rwa [List.filter_cons_of_neg (by simpa using hb)] at h
    unfold enter at ih ⊢
    rw [List.orderedInsert_cons]
    split
    · rw [List.filter_cons_of_pos (by simp), h]
    · rw [List.filter_cons_of_neg (by simpa using hb), ih hds]

theorem filter_eraseP_ne {key : K} (h : key ≠ k) :
    (ds.eraseP (·.key = key)).filter (·.key = k) = ds.filter (·.key = k) := by
  induction ds with
  | nil => rfl
  | cons b ds ih =>
    by_cases hb : b.key = key
    · rw [List.eraseP_cons_of_pos (by simpa using hb), List.filter_cons_of_neg (by simpa [hb] using h)]
    · rw [List.eraseP_cons_of_neg (by simpa using hb), List.filter_cons, List.filter_cons, ih]

/-- No deadline has gone by, and the first is the least. -/
def InOrder (s : Nat × List (Due K)) : Prop :=
  (∀ d ∈ s.2, s.1 ≤ d.deadline) ∧ s.2.Pairwise fun a b => a.deadline ≤ b.deadline

/-- A key that is due at `t` and nowhere else has not fired and the time has not
gone past it; or it has fired, and at `t`. -/
def Awaits (k : K) (t : Nat) (times : List Nat) (s : Nat × List (Due K)) : Prop :=
  times = [] ∧ s.1 ≤ t ∧ s.2.filter (·.key = k) = [⟨t, k⟩] ∨
    times = [t] ∧ t ≤ s.1 ∧ s.2.filter (·.key = k) = []

theorem InOrder.step (h : InOrder s) (hs : agendaStep s a = some (s', o)) : InOrder s' := by
  obtain ⟨hle, hsort⟩ := h
  cases a with
  | set delay key =>
    obtain ⟨rfl, -⟩ := Prod.mk.inj (Option.some.inj hs)
    refine ⟨fun b hb => ?_, enter_sorted hsort⟩
    obtain rfl | hb := mem_enter.mp hb
    · exact Nat.le_add_right _ _
    · exact hle b hb
  | cancel key =>
    obtain ⟨rfl, -⟩ := Prod.mk.inj (Option.some.inj hs)
    exact ⟨fun b hb => hle b (List.mem_of_mem_eraseP hb), hsort.sublist List.eraseP_sublist⟩
  | wait n =>
    obtain ⟨hw, hs⟩ := Option.ite_none_right_eq_some.mp hs
    obtain ⟨rfl, -⟩ := Prod.mk.inj (Option.some.inj hs)
    exact ⟨hw, hsort⟩
  | fire =>
    obtain ⟨now, ds⟩ := s
    cases ds with
    | nil => cases hs
    | cons d ds =>
      obtain ⟨rfl, -⟩ := Prod.mk.inj (Option.some.inj hs)
      exact List.pairwise_cons.mp hsort

/-- An action that sets nothing for later than `n`. -/
def AgendaAct.Within (n : Nat) : AgendaAct K → Prop
  | .set delay _ => delay < n
  | .cancel _ | .wait _ | .fire => True

theorem agendaStep_within {n : Nat} (hok : InOrder s) (h : ∀ d ∈ s.2, d.deadline < s.1 + n) (ha : a.Within n)
    (hs : agendaStep s a = some (s', o)) : ∀ d ∈ s'.2, d.deadline < s'.1 + n := by
  cases a with
  | set delay key =>
    obtain ⟨rfl, -⟩ := Prod.mk.inj (Option.some.inj hs)
    intro b hb
    obtain rfl | hb := mem_enter.mp hb
    · exact Nat.add_lt_add_left ha _
    · exact h b hb
  | cancel key =>
    obtain ⟨rfl, -⟩ := Prod.mk.inj (Option.some.inj hs)
    exact fun b hb => h b (List.mem_of_mem_eraseP hb)
  | wait m =>
    obtain ⟨-, hs⟩ := Option.ite_none_right_eq_some.mp hs
    obtain ⟨rfl, -⟩ := Prod.mk.inj (Option.some.inj hs)
    intro b hb
    have := h b hb
    show b.deadline < s.1 + m + n
    omega
  | fire =>
    obtain ⟨now, ds⟩ := s
    cases ds with
    | nil => cases hs
    | cons d ds =>
      obtain ⟨rfl, -⟩ := Prod.mk.inj (Option.some.inj hs)
      intro b hb
      have hnow : now ≤ d.deadline := hok.1 d List.mem_cons_self
      have hb' : b.deadline < now + n := h b (List.mem_cons_of_mem _ hb)
      show b.deadline < d.deadline + n
      omega

/-- What a step does to a key that it is not about. -/
theorem Awaits.step (h : Awaits k t times s) (hok : InOrder s) (hl : a.Leaves k)
    (hs : agendaStep s a = some (s', o)) :
    Awaits k t (times ++ if o = some k then [s'.1] else []) s' := by
  cases a with
  | set delay key =>
    obtain ⟨rfl, rfl⟩ := Prod.mk.inj (Option.some.inj hs)
    simpa [Awaits, filter_enter_ne (d := ⟨s.1 + delay, key⟩) hl] using h
  | cancel key =>
    obtain ⟨rfl, rfl⟩ := Prod.mk.inj (Option.some.inj hs)
    simpa [Awaits, filter_eraseP_ne hl] using h
  | wait n =>
    obtain ⟨hw, hs⟩ := Option.ite_none_right_eq_some.mp hs
    obtain ⟨rfl, rfl⟩ := Prod.mk.inj (Option.some.inj hs)
    rw [if_neg (by simp), List.append_nil]
    obtain ⟨ht, hle, hf⟩ | ⟨ht, hle, hf⟩ := h
    · have hmem : (⟨t, k⟩ : Due K) ∈ s.2 := List.mem_of_mem_filter (hf ▸ List.mem_singleton_self _)
      exact .inl ⟨ht, hw _ hmem, hf⟩
    · exact .inr ⟨ht, Nat.le_add_right_of_le hle, hf⟩
  | fire =>
    obtain ⟨now, ds⟩ := s
    cases ds with
    | nil => cases hs
    | cons d ds =>
      obtain ⟨rfl, rfl⟩ := Prod.mk.inj (Option.some.inj hs)
      obtain ⟨hnow, hsort⟩ := hok
      obtain ⟨hd, -⟩ := List.pairwise_cons.mp hsort
      by_cases hk : d.key = k
      · rw [if_pos (congrArg some hk)]
        obtain ⟨ht, hle, hf⟩ | ⟨ht, hle, hf⟩ := h
        · rw [List.filter_cons_of_pos (by simpa using hk)] at hf
          obtain ⟨rfl, hnil⟩ := List.cons.inj hf
          exact .inr ⟨by rw [ht]; rfl, Nat.le_refl _, hnil⟩
        · rw [List.filter_cons_of_pos (by simpa using hk)] at hf
          cases hf
      · rw [if_neg fun e => hk (Option.some.inj e), List.append_nil]
        obtain ⟨ht, hle, hf⟩ | ⟨ht, hle, hf⟩ := h
        · rw [List.filter_cons_of_neg (by simpa using hk)] at hf
          have hmem : (⟨t, k⟩ : Due K) ∈ ds := List.mem_of_mem_filter (hf ▸ List.mem_singleton_self _)
          exact .inl ⟨ht, hd _ hmem, hf⟩
        · rw [List.filter_cons_of_neg (by simpa using hk)] at hf
          exact .inr ⟨ht, Nat.le_trans hle (hnow d List.mem_cons_self), hf⟩

end

end Lib
