import Mathlib.Data.List.Induction
import Mathlib.Tactic.Common

/-!
# Traces

A machine that is not always ready for an action, and gives something out with
each step. A trace keeps the state before each step, the action, and what came
out.
-/

namespace Lib

section
variable {S A O : Type}

/-- The records of a run, in order. -/
inductive Trace (step : S → A → Option (S × O)) (s : S) : List (S × A × O) → S → Prop
  | nil : Trace step s [] s
  | snoc {l s₁ s₂ a o} : Trace step s l s₁ → step s₁ a = some (s₂, o) → Trace step s (l ++ [(s₁, a, o)]) s₂

variable {step : S → A → Option (S × O)} {s s₁ s₂ : S} {l l₁ l₂ : List (S × A × O)}

/-- What holds at first and after every step holds in the end. -/
theorem Trace.inv {P : S → Prop} (hstep : ∀ s a s' o, P s → step s a = some (s', o) → P s') (h0 : P s)
    (h : Trace step s l s₁) : P s₁ := by
  induction h with
  | nil => exact h0
  | snoc _ hs ih => exact hstep _ _ _ _ ih hs

/-- The same for what holds of the state and of the records so far. -/
theorem Trace.hist {P : S → Prop} {H : List (S × A × O) → S → Prop}
    (hinv : ∀ s a s' o, P s → step s a = some (s', o) → P s')
    (hstep : ∀ l s a s' o, P s → H l s → step s a = some (s', o) → H (l ++ [(s, a, o)]) s')
    (hi : P s) (h0 : H [] s) (h : Trace step s l s₁) : H l s₁ := by
  induction h with
  | nil => exact h0
  | snoc ht hs ih => exact hstep _ _ _ _ _ (ht.inv hinv hi) ih hs

/-- The same where each record meets a condition. -/
theorem Trace.along {R : S → A → O → Prop} {H : List (S × A × O) → S → Prop}
    (hstep : ∀ l s a s' o, H l s → R s a o → step s a = some (s', o) → H (l ++ [(s, a, o)]) s')
    (h0 : H [] s) (h : Trace step s l s₁) (hl : ∀ e ∈ l, R e.1 e.2.1 e.2.2) : H l s₁ := by
  induction h with
  | nil => exact h0
  | snoc _ hs ih =>
    refine hstep _ _ _ _ _ (ih fun e he => hl e (List.mem_append_left _ he)) ?_ hs
    exact hl _ (List.mem_append_right _ List.mem_cons_self)

theorem Trace.append (h₁ : Trace step s l₁ s₁) (h₂ : Trace step s₁ l₂ s₂) : Trace step s (l₁ ++ l₂) s₂ := by
  induction h₂ with
  | nil => rwa [List.append_nil]
  | snoc _ hs ih =>
    rw [← List.append_assoc]
    exact ih.snoc hs

/-- The actions one after the other, where they can be. -/
def runTrace (step : S → A → Option (S × O)) (s : S) : List A → Option (List (S × A × O) × S)
  | [] => some ([], s)
  | a :: as =>
    match step s a with
    | none => none
    | some (s', o) => (runTrace step s' as).map fun r => ((s, a, o) :: r.1, r.2)

theorem trace_of_run (as : List A) {s : S} {l : List (S × A × O)} {s₁ : S}
    (h : runTrace step s as = some (l, s₁)) : Trace step s l s₁ := by
  induction as generalizing s l s₁ with
  | nil =>
    obtain ⟨rfl, rfl⟩ := Prod.mk.inj (Option.some.inj h)
    exact .nil
  | cons a as ih =>
    unfold runTrace at h
    split at h
    · cases h
    · case h_2 s' o hs =>
      obtain ⟨r, hr, heq⟩ := Option.map_eq_some_iff.mp h
      obtain ⟨rfl, rfl⟩ := Prod.mk.inj heq
      exact ((Trace.nil.snoc hs).append (ih hr))

theorem trace_get (as : List A) (h : (runTrace step s as).isSome = true) :
    Trace step s ((runTrace step s as).get h).1 ((runTrace step s as).get h).2 :=
  trace_of_run as (Option.some_get h).symm

end

end Lib
