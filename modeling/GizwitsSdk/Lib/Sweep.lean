import Mathlib.Data.List.Nodup
import Mathlib.Tactic.Common

/-!
# Sweeps

A loop makes one step for each index. Where only the step of one index changes
what is seen of a state, the loop changes it as that step does.
-/

namespace Lib

section
variable {S ι O : Type} {step : S → ι → S} {obs : S → O} {i : ι}

theorem sweep_other (other : ∀ s j, j ≠ i → obs (step s j) = obs s) :
    ∀ (l : List ι) (s : S), i ∉ l → obs (l.foldl step s) = obs s
  | [], _, _ => rfl
  | j :: l, s, hi => by
    rw [List.foldl_cons, sweep_other other l _ fun h => hi (List.mem_cons_of_mem j h)]
    exact other s j fun h => hi (h ▸ List.mem_cons_self)

theorem sweep_at {g : O → O} (own : ∀ s, obs (step s i) = g (obs s))
    (other : ∀ s j, j ≠ i → obs (step s j) = obs s) :
    ∀ (l : List ι) (s : S), l.Nodup → i ∈ l → obs (l.foldl step s) = g (obs s)
  | j :: l, s, hn, hi => by
    obtain ⟨hj, hl⟩ := List.nodup_cons.mp hn
    rw [List.foldl_cons]
    by_cases hij : j = i
    · subst hij
      rw [sweep_other other l _ hj, own]
    · have hil : i ∈ l := (List.mem_cons.mp hi).resolve_left fun h => hij h.symm
      rw [sweep_at own other l _ hl hil, other s j hij]

end

/-- A sweep over all of a finite index type. -/
theorem sweep_finRange {S O : Type} {n : Nat} {step : S → Fin n → S} (obs : S → O) {g : O → O} {i : Fin n}
    (own : ∀ s, obs (step s i) = g (obs s)) (other : ∀ s j, j ≠ i → obs (step s j) = obs s) (s : S) :
    obs ((List.finRange n).foldl step s) = g (obs s) :=
  sweep_at own other _ s (List.nodup_finRange n) (List.mem_finRange i)

theorem sweep_inv {S ι : Type} {step : S → ι → S} {P : S → Prop} (hstep : ∀ s i, P s → P (step s i))
    (l : List ι) {s : S} (h : P s) : P (l.foldl step s) := by
  induction l generalizing s with
  | nil => exact h
  | cons i l ih => exact ih (hstep s i h)

theorem sweep_keeps {S ι O : Type} {step : S → ι → S} (obs : S → O) (keeps : ∀ s i, obs (step s i) = obs s)
    (l : List ι) (s : S) : obs (l.foldl step s) = obs s := by
  induction l generalizing s with
  | nil => rfl
  | cons i l ih => rw [List.foldl_cons, ih, keeps]

end Lib
