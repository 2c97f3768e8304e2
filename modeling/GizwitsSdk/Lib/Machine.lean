import Mathlib.Data.List.Induction

/-!
# Machines

A machine is a function from a state and an event to the next state. The rules
carry an invariant along a run whose every step meets a condition, and from the
states of a run back to the condition.
-/

namespace Lib

section
variable {S E : Type} (step : S → E → S)

def run (s : S) (es : List E) : S := es.foldl step s

/-- Every step of the run is taken where `ok` holds. -/
def Meets (ok : S → E → Prop) (s : S) (es : List E) : Prop :=
  ∀ pre e, pre ++ [e] <+: es → ok (run step s pre) e

def CanReach (p : S → Prop) (s : S) : Prop := ∃ es, p (run step s es)

variable {step} {s : S} {es : List E}

theorem run_cons (e : E) : run step s (e :: es) = run step (step s e) es := rfl

theorem run_append (es' : List E) : run step s (es ++ es') = run step (run step s es) es' :=
  List.foldl_append

theorem run_snoc (e : E) : run step s (es ++ [e]) = step (run step s es) e := run_append [e]

section
variable {ok : S → E → Prop} {inv good : S → Prop}

theorem meets_nil : Meets step ok s [] := by
  intro pre e hp
  exact absurd (List.prefix_nil.mp hp) (List.append_ne_nil_of_right_ne_nil pre (List.cons_ne_nil e []))

theorem meets_cons {e : E} : Meets step ok s (e :: es) ↔ ok s e ∧ Meets step ok (step s e) es := by
  constructor
  · intro h
    refine ⟨h [] e (List.prefix_append [e] es), fun pre e' hp => ?_⟩
    exact h (e :: pre) e' (List.cons_prefix_cons.mpr ⟨rfl, hp⟩)
  · rintro ⟨h0, h⟩ pre e' hp
    cases pre with
    | nil =>
      obtain ⟨rfl, -⟩ := List.cons_prefix_cons.mp hp
      exact h0
    | cons a pre =>
      obtain ⟨rfl, hp'⟩ := List.cons_prefix_cons.mp hp
      exact h pre e' hp'

instance decidableMeets [∀ s e, Decidable (ok s e)] : ∀ (es : List E) (s : S), Decidable (Meets step ok s es)
  | [], _ => isTrue meets_nil
  | _ :: es, _ => @decidable_of_iff _ _ meets_cons.symm (@instDecidableAnd _ _ _ (decidableMeets es _))

theorem Meets.preserves (h0 : inv s) (hstep : ∀ s e, inv s → ok s e → inv (step s e))
    (hm : Meets step ok s es) : ∀ pre, pre <+: es → inv (run step s pre) := by
  intro pre
  induction pre using List.reverseRecOn with
  | nil => exact fun _ => h0
  | append_singleton pre e ih =>
    intro hp
    rw [run_snoc]
    exact hstep _ e (ih ((List.prefix_append pre [e]).trans hp)) (hm pre e hp)

theorem run_inv (h0 : inv s) (hstep : ∀ s e, inv s → inv (step s e)) : inv (run step s es) := by
  induction es generalizing s with
  | nil => exact h0
  | cons e es ih => exact ih (hstep s e h0)

/-- Up to each step the condition has held, so that the invariant does. -/
theorem meets_intro (h0 : inv s) (hstep : ∀ s e, inv s → ok s e → inv (step s e))
    (h : ∀ pre e, pre ++ [e] <+: es → inv (run step s pre) → ok (run step s pre) e) : Meets step ok s es := by
  have key : ∀ pre, pre <+: es → inv (run step s pre) := by
    intro pre
    induction pre using List.reverseRecOn with
    | nil => exact fun _ => h0
    | append_singleton pre e ih =>
      intro hp
      have hi := ih ((List.prefix_append pre [e]).trans hp)
      rw [run_snoc]
      exact hstep _ e hi (h pre e hp hi)
  exact fun pre e hp => h pre e hp (key pre ((List.prefix_append pre [e]).trans hp))

/-- Two conditions that agree wherever the invariant holds. -/
theorem meets_congr {ok' : S → E → Prop} (h0 : inv s) (hstep : ∀ s e, inv s → inv (step s e))
    (h : ∀ s e, inv s → (ok s e ↔ ok' s e)) : Meets step ok s es ↔ Meets step ok' s es := by
  have hi (pre : List E) : inv (run step s pre) := run_inv h0 hstep
  exact ⟨fun hm pre e hp => (h _ e (hi pre)).mp (hm pre e hp),
    fun hm pre e hp => (h _ e (hi pre)).mpr (hm pre e hp)⟩

/-- Every state of a run is good exactly when every step meets the condition. -/
theorem meets_iff (h0 : inv s) (hgood : ∀ s, inv s → good s)
    (hstep : ∀ s e, inv s → ok s e → inv (step s e))
    (hbad : ∀ s e, inv s → good (step s e) → ok s e) :
    (∀ pre, pre <+: es → good (run step s pre)) ↔ Meets step ok s es := by
  constructor
  · intro h
    refine meets_intro h0 hstep fun pre e hp hi => ?_
    have hg := h _ hp
    rw [run_snoc] at hg
    exact hbad _ e hi hg
  · exact fun hm pre hp => hgood _ (Meets.preserves h0 hstep hm pre hp)

end

section
variable {p : S → Prop}

theorem CanReach.here (h : p s) : CanReach step p s := ⟨[], h⟩

theorem CanReach.after (es : List E) (h : CanReach step p (run step s es)) : CanReach step p s := by
  obtain ⟨es', h⟩ := h
  rw [← run_append] at h
  exact ⟨es ++ es', h⟩

theorem CanReach.next (e : E) (h : CanReach step p (step s e)) : CanReach step p s := h.after [e]

end

end

end Lib
