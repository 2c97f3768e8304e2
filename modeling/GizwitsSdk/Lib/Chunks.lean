import Mathlib.Tactic.Common

/-!
# Readers that take one item from a chunk

A reader that takes from each chunk of a stream at most a beginning of it
recovers everything only if it takes each chunk whole.
-/

namespace Lib

section
variable {α : Type} {f : List α → Option (List α)} {cs : List (List α)}

theorem filterMap_length_le (hf : ∀ c ∈ cs, ∀ p, f c = some p → p <+: c) :
    (cs.filterMap f).flatten.length ≤ cs.flatten.length := by
  induction cs with
  | nil => exact Nat.le_refl _
  | cons c cs ih =>
    have ih := ih fun d hd => hf d (List.mem_cons_of_mem _ hd)
    rw [List.flatten_cons, List.length_append]
    cases hc : f c with
    | none => rw [List.filterMap_cons_none hc]; omega
    | some p =>
      have hp := (hf c List.mem_cons_self p hc).length_le
      rw [List.filterMap_cons_some hc, List.flatten_cons, List.length_append]
      omega

theorem filterMap_self (h : ∀ c ∈ cs, f c = some c) : cs.filterMap f = cs := by
  induction cs with
  | nil => rfl
  | cons c cs ih =>
    rw [List.filterMap_cons_some (h c List.mem_cons_self),
      ih fun d hd => h d (List.mem_cons_of_mem _ hd)]

theorem filterMap_whole (hf : ∀ c ∈ cs, ∀ p, f c = some p → p <+: c) (hne : ∀ c ∈ cs, c ≠ [])
    (hl : (cs.filterMap f).flatten.length = cs.flatten.length) : cs.filterMap f = cs := by
  induction cs with
  | nil => rfl
  | cons c cs ih =>
    have hf' : ∀ d ∈ cs, ∀ p, f d = some p → p <+: d := fun d hd => hf d (List.mem_cons_of_mem _ hd)
    have hle := filterMap_length_le hf'
    rw [List.flatten_cons, List.length_append] at hl
    cases hc : f c with
    | none =>
      have hpos := List.length_pos_iff.mpr (hne c List.mem_cons_self)
      rw [List.filterMap_cons_none hc] at hl
      omega
    | some p =>
      have hp := hf c List.mem_cons_self p hc
      have hlen := hp.length_le
      rw [List.filterMap_cons_some hc, List.flatten_cons, List.length_append] at hl
      rw [List.filterMap_cons_some hc, hp.eq_of_length (by omega),
        ih hf' (fun d hd => hne d (List.mem_cons_of_mem _ hd)) (by omega)]

end

end Lib
