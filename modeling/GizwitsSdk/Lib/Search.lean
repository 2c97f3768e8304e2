import Mathlib.Data.List.Infix
import Mathlib.Tactic.Common

/-!
# Searches

A list is cut at the first occurrence of a word. A shorter list that has the
occurrence is cut there too.
-/

namespace Lib

section
variable {α : Type} [DecidableEq α]

/-- What is before the first occurrence of `w`, and what is behind it. -/
def cut (w : List α) : List α → Option (List α × List α)
  | [] => if w = [] then some ([], []) else none
  | a :: l => if w <+: a :: l then some ([], (a :: l).drop w.length) else (cut w l).map fun p => (a :: p.1, p.2)

/-- What holds of the two parts, or of a list without the word. -/
def Cuts (w l : List α) (found : List α → List α → Prop) (missing : Prop) : Prop :=
  match cut w l with
  | some p => found p.1 p.2
  | none => missing

variable {w l a b : List α} {c : α}

theorem cut_head (h : w <+: l) : cut w l = some ([], l.drop w.length) := by
  cases l with
  | nil =>
    obtain rfl := List.prefix_nil.mp h
    rfl
  | cons c l => rw [cut, if_pos h]

theorem cut_step (h : ¬ w <+: c :: l) : cut w (c :: l) = (cut w l).map fun p => (c :: p.1, p.2) := by
  rw [cut, if_neg h]

theorem cuts_congr {found found' : List α → List α → Prop} {missing missing' : Prop}
    (hf : ∀ a b, cut w l = some (a, b) → (found a b ↔ found' a b)) (hm : missing ↔ missing') :
    Cuts w l found missing ↔ Cuts w l found' missing' := by
  unfold Cuts
  cases hc : cut w l with
  | none => exact hm
  | some p => exact hf p.1 p.2 hc

theorem cut_none_iff : cut w l = none ↔ ∀ a b, l ≠ a ++ (w ++ b) := by
  induction l with
  | nil =>
    unfold cut
    split
    · next hw => simp [hw]
    · next hw => simp [hw]
  | cons c l ih =>
    by_cases h : w <+: c :: l
    · rw [cut_head h]
      obtain ⟨b, hb⟩ := h
      exact iff_of_false (by simp) fun hn => hn [] b hb.symm
    · rw [cut_step h, Option.map_eq_none_iff, ih]
      constructor
      · intro hn a b he
        cases a with
        | nil => exact h ⟨b, he.symm⟩
        | cons a as => exact hn as b (List.cons.inj he).2
      · exact fun hn a b he => hn (c :: a) b (congrArg (c :: ·) he)

theorem cut_parts (h : cut w l = some (a, b)) : l = a ++ (w ++ b) := by
  induction l generalizing a with
  | nil =>
    unfold cut at h
    split at h
    · next hw =>
      cases h
      rw [hw]
      rfl
    · cases h
  | cons c l ih =>
    by_cases hw : w <+: c :: l
    · rw [cut_head hw] at h
      obtain ⟨b', hb⟩ := hw
      cases h
      rw [← hb, List.drop_left]
      rfl
    · rw [cut_step hw, Option.map_eq_some_iff] at h
      obtain ⟨p, hp, he⟩ := h
      cases he
      exact congrArg (c :: ·) (ih hp)

theorem cut_first (h : cut w l = some (a, b)) {a' b' : List α} (he : l = a' ++ (w ++ b')) : a.length ≤ a'.length := by
  induction l generalizing a a' with
  | nil =>
    have hl := congrArg List.length (cut_parts h)
    rw [List.length_append, List.length_nil] at hl
    omega
  | cons c l ih =>
    by_cases hw : w <+: c :: l
    · rw [cut_head hw] at h
      cases h
      exact Nat.zero_le _
    · rw [cut_step hw, Option.map_eq_some_iff] at h
      obtain ⟨p, hp, hpe⟩ := h
      cases hpe
      cases a' with
      | nil => exact absurd ⟨b', he.symm⟩ hw
      | cons d a' => exact Nat.succ_le_succ (ih hp (List.cons.inj he).2)

/-- The parts are around the word, and no occurrence is earlier. -/
theorem cut_some_iff :
    cut w l = some (a, b) ↔ l = a ++ (w ++ b) ∧ ∀ a' b', l = a' ++ (w ++ b') → a.length ≤ a'.length := by
  refine ⟨fun h => ⟨cut_parts h, fun a' b' he => cut_first h he⟩, fun h => ?_⟩
  obtain ⟨hl, hmin⟩ := h
  cases hc : cut w l with
  | none => exact absurd hl (cut_none_iff.mp hc a b)
  | some p =>
    have hp := cut_parts hc
    have hle := hmin p.1 p.2 hp
    have hge := cut_first hc hl
    obtain ⟨ha, hb⟩ := List.append_inj (hl.symm.trans hp) (Nat.le_antisymm hle hge)
    rw [ha, List.append_cancel_left hb]

/-- The first place at which the word occurs is behind the first part. -/
theorem cut_place (h : cut w l = some (a, b)) : w <+: l.drop a.length ∧ ∀ j < a.length, ¬ w <+: l.drop j := by
  constructor
  · rw [cut_parts h, List.drop_left]
    exact List.prefix_append w b
  · intro j hj hp
    obtain ⟨b', hb⟩ := hp
    have he : l = l.take j ++ (w ++ b') := by rw [hb, List.take_append_drop]
    have hlen := cut_first h he
    rw [List.length_take] at hlen
    omega

theorem cut_no_place (h : cut w l = none) (j : Nat) : ¬ w <+: l.drop j := by
  intro hp
  obtain ⟨b, hb⟩ := hp
  exact cut_none_iff.mp h (l.take j) b (by rw [hb, List.take_append_drop])

/-- The part in front is the same in a list that ends behind the word. -/
theorem cut_shorter (h : cut w (a ++ (w ++ (b ++ l))) = some (a, b ++ l)) : cut w (a ++ (w ++ b)) = some (a, b) := by
  refine cut_some_iff.mpr ⟨rfl, fun a' b' he => ?_⟩
  refine (cut_some_iff.mp h).2 a' (b' ++ l) ?_
  rw [← List.append_assoc w, ← List.append_assoc, he, List.append_assoc, List.append_assoc]

theorem cut_front (w b : List α) : cut w (w ++ b) = some ([], b) := by
  rw [cut_head (List.prefix_append w b), List.drop_left]

theorem cut_single (h : c ∉ a) : cut [c] (a ++ c :: b) = some (a, b) := by
  refine cut_some_iff.mpr ⟨rfl, fun a' b' he => ?_⟩
  by_contra hlt
  have hget : (a ++ c :: b)[a'.length]? = some c := by
    rw [he, List.getElem?_append_right (Nat.le_refl _), Nat.sub_self]
    rfl
  rw [List.getElem?_append_left (by omega)] at hget
  exact h (List.mem_of_getElem? hget)

end

end Lib
