import Mathlib.Data.Fintype.Card
import Mathlib.Logic.Function.Basic
import Mathlib.Tactic.Common

/-!
# Queues as lists

A list of cells for each queue, and the cells that have been taken out and are
in none since. A cell is at most once in one queue, and the operations keep it
so. What is done at the head is done at the tail of the queues read backwards.
-/

namespace Lib

structure Queues (Q C : Type) where
  cells : Q → List C
  gone : List C

section
variable {Q C : Type} {A : Queues Q C} {q r : Q} {c d : C}

def Queues.empty : Queues Q C := ⟨fun _ => [], []⟩

/-- Each cell is at most once in one queue, and those that are gone are in none. -/
structure Queues.Wf (A : Queues Q C) : Prop where
  nodup : ∀ q, (A.cells q).Nodup
  apart : ∀ q r c, c ∈ A.cells q → c ∈ A.cells r → q = r
  away : ∀ c ∈ A.gone, ∀ q, c ∉ A.cells q

def Queues.mirror (A : Queues Q C) : Queues Q C := ⟨fun q => (A.cells q).reverse, A.gone⟩

theorem wf_empty : (Queues.empty : Queues Q C).Wf where
  nodup _ := List.nodup_nil
  apart _ _ _ h := absurd h List.not_mem_nil
  away _ h := absurd h List.not_mem_nil

theorem Queues.Wf.mirror (w : A.Wf) : A.mirror.Wf where
  nodup q := List.nodup_reverse.mpr (w.nodup q)
  apart q r c hq hr := w.apart q r c (List.mem_reverse.mp hq) (List.mem_reverse.mp hr)
  away c hc q := mt List.mem_reverse.mp (w.away c hc q)

/-- A cell that is in no queue leaves room for itself. -/
theorem Queues.Wf.length_room [Fintype C] (w : A.Wf) (hc : ∀ r, c ∉ A.cells r) (q : Q) :
    (A.cells q).length + 1 ≤ Fintype.card C := by
  have hd : (c :: A.cells q).Nodup := List.nodup_cons.mpr ⟨hc q, w.nodup q⟩
  exact hd.length_le_card

theorem Queues.Wf.length_two [Fintype C] (w : A.Wf) (hqr : q ≠ r) :
    (A.cells q).length + (A.cells r).length ≤ Fintype.card C := by
  have hd : (A.cells q ++ A.cells r).Nodup :=
    List.nodup_append'.mpr ⟨w.nodup q, w.nodup r, fun c hq hr => hqr (w.apart q r c hq hr)⟩
  rw [← List.length_append]
  exact hd.length_le_card

/-! ## A queue into another one -/

variable [DecidableEq Q]

def Queues.appendQue (q r : Q) (A : Queues Q C) : Queues Q C :=
  { A with cells := Function.update (Function.update A.cells q (A.cells q ++ A.cells r)) r [] }

def Queues.prependQue (q r : Q) (A : Queues Q C) : Queues Q C :=
  { A with cells := Function.update (Function.update A.cells q (A.cells r ++ A.cells q)) r [] }

theorem prependQue_mirror (A : Queues Q C) (q r : Q) : (A.mirror.appendQue q r).mirror = A.prependQue q r := by
  refine congrArg₂ Queues.mk (funext fun p => ?_) rfl
  simp only [Queues.appendQue, Queues.mirror, Function.update_apply]
  by_cases hr : p = r
  · rw [if_pos hr, if_pos hr, List.reverse_nil]
  · rw [if_neg hr, if_neg hr]
    by_cases hq : p = q <;> simp [hq]

theorem mem_appendQue {p : Q} :
    d ∈ (A.appendQue q r).cells p ↔ p ≠ r ∧ (d ∈ A.cells p ∨ p = q ∧ d ∈ A.cells r) := by
  simp only [Queues.appendQue, Function.update_apply]
  by_cases hr : p = r
  · simp [hr]
  · by_cases hq : p = q <;> simp [hr, hq]

theorem wf_appendQue (w : A.Wf) (hqr : q ≠ r) : (A.appendQue q r).Wf where
  nodup p := by
    simp only [Queues.appendQue, Function.update_apply]
    by_cases hr : p = r
    · rw [if_pos hr]
      exact List.nodup_nil
    · rw [if_neg hr]
      by_cases hq : p = q
      · rw [if_pos hq]
        exact List.nodup_append'.mpr ⟨w.nodup q, w.nodup r, fun d hd hd' => hqr (w.apart q r d hd hd')⟩
      · rw [if_neg hq]
        exact w.nodup p
  apart p p' d hp hp' := by
    obtain ⟨hpr, h⟩ := mem_appendQue.mp hp
    obtain ⟨hpr', h'⟩ := mem_appendQue.mp hp'
    rcases h with h | ⟨rfl, h⟩
    · rcases h' with h' | ⟨rfl, h'⟩
      · exact w.apart p p' d h h'
      · exact absurd (w.apart p r d h h') hpr
    · rcases h' with h' | ⟨rfl, -⟩
      · exact absurd (w.apart p' r d h' h) hpr'
      · rfl
  away d hd p hp := by
    rcases (mem_appendQue.mp hp).2 with h | ⟨-, h⟩
    · exact w.away d hd p h
    · exact w.away d hd r h

theorem wf_prependQue (w : A.Wf) (hqr : q ≠ r) : (A.prependQue q r).Wf := by
  rw [← prependQue_mirror]
  exact (wf_appendQue w.mirror hqr).mirror

theorem appendQue_nil (hr : A.cells r = []) : A.appendQue q r = A := by
  have hq : Function.update A.cells q (A.cells q ++ A.cells r) = A.cells := by
    rw [hr, List.append_nil, Function.update_eq_self]
  refine congrArg₂ Queues.mk ?_ rfl
  rw [hq, ← hr, Function.update_eq_self]

theorem prependQue_nil (hr : A.cells r = []) : A.prependQue q r = A := by
  have hm : A.mirror.cells r = [] := List.reverse_eq_nil_iff.mpr hr
  rw [← prependQue_mirror, appendQue_nil hm]
  exact congrArg₂ Queues.mk (funext fun _ => List.reverse_reverse _) rfl

/-! ## Cells in and out -/

variable [DecidableEq C]

def Queues.pushTail (q : Q) (c : C) (A : Queues Q C) : Queues Q C :=
  { cells := Function.update A.cells q (A.cells q ++ [c]), gone := A.gone.filter (· ≠ c) }

def Queues.pushHead (q : Q) (c : C) (A : Queues Q C) : Queues Q C :=
  { cells := Function.update A.cells q (c :: A.cells q), gone := A.gone.filter (· ≠ c) }

def Queues.leave (q : Q) (c : C) (A : Queues Q C) : Queues Q C :=
  { cells := Function.update A.cells q ((A.cells q).erase c), gone := c :: A.gone }

def Queues.dequeue (q : Q) (A : Queues Q C) : Queues Q C := (A.cells q).head?.elim A fun c => A.leave q c

theorem pushHead_mirror (A : Queues Q C) (q : Q) (c : C) : (A.mirror.pushTail q c).mirror = A.pushHead q c := by
  refine congrArg₂ Queues.mk (funext fun r => ?_) rfl
  by_cases hr : r = q
  · subst hr
    simp [Queues.pushTail, Queues.mirror]
  · simp [Queues.pushTail, Queues.mirror, Function.update_of_ne hr]

theorem mem_pushTail : d ∈ (A.pushTail q c).cells r ↔ d ∈ A.cells r ∨ r = q ∧ d = c := by
  simp only [Queues.pushTail, Function.update_apply]
  by_cases hr : r = q <;> simp [hr]

theorem wf_pushTail (w : A.Wf) (hc : ∀ r, c ∉ A.cells r) : (A.pushTail q c).Wf where
  nodup r := by
    simp only [Queues.pushTail, Function.update_apply]
    by_cases hr : r = q
    · rw [if_pos hr]
      exact List.nodup_append'.mpr ⟨w.nodup q, List.nodup_singleton c, by simpa using hc q⟩
    · rw [if_neg hr]
      exact w.nodup r
  apart r r' d hr hr' := by
    rcases mem_pushTail.mp hr with h | ⟨rfl, rfl⟩
    · rcases mem_pushTail.mp hr' with h' | ⟨rfl, rfl⟩
      · exact w.apart r r' d h h'
      · exact absurd h (hc r)
    · rcases mem_pushTail.mp hr' with h' | ⟨rfl, -⟩
      · exact absurd h' (hc r')
      · rfl
  away d hd r hr := by
    obtain ⟨hg, hne⟩ := List.mem_filter.mp hd
    rcases mem_pushTail.mp hr with h | ⟨-, rfl⟩
    · exact w.away d hg r h
    · simp at hne

theorem wf_pushHead (w : A.Wf) (hc : ∀ r, c ∉ A.cells r) : (A.pushHead q c).Wf := by
  rw [← pushHead_mirror]
  exact (wf_pushTail w.mirror fun r => mt List.mem_reverse.mp (hc r)).mirror

theorem mem_leave (w : A.Wf) : d ∈ (A.leave q c).cells r ↔ d ∈ A.cells r ∧ (r = q → d ≠ c) := by
  simp only [Queues.leave, Function.update_apply]
  by_cases hr : r = q
  · subst hr
    simp only [if_true, (w.nodup r).mem_erase_iff, true_imp_iff, and_comm]
  · simp only [hr, if_false, false_imp_iff, and_true]

theorem wf_leave (w : A.Wf) (hc : c ∈ A.cells q) : (A.leave q c).Wf where
  nodup r := by
    simp only [Queues.leave, Function.update_apply]
    by_cases hr : r = q
    · rw [if_pos hr]
      exact (w.nodup q).erase c
    · rw [if_neg hr]
      exact w.nodup r
  apart r r' d hr hr' := w.apart r r' d ((mem_leave w).mp hr).1 ((mem_leave w).mp hr').1
  away d hd r hr := by
    obtain ⟨hm, hne⟩ := (mem_leave w).mp hr
    rcases List.mem_cons.mp hd with rfl | hg
    · exact hne (w.apart r q d hm hc) rfl
    · exact w.away d hg r hm

theorem wf_dequeue (w : A.Wf) : (A.dequeue q).Wf := by
  unfold Queues.dequeue
  cases hc : (A.cells q).head? with
  | none => exact w
  | some c => exact wf_leave w (List.mem_of_head? hc)

end

end Lib
