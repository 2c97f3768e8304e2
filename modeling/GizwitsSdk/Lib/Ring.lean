import Mathlib.Data.List.Chain
import Mathlib.Data.List.Nodup
import Mathlib.Tactic.Common

/-!
# Searching a circular list

`scan` is a do-while search that follows a successor function from a node and
gives up when it is back at that node. On a ring it visits every node once, so
it finds a node of sufficient value if there is one, from any start.
-/

namespace Lib

section
variable {α : Type} [DecidableEq α] (next : α → α) (val : α → Nat) (need : Nat) (stop : α)

/-- `do { if val p < need then p := next p } while (val < need && p ≠ stop)`,
with the node and the value last computed. `none` is out of fuel. -/
def scan : Nat → α → Option (α × Nat)
  | 0, _ => none
  | fuel + 1, p =>
    if val p < need then
      if next p ≠ stop then scan fuel (next p) else some (next p, val p)
    else some (p, val p)

/-- The successor function runs round the list and returns to its head. -/
def Ring : List α → Prop
  | [] => False
  | x :: xs => (x :: xs ++ [x]).IsChain fun a b => next a = b

omit [DecidableEq α] in
theorem ring_from {l r : List α} {s : α} (h : Ring next (l ++ s :: r)) :
    (s :: (r ++ l) ++ [s]).IsChain fun a b => next a = b := by
  cases l with
  | nil => simpa [Ring] using h
  | cons x l =>
    have h' : (x :: l ++ s :: (r ++ [x])).IsChain fun a b => next a = b := by
      simpa [Ring] using h
    obtain ⟨h1, h2⟩ := List.isChain_split.mp h'
    have h3 : (s :: r ++ x :: (l ++ [s])).IsChain fun a b => next a = b :=
      List.isChain_split.mpr ⟨by simpa using h2, by simpa using h1⟩
    simpa using h3

omit [DecidableEq α] in
theorem ring_closed {hs : List α} {y : α} (h : Ring next hs) (hy : y ∈ hs) : next y ∈ hs := by
  obtain ⟨l, r, rfl⟩ := List.append_of_mem hy
  have hc := ring_from next h
  cases hq : r ++ l with
  | nil =>
    rw [hq] at hc
    simp only [List.cons_append, List.nil_append, List.isChain_cons_cons] at hc
    rw [hc.1]; exact hy
  | cons z q =>
    rw [hq] at hc
    simp only [List.cons_append, List.isChain_cons_cons] at hc
    have hz : z ∈ r ++ l := by rw [hq]; exact List.mem_cons_self
    rw [hc.1]
    simp only [List.mem_append, List.mem_cons] at hz ⊢
    tauto

omit [DecidableEq α] in
theorem chain_iterate {l : List α} {x y : α} (h : (x :: l).IsChain fun a b => next a = b)
    (hy : y ∈ x :: l) : ∃ k, next^[k] x = y := by
  induction l generalizing x with
  | nil => exact ⟨0, (List.mem_singleton.mp hy).symm⟩
  | cons z l ih =>
    rcases List.mem_cons.mp hy with rfl | hy
    · exact ⟨0, rfl⟩
    · rw [List.isChain_cons_cons] at h
      obtain ⟨k, hk⟩ := ih h.2 hy
      exact ⟨k + 1, by rw [Function.iterate_succ_apply, h.1, hk]⟩

omit [DecidableEq α] in
theorem ring_mem {xs : List α} {x y : α} (h : Ring next (x :: xs)) :
    y ∈ x :: xs ↔ ∃ k, next^[k] x = y := by
  constructor
  · intro hy
    exact chain_iterate next (l := xs ++ [x]) h (by simp only [List.mem_cons, List.mem_append] at hy ⊢; tauto)
  · rintro ⟨k, rfl⟩
    induction k with
    | zero => exact List.mem_cons_self
    | succ k ih => rw [Function.iterate_succ_apply']; exact ring_closed next h ih

theorem scan_found {qs : List α} {p : α} (hc : (p :: qs ++ [stop]).IsChain fun a b => next a = b)
    (hs : stop ∉ qs) (hf : ∃ x ∈ p :: qs, need ≤ val x) :
    ∃ x ∈ p :: qs, need ≤ val x ∧
      ∀ fuel, qs.length < fuel → scan next val need stop fuel p = some (x, val x) := by
  induction qs generalizing p with
  | nil =>
    obtain ⟨x, hx, hv⟩ := hf
    have hx : x = p := by simpa using hx
    subst hx
    refine ⟨x, List.mem_cons_self, hv, fun fuel hl => ?_⟩
    obtain ⟨f, rfl⟩ : ∃ f, fuel = f + 1 := ⟨fuel - 1, by simp at hl; omega⟩
    simp [scan, Nat.not_lt.mpr hv]
  | cons q qs ih =>
    by_cases hv : need ≤ val p
    · refine ⟨p, List.mem_cons_self, hv, fun fuel hl => ?_⟩
      obtain ⟨f, rfl⟩ : ∃ f, fuel = f + 1 := ⟨fuel - 1, by simp at hl; omega⟩
      simp [scan, Nat.not_lt.mpr hv]
    · simp only [List.cons_append, List.isChain_cons_cons] at hc
      have hq : q ≠ stop := fun e => hs (e ▸ List.mem_cons_self)
      have hf' : ∃ x ∈ q :: qs, need ≤ val x := by
        obtain ⟨x, hx, h⟩ := hf
        rcases List.mem_cons.mp hx with rfl | hx
        · exact absurd h hv
        · exact ⟨x, hx, h⟩
      obtain ⟨x, hx, hvx, hr⟩ := ih hc.2 (fun h => hs (List.mem_cons_of_mem _ h)) hf'
      refine ⟨x, List.mem_cons_of_mem _ hx, hvx, fun fuel hl => ?_⟩
      obtain ⟨f, rfl⟩ : ∃ f, fuel = f + 1 := ⟨fuel - 1, by simp at hl; omega⟩
      simp only [scan, Nat.lt_of_not_le hv, hc.1, hq, ne_eq, not_false_eq_true, if_true]
      exact hr f (by simp at hl; omega)

theorem scan_none {qs : List α} {p : α} (hc : (p :: qs ++ [stop]).IsChain fun a b => next a = b)
    (hs : stop ∉ qs) (hf : ∀ x ∈ p :: qs, val x < need) :
    ∃ v, v < need ∧
      ∀ fuel, qs.length < fuel → scan next val need stop fuel p = some (stop, v) := by
  induction qs generalizing p with
  | nil =>
    have hp := hf p List.mem_cons_self
    refine ⟨val p, hp, fun fuel hl => ?_⟩
    obtain ⟨f, rfl⟩ : ∃ f, fuel = f + 1 := ⟨fuel - 1, by simp at hl; omega⟩
    simp only [List.cons_append, List.nil_append, List.isChain_cons_cons] at hc
    simp [scan, hp, hc.1]
  | cons q qs ih =>
    have hp := hf p List.mem_cons_self
    simp only [List.cons_append, List.isChain_cons_cons] at hc
    have hq : q ≠ stop := fun e => hs (e ▸ List.mem_cons_self)
    obtain ⟨v, hv, hr⟩ := ih hc.2 (fun h => hs (List.mem_cons_of_mem _ h))
      (fun x hx => hf x (List.mem_cons_of_mem _ hx))
    refine ⟨v, hv, fun fuel hl => ?_⟩
    obtain ⟨f, rfl⟩ : ∃ f, fuel = f + 1 := ⟨fuel - 1, by simp at hl; omega⟩
    simp only [scan, hp, hc.1, hq, ne_eq, not_false_eq_true, if_true]
    exact hr f (by simp at hl; omega)

variable {next val need}

/-- From any node of a ring the search ends within one round, at a node of
sufficient value when the ring has one. -/
theorem ring_scan_found {hs : List α} (hr : Ring next hs) (hn : hs.Nodup) {s : α} (h : s ∈ hs)
    (hf : ∃ x ∈ hs, need ≤ val x) :
    ∃ x ∈ hs, need ≤ val x ∧
      ∀ fuel, hs.length ≤ fuel → scan next val need s fuel s = some (x, val x) := by
  obtain ⟨l, r, rfl⟩ := List.append_of_mem h
  have hmem : ∀ x, x ∈ s :: (r ++ l) ↔ x ∈ l ++ s :: r := by intro x; simp; tauto
  have hns : s ∉ r ++ l := by
    have := List.nodup_middle.mp hn
    simp only [List.nodup_cons, List.mem_append] at this ⊢; tauto
  obtain ⟨x, hx, hv, hr⟩ := scan_found next val need s (ring_from next hr) hns
    (by obtain ⟨x, hx, hv⟩ := hf; exact ⟨x, (hmem x).mpr hx, hv⟩)
  exact ⟨x, (hmem x).mp hx, hv, fun fuel hl => hr fuel (by simp at hl ⊢; omega)⟩

/-- Otherwise it ends where it began, with an insufficient value. -/
theorem ring_scan_none {hs : List α} (hr : Ring next hs) (hn : hs.Nodup) {s : α} (h : s ∈ hs)
    (hf : ∀ x ∈ hs, val x < need) :
    ∃ v, v < need ∧ ∀ fuel, hs.length ≤ fuel → scan next val need s fuel s = some (s, v) := by
  obtain ⟨l, r, rfl⟩ := List.append_of_mem h
  have hmem : ∀ x, x ∈ s :: (r ++ l) ↔ x ∈ l ++ s :: r := by intro x; simp; tauto
  have hns : s ∉ r ++ l := by
    have := List.nodup_middle.mp hn
    simp only [List.nodup_cons, List.mem_append] at this ⊢; tauto
  obtain ⟨v, hv, hr⟩ := scan_none next val need s (ring_from next hr) hns
    (fun x hx => hf x ((hmem x).mp hx))
  exact ⟨v, hv, fun fuel hl => hr fuel (by simp at hl ⊢; omega)⟩

end

theorem scan_mono {α : Type} [DecidableEq α] {next : α → α} {val : α → Nat} {need : Nat} {stop : α}
    {f g : Nat} (h : f ≤ g) {p : α} {r : α × Nat} (hr : scan next val need stop f p = some r) :
    scan next val need stop g p = some r := by
  induction f generalizing g p with
  | zero => cases hr
  | succ f ih =>
    obtain ⟨g, rfl⟩ : ∃ g', g = g' + 1 := ⟨g - 1, by omega⟩
    rw [scan] at hr ⊢
    split
    · rename_i h1
      rw [if_pos h1] at hr
      split
      · rename_i h2; rw [if_pos h2] at hr; exact ih (by omega) hr
      · rename_i h2; rw [if_neg h2] at hr; exact hr
    · rename_i h1; rw [if_neg h1] at hr; exact hr

end Lib
