import Mathlib.Data.List.Basic
import Mathlib.Data.List.Range
import Mathlib.Logic.Function.Basic
import Mathlib.Tactic.Common

/-!
# Ring buffers

Entries stand from an out index on, round the end of a store of fixed size, up
to an in index. The list of the entries, oldest first, is what a ring is for.
-/

namespace Lib

/-- Round the end of a store, once at most. -/
def slot (size out i : Nat) : Nat := if out + i < size then out + i else out + i - size

def wrap (size i : Nat) : Nat := if i = size then 0 else i

section
variable {size out i j : Nat}

theorem slot_zero (h : out < size) : slot size out 0 = out := if_pos h

theorem wrap_slot (ho : out < size) (hi : i < size) : wrap size (slot size out i + 1) = slot size out (i + 1) := by
  simp only [wrap, slot]
  split_ifs <;> omega

theorem slot_wrap (hi : i < size) : slot size (wrap size (out + 1)) i = slot size out (i + 1) := by
  simp only [wrap, slot]
  split_ifs <;> omega

theorem wrap_lt (ho : out < size) : wrap size (out + 1) < size := by
  simp only [wrap]
  split_ifs <;> omega

theorem slot_inj (hi : i < size) (hj : j < size) (he : slot size out i = slot size out j) : i = j := by
  simp only [slot] at he
  split_ifs at he <;> omega

end

structure RingBuffer (α : Type) where
  size : Nat
  buf : Nat → α
  inn : Nat
  out : Nat
  entries : Nat

namespace RingBuffer

variable {α : Type}

/-- Where the entry stands that is `i` after the oldest. -/
def place (r : RingBuffer α) (i : Nat) : Nat := slot r.size r.out i

def contents (r : RingBuffer α) : List α := (List.range r.entries).map fun i => r.buf (r.place i)

def push (r : RingBuffer α) (a : α) : RingBuffer α :=
  { r with buf := Function.update r.buf r.inn a, inn := wrap r.size (r.inn + 1), entries := r.entries + 1 }

/-- The place before the oldest entry. -/
def before (r : RingBuffer α) : Nat := (if r.out = 0 then r.size else r.out) - 1

def pushFront (r : RingBuffer α) (a : α) : RingBuffer α :=
  { r with buf := Function.update r.buf r.before a, out := r.before, entries := r.entries + 1 }

def head (r : RingBuffer α) : α := r.buf r.out

def pop (r : RingBuffer α) : RingBuffer α := { r with out := wrap r.size (r.out + 1), entries := r.entries - 1 }

def flush (r : RingBuffer α) : RingBuffer α := { r with inn := 0, out := 0, entries := 0 }

/-- A ring of no size is only ever empty. -/
structure Wf (r : RingBuffer α) : Prop where
  entries_le : r.entries ≤ r.size
  out_lt : 0 < r.size → r.out < r.size
  in_eq : 0 < r.size → r.inn = r.place r.entries

variable {r : RingBuffer α} {a : α}

theorem length_contents : r.contents.length = r.entries := by simp [contents]

theorem contents_eq_nil : r.contents = [] ↔ r.entries = 0 := by
  rw [← List.length_eq_zero_iff, length_contents]

theorem Wf.push (h : Wf r) (hn : r.entries < r.size) (a : α) : Wf (r.push a) := by
  have hout := h.out_lt (by omega)
  have hin := h.in_eq (by omega)
  refine ⟨hn, fun _ => hout, fun _ => ?_⟩
  calc (r.push a).inn = wrap r.size (r.place r.entries + 1) := by rw [← hin]; rfl
    _ = slot r.size r.out (r.entries + 1) := wrap_slot hout hn

theorem contents_push (h : Wf r) (hn : r.entries < r.size) : (r.push a).contents = r.contents ++ [a] := by
  have hout := h.out_lt (by omega)
  have hin := h.in_eq (by omega)
  have hold : ∀ i < r.entries, (r.push a).buf (r.place i) = r.buf (r.place i) := by
    intro i hi
    apply Function.update_of_ne
    intro he
    exact Nat.ne_of_lt hi (slot_inj (hi.trans hn) hn (he.trans hin))
  have hnew : (r.push a).buf (r.place r.entries) = a := by
    rw [← hin]
    exact Function.update_self ..
  have hr : (r.push a).contents = (List.range (r.entries + 1)).map fun i => (r.push a).buf (r.place i) := rfl
  rw [hr, List.range_succ, List.map_append, List.map_singleton, hnew]
  congr 1
  exact List.map_congr_left fun i hi => hold i (List.mem_range.mp hi)

theorem Wf.pop (h : Wf r) (hn : 0 < r.entries) : Wf r.pop := by
  have hle := h.entries_le
  have hout := h.out_lt (by omega)
  have hin := h.in_eq (by omega)
  refine ⟨(Nat.sub_le ..).trans hle, fun _ => wrap_lt hout, fun _ => ?_⟩
  calc r.pop.inn = slot r.size r.out (r.entries - 1 + 1) := by rw [Nat.sub_add_cancel hn]; exact hin
    _ = slot r.size (wrap r.size (r.out + 1)) (r.entries - 1) := (slot_wrap (by omega)).symm

theorem contents_pop (h : Wf r) (hn : 0 < r.entries) : r.contents = r.head :: r.pop.contents := by
  have hle := h.entries_le
  have hout := h.out_lt (by omega)
  obtain ⟨n, hn⟩ := Nat.exists_eq_add_of_lt hn
  have hplace (i : Nat) (hi : i < n) : r.place (i + 1) = r.pop.place i := (slot_wrap (by omega)).symm
  have h0 : r.place 0 = r.out := slot_zero hout
  have he : r.pop.entries = n := by simp only [RingBuffer.pop]; omega
  have hb : r.pop.buf = r.buf := rfl
  rw [contents, contents, he, hn, Nat.zero_add, List.range_succ_eq_map, List.map_cons, List.map_map, h0, hb]
  congr 1
  exact List.map_congr_left fun i hi => congrArg r.buf (hplace i (List.mem_range.mp hi))

theorem before_lt (h : r.out < r.size) : r.before < r.size := by
  simp only [before]
  split_ifs <;> omega

theorem wrap_before (h : r.out < r.size) : wrap r.size (r.before + 1) = r.out := by
  simp only [before, wrap]
  split_ifs <;> omega

/-- The entries keep their places when one goes before them. -/
theorem slot_before (h : r.out < r.size) {i : Nat} (hi : i < r.size) :
    slot r.size r.before (i + 1) = r.place i := by
  rw [← slot_wrap hi, wrap_before h, place]

theorem Wf.pushFront (h : Wf r) (hn : r.entries < r.size) (a : α) : Wf (r.pushFront a) := by
  have hout := h.out_lt (by omega)
  refine ⟨hn, fun _ => before_lt hout, fun _ => ?_⟩
  exact (h.in_eq (by omega)).trans (slot_before hout hn).symm

theorem contents_pushFront (h : Wf r) (hn : r.entries < r.size) : (r.pushFront a).contents = a :: r.contents := by
  have hout := h.out_lt (by omega)
  have hhead : (r.pushFront a).head = a := Function.update_self ..
  have hbuf : ∀ i < r.entries, (r.pushFront a).buf (r.place i) = r.buf (r.place i) := by
    intro i hi
    apply Function.update_of_ne
    intro he
    have h0 : slot r.size r.before 0 = r.before := slot_zero (before_lt hout)
    have hs : slot r.size r.before (i + 1) = slot r.size r.before 0 :=
      (slot_before hout (hi.trans hn)).trans (he.trans h0.symm)
    exact Nat.succ_ne_zero i (slot_inj (by omega) (by omega) hs)
  have hold : (r.pushFront a).pop.contents = r.contents := by
    refine List.map_congr_left fun i hi => ?_
    have hi := List.mem_range.mp hi
    have hp : (r.pushFront a).pop.place i = r.place i := by
      have hw : wrap r.size (r.before + 1) = r.out := wrap_before hout
      exact congrArg (slot r.size · i) hw
    rw [hp]
    exact hbuf i hi
  rw [contents_pop (h.pushFront hn a) (Nat.succ_pos _), hhead, hold]

theorem wf_flush : Wf r.flush := ⟨Nat.zero_le _, fun h => h, fun h => (slot_zero h).symm⟩

theorem contents_flush : r.flush.contents = [] := contents_eq_nil.mpr rfl

end RingBuffer

end Lib
