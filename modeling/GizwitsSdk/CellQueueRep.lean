import GizwitsSdk.CellQueue
import GizwitsSdk.Lib.Links
import GizwitsSdk.Lib.Queues

/-!
# Cell queues in memory

The ring of a queue, its head and its cells, is a loop. An operation links a
chain in behind the last node, or leaves a cell out, and touches no other ring;
what it does at the head it does at the tail of the memory read backwards.
-/

namespace GizwitsSdk

open Lib

section
variable {Q C : Type} {s s' : Cells Q C} {A A' : Queues Q C} {q r : Q} {c : C} {x : Node Q C}

def ring (A : Queues Q C) (q : Q) : List (Node Q C) := .head q :: (A.cells q).map .cell

structure Rep (s : Cells Q C) (A : Queues Q C) : Prop where
  loop : ∀ q, Loop s.pnext s.pprev (ring A q)
  count : ∀ q, (s.count q).toNat = (A.cells q).length
  gone : ∀ c ∈ A.gone, s.pnext (.cell c) = none ∧ s.pprev (.cell c) = none

/-! ## Rings -/

theorem cell_mem_ring : .cell c ∈ ring A q ↔ c ∈ A.cells q := by simp [ring]

theorem head_mem_ring : .head r ∈ ring A q ↔ r = q := by simp [ring]

theorem ring_apart (w : A.Wf) (hq : x ∈ ring A q) (hr : x ∈ ring A r) : q = r := by
  cases x with
  | head q' => rw [← head_mem_ring.mp hq, ← head_mem_ring.mp hr]
  | cell c => exact w.apart q r c (cell_mem_ring.mp hq) (cell_mem_ring.mp hr)

theorem ring_nodup (w : A.Wf) (q : Q) : (ring A q).Nodup :=
  List.nodup_cons.mpr ⟨by simp, (w.nodup q).map fun _ _ hab => Node.cell.inj hab⟩

theorem ring_congr (h : A'.cells q = A.cells q) : ring A' q = ring A q := by rw [ring, ring, h]

theorem Rep.mirror (h : Rep s A) : Rep s.mirror A.mirror where
  loop q := by
    have hr := (h.loop q).reverse
    rw [ring, List.reverse_cons, ← List.map_reverse] at hr
    exact hr.rotate
  count q := (h.count q).trans List.length_reverse.symm
  gone c hc := (h.gone c hc).symm

/-- Where no node of `t` is touched, a queue and a cell that is gone are what they were. -/
theorem Rep.update (h : Rep s A) {t : List (Node Q C)}
    (hkeep : ∀ x, x ∉ t → s'.pnext x = s.pnext x ∧ s'.pprev x = s.pprev x)
    (hq : ∀ r, (A'.cells r = A.cells r ∧ s'.count r = s.count r ∧ ∀ x ∈ ring A r, x ∉ t) ∨
      (Loop s'.pnext s'.pprev (ring A' r) ∧ (s'.count r).toNat = (A'.cells r).length))
    (hg : ∀ c ∈ A'.gone, (c ∈ A.gone ∧ .cell c ∉ t) ∨ (s'.pnext (.cell c) = none ∧ s'.pprev (.cell c) = none)) :
    Rep s' A' where
  loop r := by
    rcases hq r with ⟨hcells, -, ht⟩ | hloop
    · rw [ring_congr hcells]
      exact (h.loop r).frame fun x hx => hkeep x (ht x hx)
    · exact hloop.1
  count r := by
    rcases hq r with ⟨hcells, hcount, -⟩ | hloop
    · rw [hcount, hcells]
      exact h.count r
    · exact hloop.2
  gone c hc := by
    rcases hg c hc with ⟨hgone, ht⟩ | hnull
    · rw [(hkeep _ ht).1, (hkeep _ ht).2]
      exact h.gone c hgone
    · exact hnull

variable [DecidableEq Q] [DecidableEq C]

/-! ## A cell is put in -/

theorem enqueueTail_rep (h : Rep s A) (w : A.Wf) (hc : ∀ r, c ∉ A.cells r) (hlen : (A.cells q).length + 1 < 65536) :
    ∃ s', utilEnqueueListTail q (.cell c) s = some s' ∧ Rep s' (A.pushTail q c) := by
  have w' := wf_pushTail (q := q) w hc
  have hring : ring (A.pushTail q c) q = ring A q ++ [.cell c] := by simp [ring, Queues.pushTail]
  obtain ⟨z, hz⟩ : ∃ z, (ring A q).getLast? = some z := ⟨_, List.getLast?_eq_some_getLast (List.cons_ne_nil _ _)⟩
  obtain ⟨s', hrun, hn, hp, hcount⟩ := utilEnqueueListTail_spec (a := .cell c) ((h.loop q).prev_first.trans hz)
  refine ⟨s', hrun, h.update (t := ring (A.pushTail q c) q) (fun x hx => ?_) (fun r => ?_) fun d hd => .inl ?_⟩
  · rw [hring, List.mem_append, List.mem_singleton, not_or] at hx
    have hxz : x ≠ z := fun e => hx.1 (e ▸ List.mem_of_getLast? hz)
    have hxq : x ≠ .head q := fun e => hx.1 (e ▸ List.mem_cons_self)
    rw [hn, hp, if_neg hxz, if_neg hx.2, if_neg hxq, if_neg hx.2]
    exact ⟨rfl, rfl⟩
  · by_cases hr : r = q
    · subst hr
      refine .inr ⟨?_, ?_⟩
      · have hd := ring_nodup w' r
        rw [hring] at hd ⊢
        exact (h.loop r).put hd hz hn hp
      · rw [hcount, if_pos rfl, UInt16.toNat_add, h.count r]
        simp only [Queues.pushTail, Function.update_self, List.length_append, List.length_singleton]
        exact Nat.mod_eq_of_lt hlen
    · have hcells : (A.pushTail q c).cells r = A.cells r := Function.update_of_ne hr _ _
      refine .inl ⟨hcells, by rw [hcount, if_neg hr], fun x hx hxq => hr ?_⟩
      exact ring_apart w' (ring_congr hcells ▸ hx) hxq
  · exact ⟨List.mem_of_mem_filter hd, fun hm => w'.away d hd q (cell_mem_ring.mp hm)⟩

theorem enqueueHead_rep (h : Rep s A) (w : A.Wf) (hc : ∀ r, c ∉ A.cells r) (hlen : (A.cells q).length + 1 < 65536) :
    ∃ s', utilEnqueueListHead q (.cell c) s = some s' ∧ Rep s' (A.pushHead q c) := by
  have hlen' : (A.mirror.cells q).length + 1 < 65536 := by rwa [Queues.mirror, List.length_reverse]
  obtain ⟨s', hrun, hrep⟩ := enqueueTail_rep h.mirror w.mirror (fun r => mt List.mem_reverse.mp (hc r)) hlen'
  rw [enqueueHead_mirror, hrun, ← pushHead_mirror]
  exact ⟨s'.mirror, rfl, hrep.mirror⟩

/-! ## A cell is taken out -/

/-- The ring from a cell on, and what is left of it without the cell. -/
theorem ring_from_cell (w : A.Wf) (hc : c ∈ A.cells q) :
    ∃ l m, ring A q = l ++ .cell c :: m ∧ l ≠ [] ∧ (.cell c :: (m ++ l)).Nodup ∧
      ring (A.leave q c) q = l ++ m ∧ (A.cells q).length = (l ++ m).length := by
  obtain ⟨l, m, hlm, hcl⟩ := List.eq_append_cons_of_mem hc
  have hsplit : ring A q = (.head q :: l.map .cell) ++ .cell c :: m.map .cell := by simp [ring, hlm]
  refine ⟨_, _, hsplit, List.cons_ne_nil _ _, ?_, ?_, ?_⟩
  · have hd := ring_nodup w q
    rwa [hsplit, List.nodup_append_comm] at hd
  · simp [ring, Queues.leave, hlm, List.erase_append_right _ hcl]
  · simp only [hlm, List.length_append, List.length_cons, List.length_map]
    omega

theorem unlink_rep (h : Rep s A) (w : A.Wf) (hc : c ∈ A.cells q) :
    ∃ s', utilUnlinkList q (.cell c) s = some s' ∧ Rep s' (A.leave q c) := by
  obtain ⟨l, m, hsplit, hl, hd, hleave, hlen⟩ := ring_from_cell w hc
  have hne : m ++ l ≠ [] := List.append_ne_nil_of_right_ne_nil m hl
  have hloop : Loop s.pnext s.pprev (.cell c :: (m ++ l)) := by
    have hr := h.loop q
    rw [hsplit] at hr
    exact hr.rotate
  have hmem {x : Node Q C} (hx : x ∈ m ++ l) : x ∈ ring A q := by
    rw [hsplit, List.mem_append, List.mem_cons]
    exact (List.mem_append.mp hx).elim (fun hm => .inr (.inr hm)) .inl
  obtain ⟨y, hy⟩ : ∃ y, (m ++ l).head? = some y := ⟨_, List.head?_eq_some_head hne⟩
  obtain ⟨z, hz⟩ : ∃ z, (m ++ l).getLast? = some z := ⟨_, List.getLast?_eq_some_getLast hne⟩
  obtain ⟨s', hrun, hn, hp, hcount⟩ := utilUnlinkList_spec (q := q) ((hloop.next_last hne).trans hy)
    ((hloop.prev_last hne).trans hz)
  refine ⟨s', hrun, h.update (t := ring A q) (fun x hx => ?_) (fun r => ?_) fun d hd => ?_⟩
  · have hxc : x ≠ .cell c := fun e => hx (e ▸ cell_mem_ring.mpr hc)
    have hxy : x ≠ y := fun e => hx (e ▸ hmem (List.mem_of_head? hy))
    have hxz : x ≠ z := fun e => hx (e ▸ hmem (List.mem_of_getLast? hz))
    rw [hn, hp, if_neg hxc, if_neg hxz, if_neg hxc, if_neg hxy]
    exact ⟨rfl, rfl⟩
  · by_cases hr : r = q
    · subst hr
      have hleft := (hloop.take hd hy hz hn hp).rotate
      rw [← hleave] at hleft
      have hcells : (A.leave r c).cells r = (A.cells r).erase c := Function.update_self _ _ _
      have hpos := List.length_pos_of_mem hc
      have hle : (1 : UInt16) ≤ s.count r := UInt16.le_iff_toNat_le.mpr (h.count r ▸ hpos)
      refine .inr ⟨hleft, ?_⟩
      rw [hcount, if_pos rfl, UInt16.toNat_sub_of_le _ _ hle, h.count r, hcells, List.length_erase_of_mem hc]
      rfl
    · have hother : (A.leave q c).cells r = A.cells r := Function.update_of_ne hr _ _
      exact .inl ⟨hother, by rw [hcount, if_neg hr], fun x hx hxq => hr (ring_apart w hx hxq)⟩
  · by_cases hdc : d = c
    · subst hdc
      rw [hn, hp, if_pos rfl]
      exact .inr ⟨rfl, if_pos rfl⟩
    · have hg := (List.mem_cons.mp hd).resolve_left hdc
      exact .inl ⟨hg, fun hm => w.away d hg q (cell_mem_ring.mp hm)⟩

theorem removeCell_rep (h : Rep s A) (w : A.Wf) (hc : c ∈ A.cells q) :
    ∃ s', nstRemoveCell q (some (.cell c)) s = some s' ∧ Rep s' (A.leave q c) := by
  obtain ⟨s', hrun, hrep⟩ := unlink_rep h w hc
  refine ⟨s', ?_, hrep⟩
  unfold utilUnlinkList at hrun
  obtain ⟨y, hy, hrun'⟩ := Option.bind_eq_some_iff.mp hrun
  obtain ⟨z, hz, -⟩ := Option.map_eq_some_iff.mp hrun'
  rw [nstRemoveCell, Option.elim_some, hy, hz, if_pos (by simp), utilUnlinkList, hrun]

theorem peek_rep (h : Rep s A) : utilPeekList q s = (A.cells q).head?.map .cell := by
  have hnext : s.pnext (.head q) = ((A.cells q).map Node.cell ++ [Node.head q]).head? := (h.loop q).next_first
  rw [utilPeekList, hnext]
  cases A.cells q with
  | nil => simp
  | cons c l => simp

/-- The first cell is what is returned, or `NULL` of an empty queue. -/
theorem dequeue_rep (h : Rep s A) (w : A.Wf) :
    ∃ s', utilDequeueList q s = some ((A.cells q).head?.map .cell, s') ∧ Rep s' (A.dequeue q) := by
  have hnext : s.pnext (.head q) = ((A.cells q).map Node.cell ++ [Node.head q]).head? := (h.loop q).next_first
  unfold utilDequeueList Queues.dequeue
  rw [hnext]
  cases hc : A.cells q with
  | nil =>
    refine ⟨s, ?_, h⟩
    simp
  | cons c l =>
    obtain ⟨s', hrun, hrep⟩ := unlink_rep (q := q) h w (hc ▸ List.mem_cons_self)
    refine ⟨s', ?_, hrep⟩
    simp [hrun]

/-! ## A queue is put into another one -/

theorem appendQue_rep (h : Rep s A) (w : A.Wf) (hqr : q ≠ r) (hne : A.cells r ≠ [])
    (hlen : (A.cells q).length + (A.cells r).length < 65536) :
    ∃ s', nstInsertCellQue q r nstTrue s = some s' ∧ Rep s' (A.appendQue q r) := by
  have hq : (A.appendQue q r).cells q = A.cells q ++ A.cells r := by
    simp only [Queues.appendQue, Function.update_of_ne hqr, Function.update_self]
  have hr : (A.appendQue q r).cells r = [] := Function.update_self _ _ _
  obtain ⟨m, hm⟩ : ∃ m, m = ((A.cells r).map .cell : List (Node Q C)) := ⟨_, rfl⟩
  have hm0 : m ≠ [] := fun e => hne (List.map_eq_nil_iff.mp (hm.symm.trans e))
  have hringr : ring A r = .head r :: m := by rw [ring, hm]
  have hringq : ring (A.appendQue q r) q = ring A q ++ m := by rw [ring, hq, List.map_append, ← hm]; rfl
  have hdis : (ring A q ++ ring A r).Nodup :=
    List.nodup_append'.mpr ⟨ring_nodup w q, ring_nodup w r, fun x hx hx' => hqr (ring_apart w hx hx')⟩
  have hloop := h.loop r
  rw [hringr] at hloop hdis
  obtain ⟨z, hz⟩ : ∃ z, (ring A q).getLast? = some z := ⟨_, List.getLast?_eq_some_getLast (List.cons_ne_nil _ _)⟩
  obtain ⟨y, hy⟩ : ∃ y, m.head? = some y := ⟨_, List.head?_eq_some_head hm0⟩
  obtain ⟨u, hu⟩ : ∃ u, m.getLast? = some u := ⟨_, List.getLast?_eq_some_getLast hm0⟩
  have hcount0 : s.count r ≠ 0 := by
    intro e
    have hlen0 := h.count r
    rw [e] at hlen0
    exact hne (List.length_eq_zero_iff.mp hlen0.symm)
  obtain ⟨s', hrun, hn, hp, hcount⟩ := nstInsertCellQue_spec hcount0 ((h.loop q).prev_first.trans hz)
    ((hloop.next_last hm0).trans hy) ((hloop.prev_last hm0).trans hu)
  obtain ⟨hloopq, hloopr⟩ := (h.loop q).splice hloop hdis hz hy hu hn hp
  refine ⟨s', hrun, h.update (t := ring A q ++ ring A r) (fun x hx => ?_) (fun p => ?_) fun d hd => .inl ⟨hd, ?_⟩⟩
  · rw [hringr] at hx
    exact splice_outside hz hy hu hn hp hx
  · by_cases hpr : p = r
    · subst hpr
      refine .inr ⟨?_, ?_⟩
      · rw [ring, hr]
        exact hloopr
      · rw [hcount, if_pos rfl, hr]
        rfl
    · by_cases hpq : p = q
      · subst hpq
        refine .inr ⟨hringq ▸ hloopq, ?_⟩
        rw [hcount, if_neg hpr, if_pos rfl, hq, List.length_append, UInt16.toNat_add, h.count p, h.count r]
        exact Nat.mod_eq_of_lt hlen
      · have hother : (A.appendQue q r).cells p = A.cells p := by
          simp only [Queues.appendQue, Function.update_of_ne hpr, Function.update_of_ne hpq]
        refine .inl ⟨hother, by rw [hcount, if_neg hpr, if_neg hpq], fun x hx hm => ?_⟩
        exact (List.mem_append.mp hm).elim (fun hm => hpq (ring_apart w hx hm)) fun hm => hpr (ring_apart w hx hm)
  · intro hm
    exact (List.mem_append.mp hm).elim (fun hm => w.away d hd q (cell_mem_ring.mp hm))
      fun hm => w.away d hd r (cell_mem_ring.mp hm)

theorem prependQue_rep {addTail : UInt8} (h : Rep s A) (w : A.Wf) (hqr : q ≠ r) (hne : A.cells r ≠ [])
    (hlen : (A.cells q).length + (A.cells r).length < 65536) (ht : addTail ≠ nstTrue) :
    ∃ s', nstInsertCellQue q r addTail s = some s' ∧ Rep s' (A.prependQue q r) := by
  have hlen' : (A.mirror.cells q).length + (A.mirror.cells r).length < 65536 := by
    rwa [Queues.mirror, List.length_reverse, List.length_reverse]
  obtain ⟨s', hrun, hrep⟩ := appendQue_rep h.mirror w.mirror hqr (mt List.reverse_eq_nil_iff.mp hne) hlen'
  rw [insertCellQue_mirror s q r ht, hrun, ← prependQue_mirror]
  exact ⟨s'.mirror, rfl, hrep.mirror⟩

/-- Nothing is done for an empty queue. -/
theorem insertCellQue_rep (h : Rep s A) (w : A.Wf) (hqr : q ≠ r)
    (hlen : (A.cells q).length + (A.cells r).length < 65536) (addTail : UInt8) :
    ∃ s', nstInsertCellQue q r addTail s = some s' ∧
      Rep s' (if addTail = nstTrue then A.appendQue q r else A.prependQue q r) := by
  by_cases hne : A.cells r = []
  · have hcount : s.count r = 0 := by
      rw [← UInt16.toNat_inj, h.count r, hne]
      rfl
    rw [appendQue_nil hne, prependQue_nil hne, ite_self, nstInsertCellQue, if_pos hcount]
    exact ⟨s, rfl, h⟩
  · by_cases ht : addTail = nstTrue
    · subst ht
      rw [if_pos rfl]
      exact appendQue_rep h w hqr hne hlen
    · rw [if_neg ht]
      exact prependQue_rep h w hqr hne hlen ht

end

end GizwitsSdk
