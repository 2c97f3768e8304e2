import GizwitsSdk.CellQueueRep

/-!
# Runs of the cell queues

From heads that have been initialised, every sequence of calls that puts in only
cells of no queue, and takes out only members of the queue it names, does to the
memory what the same calls do to lists.
-/

namespace GizwitsSdk

open Lib

inductive QueueOp (Q C : Type)
  | enqueueTail (phead : Q) (pnode : C)
  | enqueueHead (phead : Q) (pnode : C)
  | insertCell (pQueHead : Q) (pCell : C) (addTail : UInt8)
  | dequeue (phead : Q)
  | unlink (phead : Q) (pnode : C)
  | removeCell (pQueHead : Q) (pCell : C)
  | insertCellQue (pQueHead pInsertedQueHead : Q) (addTail : UInt8)

section
variable {Q C : Type} [DecidableEq Q] [DecidableEq C]

def QueueOp.run : QueueOp Q C → Cells Q C → Option (Cells Q C)
  | .enqueueTail phead pnode, s => utilEnqueueListTail phead (.cell pnode) s
  | .enqueueHead phead pnode, s => utilEnqueueListHead phead (.cell pnode) s
  | .insertCell pQueHead pCell addTail, s => nstInsertCell pQueHead (.cell pCell) addTail s
  | .dequeue phead, s => (utilDequeueList phead s).map Prod.snd
  | .unlink phead pnode, s => utilUnlinkList phead (.cell pnode) s
  | .removeCell pQueHead pCell, s => nstRemoveCell pQueHead (some (.cell pCell)) s
  | .insertCellQue pQueHead pInsertedQueHead addTail, s => nstInsertCellQue pQueHead pInsertedQueHead addTail s

def QueueOp.spec : QueueOp Q C → Queues Q C → Queues Q C
  | .enqueueTail q c, A => A.pushTail q c
  | .enqueueHead q c, A => A.pushHead q c
  | .insertCell q c addTail, A => if addTail = nstTrue then A.pushTail q c else A.pushHead q c
  | .dequeue q, A => A.dequeue q
  | .unlink q c, A => A.leave q c
  | .removeCell q c, A => A.leave q c
  | .insertCellQue q r addTail, A => if addTail = nstTrue then A.appendQue q r else A.prependQue q r

def QueueOp.Legal (A : Queues Q C) : QueueOp Q C → Prop
  | .enqueueTail _ c | .enqueueHead _ c | .insertCell _ c _ => ∀ r, c ∉ A.cells r
  | .dequeue _ => True
  | .unlink q c | .removeCell q c => c ∈ A.cells q
  | .insertCellQue q r _ => q ≠ r

def runOps : List (QueueOp Q C) → Cells Q C → Option (Cells Q C)
  | [], s => some s
  | op :: ops, s => (op.run s).bind (runOps ops)

def specOps (ops : List (QueueOp Q C)) (A : Queues Q C) : Queues Q C := ops.foldl (fun A op => op.spec A) A

def LegalOps : Queues Q C → List (QueueOp Q C) → Prop
  | _, [] => True
  | A, op :: ops => op.Legal A ∧ LegalOps (op.spec A) ops

def initHeads (heads : List Q) (s : Cells Q C) : Cells Q C := heads.foldl (fun s q => utilInitListHead q s) s

/-- The links run over the lists in both directions, the counts are their
lengths, and the cells that are gone have null links. -/
structure Refines (s : Cells Q C) (A : Queues Q C) : Prop where
  next : ∀ q fuel, (A.cells q).length < fuel →
    walk s.pnext (.head q) fuel (.head q) = some ((A.cells q).map .cell)
  prev : ∀ q fuel, (A.cells q).length < fuel →
    walk s.pprev (.head q) fuel (.head q) = some ((A.cells q).reverse.map .cell)
  once : A.Wf
  count : ∀ q, (s.count q).toNat = (A.cells q).length
  gone : ∀ c ∈ A.gone, s.pnext (.cell c) = none ∧ s.pprev (.cell c) = none

variable {s : Cells Q C} {A : Queues Q C} {q : Q}

theorem Rep.refines (h : Rep s A) (w : A.Wf) : Refines s A where
  next q fuel hf := (h.loop q).walk_next (by simp) (by rwa [List.length_map])
  prev q fuel hf := by
    rw [List.map_reverse]
    exact (h.loop q).walk_prev (by simp) (by rwa [List.length_map])
  once := w
  count := h.count
  gone := h.gone

/-! ## The start -/

def Empty (s : Cells Q C) (q : Q) : Prop :=
  s.pnext (.head q) = some (.head q) ∧ s.pprev (.head q) = some (.head q) ∧ s.count q = 0

theorem init_empty (q r : Q) (s : Cells Q C) (h : r = q ∨ Empty s r) : Empty (utilInitListHead q s) r := by
  by_cases hr : r = q
  · simp [Empty, utilInitListHead, hr]
  · obtain ⟨hn, hp, hc⟩ := h.resolve_left hr
    simp [Empty, utilInitListHead, hr, hn, hp, hc]

theorem initHeads_empty (heads : List Q) (s : Cells Q C) (r : Q) (h : r ∈ heads ∨ Empty s r) :
    Empty (initHeads heads s) r := by
  induction heads generalizing s with
  | nil => exact h.resolve_left List.not_mem_nil
  | cons q heads ih =>
    refine ih (utilInitListHead q s) ?_
    rcases h with h | h
    · rcases List.mem_cons.mp h with h | h
      · exact .inr (init_empty q r s (.inl h))
      · exact .inl h
    · exact .inr (init_empty q r s (.inr h))

theorem initHeads_rep {heads : List Q} (hall : ∀ q, q ∈ heads) (s : Cells Q C) :
    Rep (initHeads heads s) Queues.empty where
  loop q := by
    have he := initHeads_empty heads s q (.inl (hall q))
    exact loop_single.mpr ⟨he.1, he.2.1⟩
  count q := by
    rw [(initHeads_empty heads s q (.inl (hall q))).2.2]
    rfl
  gone _ h := absurd h List.not_mem_nil

/-! ## Steps and runs -/

theorem spec_wf {op : QueueOp Q C} (w : A.Wf) (hl : op.Legal A) : (op.spec A).Wf := by
  cases op with
  | enqueueTail q c => exact wf_pushTail w hl
  | enqueueHead q c => exact wf_pushHead w hl
  | insertCell q c addTail =>
    rw [QueueOp.spec]
    split
    · exact wf_pushTail w hl
    · exact wf_pushHead w hl
  | dequeue q => exact wf_dequeue w
  | unlink q c => exact wf_leave w hl
  | removeCell q c => exact wf_leave w hl
  | insertCellQue q r addTail =>
    rw [QueueOp.spec]
    split
    · exact wf_appendQue w hl
    · exact wf_prependQue w hl

variable [Fintype C]

theorem run_rep (hcard : Fintype.card C < 65536) {op : QueueOp Q C} (h : Rep s A) (w : A.Wf) (hl : op.Legal A) :
    ∃ s', op.run s = some s' ∧ Rep s' (op.spec A) := by
  have hroom {c : C} (hc : ∀ r, c ∉ A.cells r) (q : Q) : (A.cells q).length + 1 < 65536 :=
    Nat.lt_of_le_of_lt (w.length_room hc q) hcard
  cases op with
  | enqueueTail q c => exact enqueueTail_rep h w hl (hroom hl q)
  | enqueueHead q c => exact enqueueHead_rep h w hl (hroom hl q)
  | insertCell q c addTail =>
    simp only [QueueOp.run, QueueOp.spec, nstInsertCell]
    by_cases ht : addTail = nstTrue
    · rw [if_pos ht, if_pos ht]
      exact enqueueTail_rep h w hl (hroom hl q)
    · rw [if_neg ht, if_neg ht]
      exact enqueueHead_rep h w hl (hroom hl q)
  | dequeue q =>
    obtain ⟨s', hrun, hrep⟩ := dequeue_rep (q := q) h w
    exact ⟨s', by rw [QueueOp.run, hrun]; rfl, hrep⟩
  | unlink q c => exact unlink_rep h w hl
  | removeCell q c => exact removeCell_rep h w hl
  | insertCellQue q r addTail =>
    exact insertCellQue_rep h w hl (Nat.lt_of_le_of_lt (w.length_two hl) hcard) addTail

theorem runOps_rep (hcard : Fintype.card C < 65536) {ops : List (QueueOp Q C)} (h : Rep s A) (w : A.Wf)
    (hl : LegalOps A ops) : ∃ s', runOps ops s = some s' ∧ Rep s' (specOps ops A) ∧ (specOps ops A).Wf := by
  induction ops generalizing s A with
  | nil => exact ⟨s, rfl, h, w⟩
  | cons op ops ih =>
    obtain ⟨s₁, h₁, hrep₁⟩ := run_rep hcard h w hl.1
    obtain ⟨s', h', hrep', w'⟩ := ih hrep₁ (spec_wf w hl.1) hl.2
    exact ⟨s', by rw [runOps, h₁, Option.bind_some, h'], hrep', w'⟩

/-- After every legal sequence of calls the queues in memory are the lists. -/
theorem queues_refine_lists (hcard : Fintype.card C < 65536) (heads : List Q) (hall : ∀ q, q ∈ heads) (s : Cells Q C)
    (ops : List (QueueOp Q C)) (hl : LegalOps Queues.empty ops) :
    ∃ s', runOps ops (initHeads heads s) = some s' ∧ Refines s' (specOps ops Queues.empty) := by
  obtain ⟨s', hrun, hrep, w⟩ := runOps_rep hcard (initHeads_rep hall s) wf_empty hl
  exact ⟨s', hrun, hrep.refines w⟩

end

/-- A queue of two cells put in front of a third one, and the first one taken out. -/
theorem queues_refine_lists_splice :
    ∃ s', runOps [.enqueueTail true 0, .enqueueHead true 1, .insertCell false 2 1, .insertCellQue false true 0,
        .dequeue false] (initHeads [true, false] ⟨fun _ => none, fun _ => none, fun _ => 7⟩) = some s' ∧
      Refines (C := Fin 3) s' (specOps [.enqueueTail true 0, .enqueueHead true 1, .insertCell false 2 1,
        .insertCellQue false true 0, .dequeue false] Queues.empty) :=
  queues_refine_lists (by decide) [true, false] (by decide) _ _
    (by simp [LegalOps, QueueOp.Legal, QueueOp.spec, Queues.pushTail, Queues.pushHead, Queues.empty])

end GizwitsSdk
