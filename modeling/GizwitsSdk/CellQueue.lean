import Mathlib.Logic.Function.Basic

/-!
# Cell queues: `util.h` and `task_util.h`

A queue is a circle of cells linked both ways, with the head as one of the nodes.
A pointer is a node, or `none` for `NULL`; no result where `NULL` is dereferenced.
-/

namespace GizwitsSdk

/-- What a link points to: `NST_list_head` and `NST_Cell` begin with the same two links. -/
inductive Node (Q C : Type)
  | head (q : Q)
  | cell (c : C)
  deriving DecidableEq

structure Cells (Q C : Type) where
  pprev : Node Q C → Option (Node Q C)
  pnext : Node Q C → Option (Node Q C)
  count : Q → UInt16

def nstTrue : UInt8 := 1

section
variable {Q C : Type} [DecidableEq Q] [DecidableEq C]

def Cells.setPrev (s : Cells Q C) (a : Node Q C) (v : Option (Node Q C)) : Cells Q C :=
  { s with pprev := Function.update s.pprev a v }

def Cells.setNext (s : Cells Q C) (a : Node Q C) (v : Option (Node Q C)) : Cells Q C :=
  { s with pnext := Function.update s.pnext a v }

def Cells.setCount (s : Cells Q C) (q : Q) (v : UInt16) : Cells Q C := { s with count := Function.update s.count q v }

/-! ## `util.h` -/

def utilInitListHead (phead : Q) (s : Cells Q C) : Cells Q C :=
  ((s.setNext (.head phead) (some (.head phead))).setPrev (.head phead) (some (.head phead))).setCount phead 0

def utilPeekList (phead : Q) (s : Cells Q C) : Option (Node Q C) :=
  if s.pnext (.head phead) ≠ some (.head phead) then s.pnext (.head phead) else none

def utilEnqueueListTail (phead : Q) (pnode : Node Q C) (s : Cells Q C) : Option (Cells Q C) :=
  let s₁ := (s.setPrev pnode (s.pprev (.head phead))).setNext pnode (some (.head phead))
  (s.pprev (.head phead)).map fun poldLast =>
    ((s₁.setNext poldLast (some pnode)).setPrev (.head phead) (some pnode)).setCount phead (s.count phead + 1)

def utilEnqueueListHead (phead : Q) (pnode : Node Q C) (s : Cells Q C) : Option (Cells Q C) :=
  let s₁ := (s.setPrev pnode (some (.head phead))).setNext pnode (s.pnext (.head phead))
  (s.pnext (.head phead)).map fun poldFirst =>
    ((s₁.setPrev poldFirst (some pnode)).setNext (.head phead) (some pnode)).setCount phead (s.count phead + 1)

def utilUnlinkList (phead : Q) (pnode : Node Q C) (s : Cells Q C) : Option (Cells Q C) :=
  (s.pnext pnode).bind fun pmyNext =>
    (s.pprev pnode).map fun pmyPrev =>
      let s₁ := (s.setPrev pmyNext (some pmyPrev)).setNext pmyPrev (some pmyNext)
      ((s₁.setCount phead (s.count phead - 1)).setPrev pnode none).setNext pnode none

def utilDequeueList (phead : Q) (s : Cells Q C) : Option (Option (Node Q C) × Cells Q C) :=
  match s.pnext (.head phead) with
  | none => some (none, s)
  | some pnode =>
    if pnode ≠ .head phead then (utilUnlinkList phead pnode s).map fun s => (some pnode, s) else some (none, s)

/-! ## `task_util.h` -/

def nstRemoveCell (pQueHead : Q) (pCell : Option (Node Q C)) (s : Cells Q C) : Option (Cells Q C) :=
  pCell.elim (some s) fun pCell =>
    if s.pnext pCell ≠ none ∧ s.pprev pCell ≠ none then utilUnlinkList pQueHead pCell s else some s

def nstInsertCell (pQueHead : Q) (pCell : Node Q C) (addTail : UInt8) (s : Cells Q C) : Option (Cells Q C) :=
  if addTail = nstTrue then utilEnqueueListTail pQueHead pCell s else utilEnqueueListHead pQueHead pCell s

/-- The four links that `NST_InsertCellQue` sets at the tail of the queue. -/
def linkQueTail (pQueHead pInsertedQueHead : Q) (s : Cells Q C) : Option (Cells Q C) :=
  (s.pprev (.head pQueHead)).bind fun pQueLastCell =>
    (s.pnext (.head pInsertedQueHead)).bind fun pInsertedQueFirstCell =>
      (s.pprev (.head pInsertedQueHead)).map fun pInsertedQueLastCell =>
        (((s.setNext pQueLastCell (some pInsertedQueFirstCell)).setPrev pInsertedQueFirstCell
            (some pQueLastCell)).setPrev (.head pQueHead) (some pInsertedQueLastCell)).setNext
          pInsertedQueLastCell (some (.head pQueHead))

/-- And those at its head. -/
def linkQueHead (pQueHead pInsertedQueHead : Q) (s : Cells Q C) : Option (Cells Q C) :=
  (s.pnext (.head pQueHead)).bind fun pQueFirstCell =>
    (s.pprev (.head pInsertedQueHead)).bind fun pInsertedQueLastCell =>
      (s.pnext (.head pInsertedQueHead)).map fun pInsertedQueFirstCell =>
        (((s.setNext pInsertedQueLastCell (some pQueFirstCell)).setPrev pQueFirstCell
            (some pInsertedQueLastCell)).setNext (.head pQueHead) (some pInsertedQueFirstCell)).setPrev
          pInsertedQueFirstCell (some (.head pQueHead))

def nstInsertCellQue (pQueHead pInsertedQueHead : Q) (addTail : UInt8) (s : Cells Q C) : Option (Cells Q C) :=
  if s.count pInsertedQueHead = 0 then some s
  else
    (if addTail = nstTrue then linkQueTail pQueHead pInsertedQueHead s
      else linkQueHead pQueHead pInsertedQueHead s).map fun s₁ =>
      let s₂ := s₁.setCount pQueHead (s.count pQueHead + s.count pInsertedQueHead)
      ((s₂.setPrev (.head pInsertedQueHead) (some (.head pInsertedQueHead))).setNext (.head pInsertedQueHead)
        (some (.head pInsertedQueHead))).setCount pInsertedQueHead 0

/-! ## Fields -/

variable (s : Cells Q C) (a x : Node Q C) (v : Option (Node Q C)) (q r : Q) (k : UInt16)

@[simp] theorem pnext_setNext : (s.setNext a v).pnext x = if x = a then v else s.pnext x := by
  simp only [Cells.setNext, Function.update_apply]

@[simp] theorem pprev_setPrev : (s.setPrev a v).pprev x = if x = a then v else s.pprev x := by
  simp only [Cells.setPrev, Function.update_apply]

omit [DecidableEq C] in
@[simp] theorem count_setCount : (s.setCount q k).count r = if r = q then k else s.count r := by
  simp only [Cells.setCount, Function.update_apply]

omit [DecidableEq C] in
@[simp] theorem pnext_setCount : (s.setCount q k).pnext = s.pnext := rfl

omit [DecidableEq C] in
@[simp] theorem pprev_setCount : (s.setCount q k).pprev = s.pprev := rfl

@[simp] theorem pnext_setPrev : (s.setPrev a v).pnext = s.pnext := rfl
@[simp] theorem pprev_setNext : (s.setNext a v).pprev = s.pprev := rfl
@[simp] theorem count_setPrev : (s.setPrev a v).count = s.count := rfl
@[simp] theorem count_setNext : (s.setNext a v).count = s.count := rfl

/-! ## What the operations write -/

variable {s a q r}

theorem utilEnqueueListTail_spec {z : Node Q C} (hz : s.pprev (.head q) = some z) :
    ∃ s', utilEnqueueListTail q a s = some s' ∧
      (∀ x, s'.pnext x = if x = z then some a else if x = a then some (.head q) else s.pnext x) ∧
      (∀ x, s'.pprev x = if x = .head q then some a else if x = a then some z else s.pprev x) ∧
      ∀ r, s'.count r = if r = q then s.count q + 1 else s.count r := by
  rw [utilEnqueueListTail, hz]
  exact ⟨_, rfl, by simp, by simp, by simp⟩

theorem utilUnlinkList_spec {y z : Node Q C} (hy : s.pnext a = some y) (hz : s.pprev a = some z) :
    ∃ s', utilUnlinkList q a s = some s' ∧
      (∀ x, s'.pnext x = if x = a then none else if x = z then some y else s.pnext x) ∧
      (∀ x, s'.pprev x = if x = a then none else if x = y then some z else s.pprev x) ∧
      ∀ r, s'.count r = if r = q then s.count q - 1 else s.count r := by
  rw [utilUnlinkList, hy, hz]
  exact ⟨_, rfl, by simp, by simp, by simp⟩

/-- The last cell of the queue, and the first and the last one of the inserted queue. -/
theorem nstInsertCellQue_spec {z y w : Node Q C} (hr : s.count r ≠ 0) (hz : s.pprev (.head q) = some z)
    (hy : s.pnext (.head r) = some y) (hw : s.pprev (.head r) = some w) :
    ∃ s', nstInsertCellQue q r nstTrue s = some s' ∧
      (∀ x, s'.pnext x = if x = .head r then some (.head r) else if x = w then some (.head q)
        else if x = z then some y else s.pnext x) ∧
      (∀ x, s'.pprev x = if x = .head r then some (.head r) else if x = .head q then some w
        else if x = y then some z else s.pprev x) ∧
      ∀ p, s'.count p = if p = r then 0 else if p = q then s.count q + s.count r else s.count p := by
  have hlink : linkQueTail q r s = some ((((s.setNext z (some y)).setPrev y (some z)).setPrev (.head q)
      (some w)).setNext w (some (.head q))) := by
    simp only [linkQueTail, hz, hy, hw, Option.bind_some, Option.map_some]
  rw [nstInsertCellQue, if_neg hr, if_pos rfl, hlink]
  exact ⟨_, rfl, by simp, by simp, by simp⟩

/-! ## The other direction -/

variable (s a q r)

def Cells.mirror (s : Cells Q C) : Cells Q C := ⟨s.pnext, s.pprev, s.count⟩

/-- What is done at the head is what is done at the tail, the other way round. -/
theorem enqueueHead_mirror (pnode : Node Q C) :
    utilEnqueueListHead q pnode s = (utilEnqueueListTail q pnode s.mirror).map Cells.mirror := by
  simp only [utilEnqueueListHead, utilEnqueueListTail, Option.map_map]
  rfl

theorem linkQueHead_mirror : linkQueHead q r s = (linkQueTail q r s.mirror).map Cells.mirror := by
  unfold linkQueHead linkQueTail
  cases h₁ : s.pnext (.head q) with
  | none => simp [Cells.mirror, h₁]
  | some pQueFirstCell =>
    cases h₂ : s.pnext (.head r) with
    | none => simp [Cells.mirror, h₁, h₂]
    | some pInsertedQueFirstCell =>
      cases h₃ : s.pprev (.head r) with
      | none => simp [Cells.mirror, h₁, h₂, h₃]
      | some pInsertedQueLastCell =>
        simp only [Cells.mirror, h₁, h₂, h₃, Option.bind_some, Option.map_some]
        rfl

theorem insertCellQue_mirror {addTail : UInt8} (h : addTail ≠ nstTrue) :
    nstInsertCellQue q r addTail s = (nstInsertCellQue q r nstTrue s.mirror).map Cells.mirror := by
  have hcount : s.mirror.count = s.count := rfl
  rw [nstInsertCellQue, nstInsertCellQue, if_neg h, if_pos rfl, linkQueHead_mirror, hcount]
  by_cases hr : s.count r = 0
  · rw [if_pos hr, if_pos hr]
    rfl
  · rw [if_neg hr, if_neg hr, Option.map_map, Option.map_map]
    rfl

end

end GizwitsSdk
