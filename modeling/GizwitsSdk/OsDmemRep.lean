import GizwitsSdk.OsDmem
import GizwitsSdk.Lib.Blocks

/-!
# Pools as lists of blocks

`Linked` reads the headers of an area as a list of blocks laid out end to end:
each header carries the address of the next, of the previous, the free flag
and the pool, and the trailer closes the circle. The edits of `osGetMem` and
`osFreeMem` (a split, a merge, a flag) are one lemma each, stated on the view
of memory as headers.
-/

namespace GizwitsSdk

open Lib

/-! ## Header accesses -/

section
variable (m : Mem) (a : Nat)

theorem hdr_setNext (v : Nat) : hdr (setNext m a v) a = { hdr m a with dmNextMemory := u32 v } := by
  simp (disch := omega) only [hdr, setNext, load32_store32, load32_store32_other, store32_other]

theorem hdr_setPrev (v : Nat) :
    hdr (setPrev m a v) a = { hdr m a with dmPreviousMemory := u32 v } := by
  simp (disch := omega) only [hdr, setPrev, load32_store32, load32_store32_other, store32_other]

theorem hdr_setFree (v : UInt8) : hdr (setFree m a v) a = { hdr m a with dmMemoryFree := v } := by
  simp (disch := omega) only [hdr, setFree, load32_store8_other, store8_self]

theorem hdr_setPool (v : Nat) : hdr (setPool m a v) a = { hdr m a with dmMemoryPool := u32 v } := by
  simp (disch := omega) only [hdr, setPool, load32_store32, load32_store32_other, store32_other]

end

theorem hdr_congr {m m' : Mem} {a : Nat} (h : ∀ x, a ≤ x → x < a + 16 → m' x = m x) :
    hdr m' a = hdr m a := by
  unfold hdr
  rw [load32_congr fun x h1 h2 => h x h1 (by omega), h (a + 8) (by omega) (by omega),
    load32_congr (a := a + 4) fun x h1 h2 => h x (by omega) (by omega),
    load32_congr (a := a + 12) fun x h1 h2 => h x (by omega) (by omega)]

section
variable {m : Mem} {a b : Nat}

theorem setNext_other {v x : Nat} (h : x < a ∨ a + 4 ≤ x) : setNext m a v x = m x :=
  store32_other h

theorem setPrev_other {v x : Nat} (h : x < a + 4 ∨ a + 8 ≤ x) : setPrev m a v x = m x :=
  store32_other (by omega)

theorem setFree_other {v : UInt8} {x : Nat} (h : x < a + 8 ∨ a + 8 < x) : setFree m a v x = m x :=
  store8_other h

theorem setPool_other {v x : Nat} (h : x < a + 12 ∨ a + 16 ≤ x) : setPool m a v x = m x :=
  store32_other (by omega)

theorem hdr_setNext_other {v : Nat} (h : b + 16 ≤ a ∨ a + 16 ≤ b) :
    hdr (setNext m a v) b = hdr m b :=
  hdr_congr fun _ _ _ => setNext_other (by omega)

theorem hdr_setPrev_other {v : Nat} (h : b + 16 ≤ a ∨ a + 16 ≤ b) :
    hdr (setPrev m a v) b = hdr m b :=
  hdr_congr fun _ _ _ => setPrev_other (by omega)

theorem hdr_setFree_other {v : UInt8} (h : b + 16 ≤ a ∨ a + 16 ≤ b) :
    hdr (setFree m a v) b = hdr m b :=
  hdr_congr fun _ _ _ => setFree_other (by omega)

theorem hdr_setPool_other {v : Nat} (h : b + 16 ≤ a ∨ a + 16 ≤ b) :
    hdr (setPool m a v) b = hdr m b :=
  hdr_congr fun _ _ _ => setPool_other (by omega)

end

theorem hdr_next_lt (m : Mem) (a : Nat) : (hdr m a).dmNextMemory < 4294967296 := load32_lt _ _

/-! ## Blocks in memory -/

def flag (b : Bool) : UInt8 := if b then cTrue else cFalse

theorem flag_ne_zero {b : Bool} : flag b ≠ 0 ↔ b = true := by cases b <;> decide

/-- The blocks from `a` on, the first one's previous header at `p`. `V` is the
view of memory as headers. -/
def Seg (V : Nat → DmHeader) (pool : Nat) : Nat → Nat → List Blk → Prop
  | _, _, [] => True
  | p, a, b :: bs =>
    V a = ⟨a + 16 + b.size, p, flag b.free, pool⟩ ∧ Seg V pool a (a + 16 + b.size) bs

/-- The blocks from `a` on and the trailer that leads back to `start`. -/
def Linked (V : Nat → DmHeader) (pool start p a : Nat) (bs : List Blk) : Prop :=
  Seg V pool p a bs ∧
    V (a + span 16 bs) = ⟨start, lastHead 16 p a bs, cFalse, pool⟩

section
variable {V V' : Nat → DmHeader} {pool start p q a : Nat} {bs l r : List Blk} {b c : Blk}

theorem seg_append : Seg V pool p a (l ++ r) ↔
    Seg V pool p a l ∧ Seg V pool (lastHead 16 p a l) (a + span 16 l) r := by
  induction l generalizing p a with
  | nil => simp [Seg, span, lastHead]
  | cons b l ih =>
    have e : a + 16 + b.size + span 16 l = a + span 16 (b :: l) := by
      simp only [span]; omega
    simp only [List.cons_append, Seg, lastHead, ih, e, and_assoc]

theorem seg_frame (h : ∀ x, a ≤ x → x + 16 ≤ a + span 16 l → V' x = V x)
    (hs : Seg V pool p a l) : Seg V' pool p a l := by
  induction l generalizing p a with
  | nil => trivial
  | cons b l ih =>
    simp only [span] at h
    refine ⟨(h a (by omega) (by omega)).trans hs.1, ih (fun x h1 h2 => h x ?_ ?_) hs.2⟩ <;> omega

theorem linked_append : Linked V pool start p a (l ++ r) ↔ Seg V pool p a l ∧
    Linked V pool start (lastHead 16 p a l) (a + span 16 l) r := by
  have hl : lastHead 16 p a (l ++ r) =
      lastHead 16 (lastHead 16 p a l) (a + span 16 l) r := by
    induction l generalizing p a with
    | nil => simp [lastHead, span]
    | cons b l ih => simp only [List.cons_append, lastHead, ih, span]; congr 1; omega
  unfold Linked
  rw [seg_append, hl, span_append, and_assoc, Nat.add_assoc]

theorem linked_cons : Linked V pool start p a (b :: r) ↔
    V a = ⟨a + 16 + b.size, p, flag b.free, pool⟩ ∧
      Linked V pool start a (a + 16 + b.size) r := by
  have e : a + span 16 (b :: r) = a + 16 + b.size + span 16 r := by
    simp only [span]; omega
  simp only [Linked, Seg, lastHead, e, and_assoc]

theorem linked_frame (h : ∀ x, a ≤ x → V' x = V x) (hr : Linked V pool start p a r) :
    Linked V' pool start p a r :=
  ⟨seg_frame (fun x h1 _ => h x h1) hr.1, (h _ (by omega)).trans hr.2⟩

theorem linked_setPrev (h1 : V' a = { V a with dmPreviousMemory := q })
    (h2 : ∀ x, a + 16 ≤ x → V' x = V x) (hr : Linked V pool start p a r) :
    Linked V' pool start q a r := by
  cases r with
  | nil =>
    have := hr.2
    simp only [span, Nat.add_zero, lastHead] at this
    refine ⟨trivial, ?_⟩
    simp only [span, Nat.add_zero, lastHead]
    rw [h1, this]
  | cons b r =>
    rw [linked_cons] at hr ⊢
    exact ⟨by rw [h1, hr.1], linked_frame (fun x hx => h2 x (by omega)) hr.2⟩

theorem linked_head (h : Linked V pool start p a (l ++ b :: r)) :
    V (a + span 16 l) = ⟨a + span 16 l + 16 + b.size,
      lastHead 16 p a l, flag b.free, pool⟩ :=
  (linked_cons.mp (linked_append.mp h).2).1

theorem linked_next (h : Linked V pool start p a (l ++ b :: r)) :
    (V (a + span 16 l + 16 + b.size)).dmPreviousMemory = a + span 16 l ∧
    (V (a + span 16 l + 16 + b.size)).dmMemoryFree =
      match r with | [] => cFalse | c :: _ => flag c.free := by
  have h := (linked_cons.mp (linked_append.mp h).2).2
  cases r with
  | nil => have := h.2; simp only [span, Nat.add_zero, lastHead] at this; rw [this]; exact ⟨rfl, rfl⟩
  | cons c r => rw [(linked_cons.mp h).1]; exact ⟨rfl, rfl⟩

/-! ## Edits -/

theorem linked_flag {f : Bool} (h : Linked V pool start p a (l ++ b :: r))
    (h1 : V' (a + span 16 l) = { V (a + span 16 l) with dmMemoryFree := flag f })
    (h2 : ∀ x, x + 16 ≤ a + span 16 l ∨ a + span 16 l + 16 + b.size ≤ x →
      V' x = V x) :
    Linked V' pool start p a (l ++ ⟨b.size, f⟩ :: r) := by
  have hd := linked_head h
  obtain ⟨hl, hr⟩ := linked_append.mp h
  refine linked_append.mpr ⟨seg_frame (fun x _ hx => h2 x (.inl hx)) hl, linked_cons.mpr ⟨?_, ?_⟩⟩
  · rw [h1, hd]
  · exact linked_frame (fun x hx => h2 x (.inr hx)) (linked_cons.mp hr).2

theorem linked_split {n : Nat} (hn : n + 16 ≤ b.size)
    (h : Linked V pool start p a (l ++ b :: r)) {f : Bool}
    (h1 : V' (a + span 16 l) =
      ⟨a + span 16 l + 16 + n, lastHead 16 p a l, flag f, pool⟩)
    (h2 : V' (a + span 16 l + 16 + n) =
      ⟨a + span 16 l + 16 + b.size, a + span 16 l, cTrue, pool⟩)
    (h3 : V' (a + span 16 l + 16 + b.size) =
      { V (a + span 16 l + 16 + b.size) with
        dmPreviousMemory := a + span 16 l + 16 + n })
    (h4 : ∀ x, x + 16 ≤ a + span 16 l ∨ a + span 16 l + 32 + b.size ≤ x →
      V' x = V x) :
    Linked V' pool start p a (l ++ ⟨n, f⟩ :: ⟨b.size - n - 16, true⟩ :: r) := by
  obtain ⟨hl, hr⟩ := linked_append.mp h
  have e : a + span 16 l + 16 + n + 16 + (b.size - n - 16) =
      a + span 16 l + 16 + b.size := by omega
  refine linked_append.mpr ⟨seg_frame (fun x _ hx => h4 x (.inl hx)) hl,
    linked_cons.mpr ⟨h1, linked_cons.mpr ⟨?_, ?_⟩⟩⟩
  · simp only [e]; exact h2
  · simp only [e]
    exact linked_setPrev h3 (fun x hx => h4 x (.inr (by omega))) (linked_cons.mp hr).2

theorem linked_merge (h : Linked V pool start p a (l ++ b :: c :: r))
    (h1 : V' (a + span 16 l) = { V (a + span 16 l) with
      dmNextMemory := a + span 16 l + 16 + b.size + 16 + c.size })
    (h2 : V' (a + span 16 l + 16 + b.size + 16 + c.size) =
      { V (a + span 16 l + 16 + b.size + 16 + c.size) with
        dmPreviousMemory := a + span 16 l })
    (h3 : ∀ x, x + 16 ≤ a + span 16 l ∨
      a + span 16 l + 48 + b.size + c.size ≤ x → V' x = V x) :
    Linked V' pool start p a (l ++ ⟨b.size + 16 + c.size, b.free⟩ :: r) := by
  have hd := linked_head h
  obtain ⟨hl, hr⟩ := linked_append.mp h
  have e : a + span 16 l + 16 + (b.size + 16 + c.size) =
      a + span 16 l + 16 + b.size + 16 + c.size := by omega
  refine linked_append.mpr ⟨seg_frame (fun x _ hx => h3 x (.inl hx)) hl, linked_cons.mpr ⟨?_, ?_⟩⟩
  · simp only [e]; rw [h1, hd]
  · simp only [e]
    exact linked_setPrev h2 (fun x hx => h3 x (.inr (by omega)))
      (linked_cons.mp (linked_cons.mp hr).2).2

end

/-! ## The ring of headers -/

/-- The next links run through the headers in address order and back to `start`. -/
theorem linked_chain {V : Nat → DmHeader} {pool start p a : Nat} {bs : List Blk}
    (h : Linked V pool start p a bs) :
    (headsAt 16 a bs ++ [start]).IsChain fun x y => (V x).dmNextMemory = y := by
  induction bs generalizing p a with
  | nil =>
    have := h.2
    simp only [span, Nat.add_zero] at this
    simp [headsAt, this]
  | cons b bs ih =>
    obtain ⟨h1, h2⟩ := linked_cons.mp h
    have := ih h2
    rw [headsAt, List.cons_append, List.isChain_cons]
    refine ⟨fun y hy => ?_, this⟩
    have e : (headsAt 16 (a + 16 + b.size) bs ++ [start]).head? =
        some (a + 16 + b.size) := by cases bs <;> rfl
    rw [e, Option.mem_some_iff] at hy
    rw [h1, ← hy]

theorem linked_congr {V V' : Nat → DmHeader} {pool start p a : Nat} {bs : List Blk}
    (h : ∀ x ∈ headsAt 16 a bs, V' x = V x) (hl : Linked V pool start p a bs) :
    Linked V' pool start p a bs := by
  induction bs generalizing p a with
  | nil => exact ⟨trivial, (h _ (by simp [headsAt, span])).trans hl.2⟩
  | cons b bs ih =>
    rw [linked_cons] at hl ⊢
    exact ⟨(h a List.mem_cons_self).trans hl.1,
      ih (fun x hx => h x (List.mem_cons_of_mem _ hx)) hl.2⟩

theorem linked_ring {V : Nat → DmHeader} {pool start p : Nat} {bs : List Blk}
    (h : Linked V pool start p start bs) :
    Ring (fun x => (V x).dmNextMemory) (headsAt 16 start bs) := by
  have := linked_chain h
  cases bs with
  | nil => exact this
  | cons b bs => exact this

end GizwitsSdk
