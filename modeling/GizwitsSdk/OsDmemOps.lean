import GizwitsSdk.OsDmemRep

/-!
# `osGetMem` and `osFreeMem` on lists of blocks

`PoolRep` ties the memory and the control block of a pool to a list of blocks.
A successful `osGetMem` carves the request out of one free block of the list,
`osFreeMem` releases a used one; a failed search changes nothing.
-/

namespace GizwitsSdk

open Lib

/-- The area of `size` bytes at `start`, run by the control block at `pool`
with a minimum allocation of `min` bytes, holds the blocks `bs`. -/
structure PoolRep (pool start size min : Nat) (s : Heap) (bs : List Blk) : Prop where
  linked : Linked (hdr s.mem) pool start (start + span 16 bs) start bs
  tile : span 16 bs + 16 = size
  bound : start + size ≤ 4294967296
  ptr : pool < 4294967296
  list : (s.pcb pool).dmMemoryList = start
  search : (s.pcb pool).dmSearchPtr ∈ headsAt 16 start bs
  avail : (s.pcb pool).dmAvailable = freeBytes bs
  noAdj : NoAdj bs
  minAlloc : (s.pcb pool).dmMinAllocation = min

theorem freeBytes_le_span (bs : List Blk) : freeBytes bs ≤ span 16 bs := by
  induction bs with
  | nil => exact Nat.le_refl _
  | cons b bs ih => simp only [freeBytes, span]; split <;> omega

section
variable {pool start size min : Nat} {s : Heap} {bs l r : List Blk} {b : Blk}

/-! ## The search -/

theorem freeSize_block {m : Mem} {p : Nat} (h : Linked (hdr m) pool start p start (l ++ b :: r))
    (hb : start + span 16 (l ++ b :: r) < 4294967296) :
    freeSize m (start + span 16 l) = if b.free then b.size else 0 := by
  simp only [span_append, span] at hb
  unfold freeSize
  rw [linked_head h]
  cases hf : b.free with
  | false => simp [flag, cFalse]
  | true =>
    have e : sub32 (start + span 16 l + 16 + b.size) (start + span 16 l) = 16 + b.size := by
      rw [sub32_of_le (by omega) (by omega)]; omega
    have e' : sub32 (16 + b.size) 16 = b.size := by rw [sub32_of_le (by omega) (by omega)]; omega
    simp [flag, cTrue, e, e']

theorem freeSize_trailer {m : Mem} {p : Nat} (h : Linked (hdr m) pool start p start bs) :
    freeSize m (start + span 16 bs) = 0 := by
  unfold freeSize
  rw [h.2]
  simp

namespace PoolRep

theorem span_lt (h : PoolRep pool start size min s bs) : start + span 16 bs < 4294967296 := by
  have := h.tile; have := h.bound; omega

theorem freeSize_head (h : PoolRep pool start size min s bs) {x : Nat}
    (hx : x ∈ headsAt 16 start bs) :
    freeSize s.mem x = 0 ∨ ∃ l b r, bs = l ++ b :: r ∧ x = start + span 16 l ∧ b.free = true ∧
      freeSize s.mem x = b.size := by
  rcases (mem_headsAt 16).mp hx with rfl | ⟨l, b, r, rfl, rfl⟩
  · exact .inl (freeSize_trailer h.linked)
  · have := freeSize_block h.linked h.span_lt
    cases hb : b.free with
    | false => exact .inl (by rw [this, hb]; rfl)
    | true => exact .inr ⟨l, b, r, rfl, rfl, hb, by rw [this, hb]; rfl⟩

variable {need : Nat}

theorem search_found (h : PoolRep pool start size min s bs) (hn : 0 < need)
    (hf : ∃ b ∈ bs, b.free = true ∧ need ≤ b.size) :
    ∃ l b r, bs = l ++ b :: r ∧ b.free = true ∧ need ≤ b.size ∧
      ∀ fuel, (headsAt 16 start bs).length ≤ fuel →
        scan (fun p => (hdr s.mem p).dmNextMemory) (freeSize s.mem) need (s.pcb pool).dmSearchPtr
          fuel (s.pcb pool).dmSearchPtr = some (start + span 16 l, b.size) := by
  have hnd := (headsAt_sorted 16 (by decide) start bs).imp Nat.ne_of_lt
  have hex : ∃ x ∈ headsAt 16 start bs, need ≤ freeSize s.mem x := by
    obtain ⟨b, hb, hfree, hsz⟩ := hf
    obtain ⟨l, r, rfl⟩ := List.append_of_mem hb
    refine ⟨_, mem_headsAt_mid 16 start l r b, ?_⟩
    rw [freeSize_block h.linked h.span_lt, hfree]; exact hsz
  obtain ⟨x, hx, hv, hr⟩ := ring_scan_found (linked_ring h.linked) hnd h.search hex
  rcases h.freeSize_head hx with h0 | ⟨l, b, r, e, rfl, hb, hs⟩
  · omega
  · exact ⟨l, b, r, e, hb, by omega, fun fuel hl => by rw [hr fuel hl, hs]⟩

theorem search_full (h : PoolRep pool start size min s bs) (hn : 0 < need)
    (hf : ∀ b ∈ bs, b.free = true → b.size < need) :
    ∃ v, v < need ∧ ∀ fuel, (headsAt 16 start bs).length ≤ fuel →
      scan (fun p => (hdr s.mem p).dmNextMemory) (freeSize s.mem) need (s.pcb pool).dmSearchPtr
        fuel (s.pcb pool).dmSearchPtr = some ((s.pcb pool).dmSearchPtr, v) := by
  have hnd := (headsAt_sorted 16 (by decide) start bs).imp Nat.ne_of_lt
  refine ring_scan_none (linked_ring h.linked) hnd h.search fun x hx => ?_
  rcases h.freeSize_head hx with h0 | ⟨l, b, r, rfl, _, hb, hs⟩
  · omega
  · rw [hs]; exact hf b (by simp) hb

end PoolRep

/-! ## Taking a block -/

theorem splitBlock_hdr {m : Mem} {a new nx : Nat} (hp : pool < 4294967296)
    (hnx : (hdr m a).dmNextMemory = nx) (h1 : a + 16 ≤ new) (h2 : new + 16 ≤ nx) :
    hdr (splitBlock m pool a new) a = { hdr m a with dmNextMemory := new } ∧
    hdr (splitBlock m pool a new) new = ⟨nx, a, cTrue, pool⟩ ∧
    hdr (splitBlock m pool a new) nx = { hdr m nx with dmPreviousMemory := new } ∧
    ∀ x, x < a ∨ nx + 16 ≤ x → splitBlock m pool a new x = m x := by
  have hlt : nx < 4294967296 := hnx ▸ hdr_next_lt m a
  unfold splitBlock
  simp (disch := omega) only [hdr_setNext, hdr_setPrev, hdr_setFree, hdr_setPool, hdr_setNext_other,
    hdr_setPrev_other, hdr_setFree_other, hdr_setPool_other, hnx, u32_of_lt, true_and]
  intro x hx
  rw [setNext_other (by omega), setPrev_other (by omega), setNext_other (by omega),
    setPrev_other (by omega), setPool_other (by omega), setFree_other (by omega)]

variable {need : Nat}

/-- The split block is in use, its rest stands behind it as a free one. -/
theorem splitBlock_taken {m : Mem} {p : Nat} (hp : pool < 4294967296)
    (h : Linked (hdr m) pool start p start (l ++ b :: r)) (hsz : need + 16 ≤ b.size) :
    Linked (hdr (setFree (splitBlock m pool (start + span 16 l) (start + span 16 l + 16 + need))
      (start + span 16 l) cFalse)) pool start p start (l ++ ⟨need, false⟩ :: ⟨b.size - need - 16, true⟩ :: r) ∧
    (hdr (setFree (splitBlock m pool (start + span 16 l) (start + span 16 l + 16 + need))
      (start + span 16 l) cFalse) (start + span 16 l)).dmNextMemory = start + span 16 l + 16 + need ∧
    ∀ x, x < start + span 16 l ∨ start + span 16 l + 32 + b.size ≤ x →
      setFree (splitBlock m pool (start + span 16 l) (start + span 16 l + 16 + need))
        (start + span 16 l) cFalse x = m x := by
  have hhd := linked_head h
  have hnx : (hdr m (start + span 16 l)).dmNextMemory = start + span 16 l + 16 + b.size := by rw [hhd]
  obtain ⟨e1, e2, e3, e4⟩ := splitBlock_hdr (m := m) hp hnx
    (show start + span 16 l + 16 ≤ start + span 16 l + 16 + need by omega) (by omega)
  have hframe : ∀ x, x < start + span 16 l ∨ start + span 16 l + 32 + b.size ≤ x →
      setFree (splitBlock m pool (start + span 16 l) (start + span 16 l + 16 + need))
        (start + span 16 l) cFalse x = m x := by
    intro x hx
    rw [setFree_other (by omega), e4 x (by omega)]
  refine ⟨linked_split hsz h ?_ ?_ ?_ fun x hx => hdr_congr fun y _ _ => hframe y (by omega), ?_, hframe⟩
  · rw [hdr_setFree, e1, hhd]
    rfl
  · rw [hdr_setFree_other (by omega), e2]
  · rw [hdr_setFree_other (by omega), e3]
  · rw [hdr_setFree, e1]

theorem takeBlock_rep (h : PoolRep pool start size min s (l ++ b :: r)) (hb : b.free = true)
    (hn : need ≤ b.size) (hw : need + 16 + min < 4294967296) :
    PoolRep pool start size min (takeBlock s pool need (start + span 16 l) b.size)
      (l ++ carve 16 min need b ++ r) ∧
    ∀ x, x < start + span 16 l ∨ start + span 16 l + 32 + b.size ≤ x →
      (takeBlock s pool need (start + span 16 l) b.size).mem x = s.mem x := by
  have hlt := h.span_lt
  have hs := h.tile
  have hfb := freeBytes_carve 16 l r min need hb
  have hle := freeBytes_le_span (l ++ b :: r)
  have hspan := span_carve 16 l r min need b
  have hadj := noAdj_carve 16 min need hb h.noAdj
  have hmin := h.minAlloc
  have hlink := h.linked
  rw [← hspan] at hlink hs
  simp only [span_append, span] at hlt hle
  unfold takeBlock
  simp only [Heap.setPcb, hmin, u32_of_lt hw, dmOverhead]
  by_cases hsp : need + 16 + min ≤ b.size
  · -- the block is split: a new free header stands after the request
    simp only [hsp, if_true, carve] at hfb hadj hspan hlink hs ⊢
    have hnew : u32 (start + span 16 l + need + 16) = start + span 16 l + 16 + need := by
      rw [u32_of_lt (by omega)]
      omega
    obtain ⟨htaken, hnext, hframe⟩ := splitBlock_taken h.ptr hlink (show need + 16 ≤ b.size by omega)
    rw [hnew]
    refine ⟨⟨?_, hs, h.bound, h.ptr, ?_, ?_, ?_, hadj, ?_⟩, hframe⟩
    · rw [List.append_assoc] at htaken ⊢
      exact htaken
    · simp [h.list]
    · simp only [if_true, hnext]
      refine mem_headsAt_step 16 (by simp only [span]; omega) h.search ?_
      rw [List.append_assoc]
      exact mem_headsAt_next 16 start l (⟨b.size - need - 16, true⟩ :: r) ⟨need, false⟩
    · simp only [if_true]
      have hsub : sub32 (freeBytes (l ++ b :: r)) need = freeBytes (l ++ b :: r) - need :=
        sub32_of_le (by omega) (by omega)
      rw [h.avail, hsub, sub32_of_le (by omega) (by omega)]
      omega
    · simp only [if_true]
  · -- the whole block is handed out
    simp only [hsp, if_false, carve] at hfb hadj hspan hlink hs ⊢
    have hnext : (hdr s.mem (start + span 16 l)).dmNextMemory = start + span 16 l + 16 + b.size := by
      rw [linked_head hlink]
    refine ⟨⟨?_, hs, h.bound, h.ptr, ?_, ?_, ?_, hadj, ?_⟩, fun x hx => ?_⟩
    · rw [List.append_assoc]
      rw [List.append_assoc] at hlink
      refine linked_flag (f := false) hlink ?_ fun x hx => ?_
      · rw [hdr_setFree]
        rfl
      · exact hdr_setFree_other (by omega)
    · simp [h.list]
    · simp only [if_true, hdr_setFree, hnext]
      refine mem_headsAt_step 16 (by simp only [span]; omega) h.search ?_
      rw [List.append_assoc]
      exact mem_headsAt_next 16 start l r ⟨b.size, false⟩
    · simp only [if_true]
      rw [h.avail, sub32_of_le (by omega) (by omega)]
      omega
    · simp only [if_true]
    · rw [setFree_other (by omega)]

/-! ## The calls -/

theorem osGetMem_mono {f g : Nat} (hfg : f ≤ g) {n : Nat} {x : Heap × OsErr × Nat}
    (h : osGetMem f s pool n = some x) : osGetMem g s pool n = some x := by
  unfold osGetMem at h ⊢
  simp only at h ⊢
  split at h
  · cases h
  · rename_i e; rw [scan_mono hfg e]; exact h

namespace PoolRep

theorem getMem_found (h : PoolRep pool start size min s bs) {n : Nat} (hn : 0 < requestSize min n)
    (hf : ∃ b ∈ bs, b.free = true ∧ requestSize min n ≤ b.size) :
    ∃ l b r, bs = l ++ b :: r ∧ b.free = true ∧ requestSize min n ≤ b.size ∧
      ∀ fuel, (headsAt 16 start bs).length ≤ fuel → osGetMem fuel s pool n =
        some (takeBlock s pool (requestSize min n) (start + span 16 l) b.size, .osErrNone,
          start + span 16 l + 16) := by
  obtain ⟨l, b, r, rfl, hb, hsz, hr⟩ := h.search_found hn hf
  refine ⟨l, b, r, rfl, hb, hsz, fun fuel hl => ?_⟩
  have hlt := h.span_lt
  have ht := h.tile
  have hbd := h.bound
  simp only [span_append, span] at hlt ht
  unfold osGetMem
  simp only [h.minAlloc, hr fuel hl, hsz, if_true]
  rw [u32_of_lt (show start + span 16 l + 16 < 4294967296 by omega)]

theorem getMem_full (h : PoolRep pool start size min s bs) {n : Nat} (hn : 0 < requestSize min n)
    (hf : ∀ b ∈ bs, b.free = true → b.size < requestSize min n) {fuel : Nat}
    (hl : (headsAt 16 start bs).length ≤ fuel) :
    osGetMem fuel s pool n = some (s, .osErrMemFull, 0) := by
  obtain ⟨v, hv, hr⟩ := h.search_full hn hf
  unfold osGetMem
  simp only [h.minAlloc, hr fuel hl, Nat.not_le.mpr hv, if_false]

end PoolRep

/-! ## Giving a block back -/

/-- The locals of `osFreeMem` with the free block `b` at `headerPtr`. -/
structure FreeRep (pool start : Nat) (l : List Blk) (b : Blk) (r : List Blk) (f : FreeSt) : Prop where
  linked : Linked (hdr f.mem) pool start (start + span 16 (l ++ b :: r)) start (l ++ b :: r)
  header : f.headerPtr = start + span 16 l
  free : b.free = true
  search : f.dmSearchPtr ∈ headsAt 16 start (l ++ b :: r)
  avail : f.dmAvailable = freeBytes (l ++ b :: r)
  bound : start + span 16 (l ++ b :: r) + 16 ≤ 4294967296

/-- Two memories agree outside the headers of `bs`. -/
def OffHeads (start : Nat) (bs : List Blk) (m m' : Mem) : Prop :=
  ∀ x, (∀ h ∈ headsAt 16 start bs, x < h ∨ h + 16 ≤ x) → m' x = m x

theorem head_next (start : Nat) (l r : List Blk) (b : Blk) :
    start + span 16 l + 16 + b.size ∈ headsAt 16 start (l ++ b :: r) := by
  obtain ⟨hs, e⟩ := headsAt_append 16 start l
  rw [e, headsAt]
  exact List.mem_append_right _ (List.mem_cons_of_mem _ (by cases r <;> simp [headsAt]))

theorem markFree_rep (h : PoolRep pool start size min s (l ++ b :: r)) (hb : b.free = false) :
    FreeRep pool start l ⟨b.size, true⟩ r (markFree s.mem (s.pcb pool) (start + span 16 l)) ∧
    OffHeads start (l ++ b :: r) s.mem (markFree s.mem (s.pcb pool) (start + span 16 l)).mem := by
  have hlt := h.span_lt
  have ht := h.tile
  have hbd := h.bound
  have hhd := linked_head h.linked
  have hl := freeBytes_le_span l
  have hr := freeBytes_le_span r
  simp only [span_append, span] at hlt ht
  refine ⟨⟨?_, rfl, rfl, ?_, ?_, ?_⟩, fun x hx => ?_⟩
  · have hl := h.linked
    rw [show span 16 (l ++ b :: r) = span 16 (l ++ ⟨b.size, true⟩ :: r) by
      simp only [span_append, span]] at hl
    exact linked_flag hl (hdr_setFree ..) fun x hx => hdr_setFree_other (by omega)
  · rw [headsAt_flag 16 start l r b.size true b.free]
    exact h.search
  · simp only [markFree, dmOverhead, h.avail, hdr_setFree, hhd]
    have e1 : sub32 (start + span 16 l + 16 + b.size) (start + span 16 l) = 16 + b.size := by
      rw [sub32_of_le (by omega) (by omega)]; omega
    simp only [e1, freeBytes_append, freeBytes, hb, if_true, Bool.false_eq_true, if_false]
    rw [u32_of_lt (by omega), sub32_of_le (by omega) (by omega)]
    omega
  · simp only [span_append, span]; omega
  · have := hx _ (mem_headsAt_mid 16 start l r b)
    exact setFree_other (by omega)

/-- `m'` is `m` with the headers at `a` and `nx` linked to each other. -/
structure Joined (m m' : Mem) (a nx : Nat) : Prop where
  left : hdr m' a = { hdr m a with dmNextMemory := nx }
  right : hdr m' nx = { hdr m nx with dmPreviousMemory := a }
  other : ∀ x, (x < a ∨ a + 16 ≤ x) → (x < nx ∨ nx + 16 ≤ x) → m' x = m x

theorem joined_linked {m m' : Mem} {c : Blk} {p : Nat}
    (hj : Joined m m' (start + span 16 l) (start + span 16 l + 16 + b.size + 16 + c.size))
    (h : Linked (hdr m) pool start p start (l ++ b :: c :: r)) :
    Linked (hdr m') pool start p start (l ++ ⟨b.size + 16 + c.size, b.free⟩ :: r) :=
  linked_merge h hj.left hj.right fun x hx => hdr_congr fun y _ _ => hj.other y (by omega) (by omega)

theorem joined_offHeads {m m' : Mem} {c : Blk}
    (hj : Joined m m' (start + span 16 l) (start + span 16 l + 16 + b.size + 16 + c.size)) :
    OffHeads start (l ++ b :: c :: r) m m' := fun x hx =>
  hj.other x (hx _ (mem_headsAt_mid 16 start l (c :: r) b)) (hx _ (by
    have := head_next start (l ++ [b]) r c
    simp only [span_append, span, List.append_assoc, List.cons_append, List.nil_append] at this
    rwa [show start + (span 16 l + (16 + b.size + 0)) + 16 + c.size =
      start + span 16 l + 16 + b.size + 16 + c.size by omega] at this))

theorem mergePrev_joined {f : FreeSt} (a nx : Nat) (hf : (hdr f.mem a).dmMemoryFree ≠ 0)
    (hp : (hdr f.mem f.headerPtr).dmPreviousMemory = a)
    (hn : (hdr f.mem f.headerPtr).dmNextMemory = nx) (h1 : a + 16 ≤ f.headerPtr)
    (h2 : f.headerPtr + 16 ≤ nx) : Joined f.mem (mergePrev f).mem a nx ∧
      (mergePrev f).headerPtr = a ∧ (mergePrev f).dmSearchPtr = a ∧
      (mergePrev f).dmAvailable = u32 (f.dmAvailable + 16) := by
  have hlt : nx < 4294967296 := hn ▸ hdr_next_lt f.mem f.headerPtr
  unfold mergePrev
  simp (disch := omega) only [hp, hf, ne_eq, not_false_eq_true, if_true, hn, hdr_setNext_other,
    hdr_setPrev_other, and_self, and_true]
  refine ⟨?_, ?_, fun x hx hx' => ?_⟩
  · rw [hdr_setPrev_other (by omega), hdr_setNext, u32_of_lt hlt]
  · rw [hdr_setPrev, hdr_setNext_other (by omega), u32_of_lt (by omega)]
  · rw [setPrev_other (by omega), setNext_other (by omega)]

theorem mergeNext_joined (f : FreeSt) (new nx : Nat) (hn : (hdr f.mem f.headerPtr).dmNextMemory = new)
    (hf : (hdr f.mem new).dmMemoryFree ≠ 0) (hn' : (hdr f.mem new).dmNextMemory = nx)
    (h1 : f.headerPtr + 16 ≤ new) (h2 : new + 16 ≤ nx) :
    Joined f.mem (mergeNext f).mem f.headerPtr nx ∧
      (mergeNext f).headerPtr = f.headerPtr ∧ (mergeNext f).dmSearchPtr = f.headerPtr ∧
      (mergeNext f).dmAvailable = u32 (f.dmAvailable + 16) := by
  have hlt : nx < 4294967296 := hn' ▸ hdr_next_lt f.mem new
  unfold mergeNext
  simp (disch := omega) only [hn, hf, ne_eq, not_false_eq_true, if_true, hn', hdr_setPrev_other,
    and_self, and_true]
  refine ⟨?_, ?_, fun x hx hx' => ?_⟩
  · rw [hdr_setNext, hdr_setPrev_other (by omega), u32_of_lt hlt]
  · rw [hdr_setNext_other (by omega), hdr_setPrev, u32_of_lt (by omega)]
  · rw [setNext_other (by omega), setPrev_other (by omega)]

theorem freeRep_joined {f g : FreeSt} {c : Blk}
    (hl : Linked (hdr f.mem) pool start (start + span 16 (l ++ b :: c :: r)) start (l ++ b :: c :: r))
    (hb : b.free = true) (hc : c.free = true)
    (hav : f.dmAvailable = freeBytes (l ++ b :: c :: r))
    (hbd : start + span 16 (l ++ b :: c :: r) + 16 ≤ 4294967296)
    (hj : Joined f.mem g.mem (start + span 16 l) (start + span 16 l + 16 + b.size + 16 + c.size))
    (hh : g.headerPtr = start + span 16 l) (hs : g.dmSearchPtr = start + span 16 l)
    (ha : g.dmAvailable = u32 (f.dmAvailable + 16)) :
    FreeRep pool start l ⟨b.size + 16 + c.size, true⟩ r g := by
  have hsp := span_merge 16 l r b c true
  have hfb := freeBytes_merge 16 (l := l) (r := r) hb hc
  have hle := freeBytes_le_span (l ++ ⟨b.size + 16 + c.size, true⟩ :: r)
  refine ⟨?_, hh, rfl, hs ▸ mem_headsAt_mid 16 start l r _, ?_, hsp ▸ hbd⟩
  · rw [hsp]
    have := joined_linked hj hl
    rwa [hb] at this
  · rw [ha, hav, u32_of_lt (by omega), hfb]

theorem mergePrev_free {f : FreeSt} {c : Blk} (h : FreeRep pool start (l ++ [c]) b r f)
    (hc : c.free = true) :
    FreeRep pool start l ⟨c.size + 16 + b.size, true⟩ r (mergePrev f) ∧
    OffHeads start (l ++ [c] ++ b :: r) f.mem (mergePrev f).mem := by
  have hhd := linked_head h.linked
  have hhp := h.header
  have e : l ++ [c] ++ b :: r = l ++ c :: b :: r := by simp
  rw [lastHead_snoc] at hhd
  simp only [span_append, span] at hhd hhp
  rw [show start + (span 16 l + (16 + c.size + 0)) = start + span 16 l + 16 + c.size by omega]
    at hhd hhp
  obtain ⟨hl, -, hb, -, hav, hbd⟩ := h
  rw [e] at hl hav hbd ⊢
  have hhc := linked_head hl
  obtain ⟨hj, h1, h2, h3⟩ := mergePrev_joined (start + span 16 l)
    (start + span 16 l + 16 + c.size + 16 + b.size)
    (by rw [hhc, hc]; exact flag_ne_zero.mpr rfl) (by rw [hhp, hhd]) (by rw [hhp, hhd])
    (by omega) (by omega)
  exact ⟨freeRep_joined hl hc hb hav hbd hj h1 h2 h3, joined_offHeads hj⟩

theorem mergePrev_used {f : FreeSt} (h : FreeRep pool start l b r f)
    (hc : ∀ c ∈ l.getLast?, c.free = false) : mergePrev f = f := by
  have hhd := linked_head h.linked
  unfold mergePrev
  rw [h.header, hhd]
  rcases l.eq_nil_or_concat with rfl | ⟨l, c, rfl⟩
  · simp only [lastHead, h.linked.2]; simp [cFalse]
  · have hl := h.linked
    have hf := hc c (by simp)
    simp only [List.concat_eq_append, lastHead_snoc, List.append_assoc] at hl ⊢
    rw [linked_head hl, hf]
    simp [flag, cFalse]

theorem mergeNext_rep {f : FreeSt} (h : FreeRep pool start l b r f) :
    Linked (hdr (mergeNext f).mem) pool start (start + span 16 (l ++ absorbNext 16 b r)) start
      (l ++ absorbNext 16 b r) ∧
    (mergeNext f).dmSearchPtr ∈ headsAt 16 start (l ++ absorbNext 16 b r) ∧
    (mergeNext f).dmAvailable = freeBytes (l ++ absorbNext 16 b r) ∧
    OffHeads start (l ++ b :: r) f.mem (mergeNext f).mem := by
  have hhd := linked_head h.linked
  have hnx := (linked_next h.linked).2
  have hstay : (∀ c ∈ r.head?, c.free = false) → mergeNext f = f := by
    intro hr
    unfold mergeNext
    rw [h.header, hhd]
    simp only
    rw [hnx]
    cases r with
    | nil => simp [cFalse]
    | cons c r => simp [hr c (by simp), flag, cFalse]
  cases r with
  | nil => rw [hstay (by simp)]; exact ⟨h.linked, h.search, h.avail, fun x _ => rfl⟩
  | cons c r =>
    by_cases hc : c.free = true
    · have hl := h.linked
      have e : l ++ b :: c :: r = l ++ [b] ++ c :: r := by simp
      have hhc := (linked_cons.mp (linked_cons.mp (linked_append.mp hl).2).2).1
      obtain ⟨hj, h1, h2, h3⟩ := mergeNext_joined f (start + span 16 l + 16 + b.size)
        (start + span 16 l + 16 + b.size + 16 + c.size) (by rw [h.header, hhd])
        (by rw [hhc, hc]; exact flag_ne_zero.mpr rfl) (by rw [hhc]) (by rw [h.header]; omega)
        (by omega)
      rw [h.header] at hj h1 h2
      have := freeRep_joined hl h.free hc h.avail h.bound hj h1 h2 h3
      simp only [absorbNext, hc, if_true]
      exact ⟨this.linked, this.search, this.avail, joined_offHeads hj⟩
    · rw [hstay (by simpa using hc)]
      simp only [absorbNext, hc]
      exact ⟨h.linked, h.search, h.avail, fun x _ => rfl⟩

theorem OffHeads.trans {m m' m'' : Mem} {bs' : List Blk} (h : OffHeads start bs m m')
    (h' : OffHeads start bs' m' m'') (hsub : ∀ y ∈ headsAt 16 start bs', y ∈ headsAt 16 start bs) :
    OffHeads start bs m m'' :=
  fun x hx => (h' x fun y hy => hx y (hsub y hy)).trans (h x hx)

theorem merges_rep {f : FreeSt} (h : FreeRep pool start l b r f) :
    Linked (hdr (mergeNext (mergePrev f)).mem) pool start
      (start + span 16 (release 16 l b.size r)) start (release 16 l b.size r) ∧
    (mergeNext (mergePrev f)).dmSearchPtr ∈ headsAt 16 start (release 16 l b.size r) ∧
    (mergeNext (mergePrev f)).dmAvailable = freeBytes (release 16 l b.size r) ∧
    OffHeads start (l ++ b :: r) f.mem (mergeNext (mergePrev f)).mem := by
  have hb : b = ⟨b.size, true⟩ := by rw [← h.free]
  rcases snoc_free_or l with ⟨l, c, rfl, hc⟩ | hc
  · obtain ⟨hp, hpo⟩ := mergePrev_free h hc
    obtain ⟨h1, h2, h3, h4⟩ := mergeNext_rep hp
    rw [release_snoc 16 hc]
    refine ⟨h1, h2, h3, hpo.trans h4 fun y hy => ?_⟩
    have := headsAt_merge 16 hy
    simpa using this
  · rw [mergePrev_used h hc, release_used 16 hc, ← hb]
    exact mergeNext_rep h

theorem PoolRep.freeMem (h : PoolRep pool start size min s (l ++ b :: r)) (hb : b.free = false) :
    PoolRep pool start size min (osFreeMem s (start + span 16 l + 16)) (release 16 l b.size r) ∧
    OffHeads start (l ++ b :: r) s.mem (osFreeMem s (start + span 16 l + 16)).mem := by
  have hsub : osFreeMem s (start + span 16 l + 16) = freeBlock s (start + span 16 l) := by
    have hlt := h.span_lt
    have ht := h.tile
    have hbd := h.bound
    simp only [span_append, span] at hlt ht
    have e : sub32 (start + span 16 l + 16) 16 = start + span 16 l := by
      rw [sub32_of_le (by omega) (by omega)]; omega
    unfold osFreeMem dmOverhead
    rw [e]
  have hhd := linked_head h.linked
  obtain ⟨hm, hmo⟩ := markFree_rep h hb
  obtain ⟨k1, k2, k3, k4⟩ := merges_rep hm
  rw [hsub]
  unfold freeBlock
  simp only [hhd, Heap.setPcb]
  generalize mergeNext (mergePrev (markFree s.mem (s.pcb pool) (start + span 16 l))) = g at *
  refine ⟨⟨k1, ?_, h.bound, h.ptr, ?_, ?_, ?_, noAdj_release 16 hb h.noAdj, ?_⟩, fun x hx => ?_⟩
  · rw [span_release]; exact h.tile
  · simp only [if_true]; exact h.list
  · simp only [if_true]; exact k2
  · simp only [if_true]; exact k3
  · simp only [if_true]; exact h.minAlloc
  · refine (k4 x fun y hy => hx y ?_).trans (hmo x hx)
    rwa [headsAt_flag 16 start l r b.size true b.free] at hy

end

end GizwitsSdk
