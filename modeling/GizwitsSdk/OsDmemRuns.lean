import GizwitsSdk.OsDmemOps
import Mathlib.Logic.Relation

/-!
# Runs of a pool

The clients of a pool call `osGetMem` and `osFreeMem` and store into the
blocks they hold. `RunInv` says that the pool is a list of blocks whose used
ones are those the clients hold; every step keeps it, as long as the minimum
allocation is not so large that the split test of `osGetMem` wraps.
-/

namespace GizwitsSdk

open Lib

/-! ## Creation -/

theorem create_rep (s : Heap) {pool start poolSize : Nat} (minAllocation : Nat) (name : List UInt8)
    (hsz : 32 ≤ poolSize / 4 * 4) (hlt : poolSize < 4294967296)
    (hfit : start + poolSize ≤ 4294967296) (hp : pool < 4294967296) :
    PoolRep pool start (poolSize / 4 * 4) (u32 (minAllocation + 4 - 1) / 4 * 4)
      (osCreateMemoryPool s pool name start poolSize minAllocation)
      [⟨poolSize / 4 * 4 - 32, true⟩] := by
  have hle : poolSize / 4 * 4 ≤ poolSize := Nat.div_mul_le_self _ _
  generalize hP : poolSize / 4 * 4 = P at *
  have e1 : sub32 P 32 = P - 32 := sub32_of_le hsz (by omega)
  have e2 : u32 (start + (P - 32) + 16) = start + 16 + (P - 32) := by
    rw [u32_of_lt (by omega)]; omega
  have e3 : start + (16 + (P - 32) + 0) = start + 16 + (P - 32) := by omega
  refine ⟨?_, ?_, by omega, hp, ?_, ?_, ?_, ?_, ?_⟩
  · simp (disch := omega) only [Linked, Seg, span, lastHead, osCreateMemoryPool, Heap.setPcb, hP,
      dmOverhead, Nat.reduceMul, e1, e2, e3, hdr_setNext, hdr_setPrev, hdr_setFree, hdr_setPool,
      hdr_setNext_other, hdr_setPrev_other, hdr_setFree_other, hdr_setPool_other, u32_of_lt]
    simp [flag]
  · simp only [span]; omega
  all_goals simp [osCreateMemoryPool, Heap.setPcb, headsAt, freeBytes, NoAdj, hP, dmOverhead, e1]

/-! ## Requests -/

theorem requestSize_eq {min n : Nat} (h4 : min % 4 = 0) (hn : n + 3 < 4294967296) :
    requestSize min n = max ((n + 3) / 4 * 4) min := by
  unfold requestSize
  rw [show n + 4 - 1 = n + 3 by omega, u32_of_lt hn]
  split <;> omega

/-- The split test of `osGetMem` does not wrap on a pool of `size` bytes. -/
def SplitFits (size min : Nat) : Prop := size < 32 + min ∨ size + min < 4294967296 + 16

/-! ## Steps -/

/-- The end of the payload at `p`, as the header in front of it has it. -/
def payloadEnd (m : Mem) (p : Nat) : Nat := (hdr m (p - 16)).dmNextMemory

/-- A step of the program around the pool at `pool`, whose area is the `size`
bytes at `start`, with the pointers that clients hold. -/
inductive PoolStep (pool start size : Nat) : Heap × List Nat → Heap × List Nat → Prop
  | get {fuel n p : Nat} {s s' : Heap} {live : List Nat} (hn : n + 3 < 4294967296)
      (h : osGetMem fuel s pool n = some (s', .osErrNone, p)) :
      PoolStep pool start size (s, live) (s', p :: live)
  | full {fuel n p : Nat} {s s' : Heap} {live : List Nat} (hn : n + 3 < 4294967296)
      (h : osGetMem fuel s pool n = some (s', .osErrMemFull, p)) :
      PoolStep pool start size (s, live) (s', live)
  | free {p : Nat} {s : Heap} {live : List Nat} (hp : p ∈ live) :
      PoolStep pool start size (s, live) (osFreeMem s p, live.erase p)
  -- stores into held blocks, and whatever happens outside the area
  | client {s s' : Heap} {live : List Nat} (hc : s'.pcb pool = s.pcb pool)
      (hm : ∀ x, start ≤ x → x < start + size → s'.mem x ≠ s.mem x →
        ∃ p ∈ live, p ≤ x ∧ x < payloadEnd s.mem p) :
      PoolStep pool start size (s, live) (s', live)

/-- The states of a pool since its creation in `s`. -/
def PoolReach (pool start poolSize minAllocation : Nat) (name : List UInt8) (s : Heap) :
    Heap × List Nat → Prop :=
  Relation.ReflTransGen (PoolStep pool start (poolSize / 4 * 4))
    (osCreateMemoryPool s pool name start poolSize minAllocation, [])

/-- The pool is the list of blocks `bs`, the used ones held by the clients. -/
def RunInv (pool start size min : Nat) (t : Heap × List Nat) : Prop :=
  ∃ bs, PoolRep pool start size min t.1 bs ∧ t.2.Perm ((usedAt 16 start bs).map (· + 16))

section
variable {pool start size min n : Nat} {s s' : Heap} {bs l r : List Blk} {b : Blk} {live : List Nat}

theorem PoolRep.size_le (h : PoolRep pool start size min s (l ++ b :: r)) :
    b.size + 32 ≤ size := by
  have := h.tile
  simp only [span_append, span] at this
  omega

theorem PoolRep.getMem_cases (h : PoolRep pool start size min s bs) (h4 : min % 4 = 0)
    (h0 : 0 < min) (hn : n + 3 < 4294967296) {fuel : Nat} {x : Heap × OsErr × Nat}
    (hx : osGetMem fuel s pool n = some x) :
    (∃ l b r, bs = l ++ b :: r ∧ b.free = true ∧ requestSize min n ≤ b.size ∧
      x = (takeBlock s pool (requestSize min n) (start + span 16 l) b.size, .osErrNone,
        start + span 16 l + 16)) ∨
    ((∀ b ∈ bs, b.free = true → b.size < requestSize min n) ∧ x = (s, .osErrMemFull, 0)) := by
  have hpos : 0 < requestSize min n := by rw [requestSize_eq h4 hn]; omega
  have hmono := osGetMem_mono (Nat.le_max_left fuel (headsAt 16 start bs).length) hx
  by_cases hf : ∃ b ∈ bs, b.free = true ∧ requestSize min n ≤ b.size
  · obtain ⟨l, b, r, e, hb, hsz, hr⟩ := h.getMem_found hpos hf
    rw [hr _ (Nat.le_max_right _ _), Option.some_inj] at hmono
    exact .inl ⟨l, b, r, e, hb, hsz, hmono.symm⟩
  · have hf' : ∀ b ∈ bs, b.free = true → b.size < requestSize min n := fun b hb hfree =>
      Nat.lt_of_not_le fun hle => hf ⟨b, hb, hfree, hle⟩
    rw [h.getMem_full hpos hf' (Nat.le_max_right _ _), Option.some_inj] at hmono
    exact .inr ⟨hf', hmono.symm⟩

/-- A request that is served takes a block, and the sums stay in 32 bits. -/
theorem PoolRep.getMem_granted (h : PoolRep pool start size min s bs) (hfit : SplitFits size min) (h4 : min % 4 = 0)
    (h0 : 0 < min) (hn : n + 3 < 4294967296) {fuel p : Nat}
    (hx : osGetMem fuel s pool n = some (s', .osErrNone, p)) :
    ∃ l b r, bs = l ++ b :: r ∧ b.free = true ∧ requestSize min n ≤ b.size ∧
      requestSize min n + 16 + min < 4294967296 ∧
      s' = takeBlock s pool (requestSize min n) (start + span 16 l) b.size ∧ p = start + span 16 l + 16 := by
  rcases h.getMem_cases h4 h0 hn hx with ⟨l, b, r, rfl, hb, hsz, e⟩ | ⟨-, e⟩
  · simp only [Prod.mk.injEq, true_and] at e
    have hle := h.size_le
    have hreq := requestSize_eq h4 hn
    have hw : requestSize min n + 16 + min < 4294967296 := by
      rcases hfit with hfit | hfit <;> omega
    exact ⟨l, b, r, rfl, hb, hsz, hw, e.1, e.2⟩
  · simp at e

theorem RunInv.block {p : Nat} (hl : live.Perm ((usedAt 16 start bs).map (· + 16))) (hp : p ∈ live) :
    ∃ l b r, bs = l ++ b :: r ∧ b.free = false ∧ p = start + span 16 l + 16 := by
  obtain ⟨a, ha, rfl⟩ := List.mem_map.mp (hl.mem_iff.mp hp)
  obtain ⟨l, b, r, e, hb, rfl⟩ := (mem_usedAt 16).mp ha
  exact ⟨l, b, r, e, hb, rfl⟩

theorem PoolRep.payloadEnd_eq (h : PoolRep pool start size min s (l ++ b :: r)) :
    payloadEnd s.mem (start + span 16 l + 16) = start + span 16 l + 16 + b.size := by
  unfold payloadEnd
  rw [Nat.add_sub_cancel, linked_head h.linked]

theorem PoolRep.frame (h : PoolRep pool start size min s bs) (hc : s'.pcb pool = s.pcb pool)
    (hm : ∀ x ∈ headsAt 16 start bs, ∀ y, x ≤ y → y < x + 16 → s'.mem y = s.mem y) :
    PoolRep pool start size min s' bs := by
  obtain ⟨h1, h2, h3, h4, h5, h6, h7, h8, h9⟩ := h
  exact ⟨linked_congr (fun x hx => hdr_congr (hm x hx)) h1, h2, h3, h4, hc ▸ h5, hc ▸ h6, hc ▸ h7,
    h8, hc ▸ h9⟩

theorem runInv_get (hfit : SplitFits size min) (h4 : min % 4 = 0) (h0 : 0 < min)
    (hn : n + 3 < 4294967296) {fuel p : Nat} (hr : RunInv pool start size min (s, live))
    (h : osGetMem fuel s pool n = some (s', .osErrNone, p)) :
    RunInv pool start size min (s', p :: live) := by
  obtain ⟨bs, hrep, hl⟩ := hr
  obtain ⟨l, b, r, rfl, hb, hsz, hw, rfl, rfl⟩ := hrep.getMem_granted hfit h4 h0 hn h
  refine ⟨_, (takeBlock_rep hrep hb hsz hw).1, ?_⟩
  exact (hl.cons _).trans ((usedAt_carve 16 start hb).map (· + 16)).symm

theorem runInv_free {p : Nat} (hr : RunInv pool start size min (s, live)) (hp : p ∈ live) :
    RunInv pool start size min (osFreeMem s p, live.erase p) := by
  obtain ⟨bs, hrep, hl⟩ := hr
  obtain ⟨l, b, r, rfl, hb, rfl⟩ := RunInv.block hl hp
  refine ⟨_, (hrep.freeMem hb).1, ?_⟩
  have := (hl.trans ((usedAt_release 16 hb).map (· + 16))).erase (start + span 16 l + 16)
  rwa [List.map_cons, List.erase_cons_head] at this

theorem runInv_client (hr : RunInv pool start size min (s, live)) (hc : s'.pcb pool = s.pcb pool)
    (hm : ∀ x, start ≤ x → x < start + size → s'.mem x ≠ s.mem x →
      ∃ p ∈ live, p ≤ x ∧ x < payloadEnd s.mem p) :
    RunInv pool start size min (s', live) := by
  obtain ⟨bs, hrep, hl⟩ := hr
  refine ⟨bs, hrep.frame hc fun a ha x h1 h2 => ?_, hl⟩
  by_contra hne
  have hge := headsAt_ge 16 ha
  have hle := headsAt_le 16 ha
  have ht := hrep.tile
  obtain ⟨p, hp, hp1, hp2⟩ := hm x (by omega) (by omega) hne
  obtain ⟨l, b, r, rfl, hb, rfl⟩ := RunInv.block hl hp
  rw [hrep.payloadEnd_eq] at hp2
  rcases headsAt_apart 16 ha with h | h | h <;> omega

theorem runInv_step (hfit : SplitFits size min) (h4 : min % 4 = 0) (h0 : 0 < min)
    {t t' : Heap × List Nat} (hr : RunInv pool start size min t) (h : PoolStep pool start size t t') :
    RunInv pool start size min t' := by
  cases h with
  | get hn h => exact runInv_get hfit h4 h0 hn hr h
  | full hn h =>
    obtain ⟨bs, hrep, hl⟩ := hr
    rcases hrep.getMem_cases h4 h0 hn h with ⟨l, b, r, rfl, hb, hsz, e⟩ | ⟨-, e⟩
    · simp at e
    · simp only [Prod.mk.injEq] at e
      obtain ⟨rfl, -⟩ := e
      exact ⟨bs, hrep, hl⟩
  | free hp => exact runInv_free hr hp
  | client hc hm => exact runInv_client hr hc hm

end

end GizwitsSdk
