import GizwitsSdk.OsDmemRuns
import Mathlib.Algebra.Ring.Nat

/-!
# The header list of a pool, and what a full pool means

`PoolOk` reads the invariant of a pool off its headers and its control block.
It holds in every run of a pool on which the split test of `osGetMem` does not
wrap, and there `osGetMem` fails only when no free block is large enough. On
any other pool the request for the whole area splits at the trailer, which
becomes a free header linked to itself.
-/

namespace GizwitsSdk

open Lib

/-! ## The list of headers -/

def freePayload (m : Mem) (a : Nat) : Nat :=
  if (hdr m a).dmMemoryFree ≠ 0 then (hdr m a).dmNextMemory - a - 16 else 0

/-- The pool of `size` bytes at `start` is the list `hs` of headers. -/
structure PoolOk (pool start size : Nat) (s : Heap) (hs : List Nat) : Prop where
  list : (s.pcb pool).dmMemoryList = start ∧ hs.head? = some start
  ring : Ring (fun a => (hdr s.mem a).dmNextMemory) hs
  sorted : hs.Pairwise (· < ·)
  prev : ∀ a ∈ hs, (hdr s.mem (hdr s.mem a).dmNextMemory).dmPreviousMemory = a
  room : hs.IsChain fun a b => a + dmOverhead ≤ b
  trailer : hs.getLast? = some (start + size - dmOverhead)
  used : (hdr s.mem (start + size - dmOverhead)).dmMemoryFree = 0
  noAdj : hs.IsChain fun a b => (hdr s.mem a).dmMemoryFree ≠ 0 → (hdr s.mem b).dmMemoryFree = 0
  search : (s.pcb pool).dmSearchPtr ∈ hs
  avail : (s.pcb pool).dmAvailable = (hs.map (freePayload s.mem)).sum

/-- One free block of all the area but two headers. -/
def OneBlock (start size : Nat) (s : Heap) (hs : List Nat) : Prop :=
  hs = [start, start + size - dmOverhead] ∧ freePayload s.mem start = size - 2 * dmOverhead

section
variable {pool start size min p a : Nat} {s : Heap} {bs : List Blk} {V : Nat → DmHeader}

theorem linked_prev (h : Linked V pool start p a bs) {x : Nat} (hx : x ∈ headsAt 16 a bs)
    (hne : x ≠ a + span 16 bs) : (V (V x).dmNextMemory).dmPreviousMemory = x := by
  rcases (mem_headsAt 16).mp hx with rfl | ⟨l, b, r, rfl, rfl⟩
  · exact absurd rfl hne
  · rw [linked_head h]
    exact (linked_next h).1

theorem linked_first (h : Linked V pool start p a bs) : (V a).dmPreviousMemory = p := by
  cases bs with
  | nil => have := h.2; simp only [span, Nat.add_zero, lastHead] at this; rw [this]
  | cons b bs => rw [(linked_cons.mp h).1]

theorem linked_noAdj (h : Linked V pool start p a bs) (hn : NoAdj bs) :
    (headsAt 16 a bs).IsChain fun x y =>
      (V x).dmMemoryFree ≠ 0 → (V y).dmMemoryFree = 0 := by
  induction bs generalizing p a with
  | nil => exact List.isChain_singleton _
  | cons b bs ih =>
    obtain ⟨h1, h2⟩ := linked_cons.mp h
    obtain ⟨hb, hn⟩ := noAdj_cons.mp hn
    rw [headsAt, List.isChain_cons]
    refine ⟨fun y hy hf => ?_, ih h2 hn⟩
    rw [h1] at hf
    have hf := flag_ne_zero.mp hf
    cases bs with
    | nil =>
      have := h2.2
      simp only [span, Nat.add_zero, lastHead] at this
      simp only [headsAt, List.head?_cons, Option.mem_some_iff] at hy
      rw [← hy, this]
    | cons c bs =>
      simp only [headsAt, List.head?_cons, Option.mem_some_iff] at hy
      rw [← hy, (linked_cons.mp h2).1, hb c (by simp) hf]; rfl

theorem linked_avail {m : Mem} (h : Linked (hdr m) pool start p a bs) :
    ((headsAt 16 a bs).map (freePayload m)).sum = freeBytes bs := by
  induction bs generalizing p a with
  | nil =>
    have := h.2
    simp only [span, Nat.add_zero, lastHead] at this
    simp [headsAt, freePayload, this, freeBytes, cFalse]
  | cons b bs ih =>
    obtain ⟨h1, h2⟩ := linked_cons.mp h
    rw [headsAt, List.map_cons, List.sum_cons, ih h2, freeBytes, freePayload, h1]
    simp only [flag_ne_zero, ne_eq]
    cases b.free <;> simp; omega

theorem PoolRep.poolOk (h : PoolRep pool start size min s bs) :
    PoolOk pool start size s (headsAt 16 start bs) := by
  have ht : start + size - 16 = start + span 16 bs := by have := h.tile; omega
  refine ⟨⟨h.list, by cases bs <;> rfl⟩, linked_ring h.linked, headsAt_sorted 16 (by decide) start bs,
    fun a ha => ?_, headsAt_room 16 start bs, ?_, ?_, linked_noAdj h.linked h.noAdj, h.search, ?_⟩
  · by_cases he : a = start + span 16 bs
    · rw [he, h.linked.2, linked_first h.linked]
    · exact linked_prev h.linked ha he
  · rw [headsAt_getLast]; exact congrArg some ht.symm
  · show (hdr s.mem (start + size - 16)).dmMemoryFree = 0
    rw [ht, h.linked.2]
  · rw [h.avail, linked_avail h.linked]

/-- With nothing in use, blocks without free neighbours are at most one. -/
theorem noAdj_all_free (hn : NoAdj bs) (hf : usedAt 16 a bs = []) :
    bs = [] ∨ ∃ b, bs = [b] ∧ b.free = true := by
  rcases bs with _ | ⟨b, _ | ⟨c, bs⟩⟩
  · exact .inl rfl
  · cases hb : b.free with
    | true => exact .inr ⟨b, rfl, hb⟩
    | false => simp [usedAt, hb] at hf
  · have hb : b.free = true := by
      by_contra hb
      simp [usedAt, hb] at hf
    have hc := (noAdj_cons.mp hn).1 c (by simp) hb
    simp [usedAt, hb, hc] at hf

theorem PoolRep.oneBlock (h : PoolRep pool start size min s bs) (hsz : 32 ≤ size)
    (hf : usedAt 16 start bs = []) : OneBlock start size s (headsAt 16 start bs) := by
  have ht := h.tile
  rcases noAdj_all_free h.noAdj hf with rfl | ⟨b, rfl, hb⟩
  · simp only [span] at ht; omega
  · have hd := (linked_cons.mp h.linked).1
    simp only [span] at ht
    refine ⟨?_, ?_⟩
    · simp only [headsAt, List.cons.injEq, and_true, true_and, dmOverhead]; omega
    · simp only [freePayload, hd, flag_ne_zero, ne_eq, hb, if_true, dmOverhead]
      omega

end

/-! ## A split test that wraps -/

section
variable {pool start size min p : Nat} {s : Heap}

/-- A split whose new header falls on the next one. -/
theorem splitBlock_self {m : Mem} {a new : Nat} (hp : pool < 4294967296)
    (hnx : (hdr m a).dmNextMemory = new) (h1 : a + 16 ≤ new) :
    hdr (splitBlock m pool a new) a = { hdr m a with dmNextMemory := new } ∧
    hdr (splitBlock m pool a new) new = ⟨new, new, cTrue, pool⟩ := by
  have hlt : new < 4294967296 := hnx ▸ hdr_next_lt m a
  unfold splitBlock
  simp (disch := omega) only [hdr_setNext, hdr_setPrev, hdr_setFree, hdr_setPool, hdr_setNext_other,
    hdr_setPrev_other, hdr_setFree_other, hdr_setPool_other, hnx, u32_of_lt, and_self]

/-- A pool that its first block, in use, and a free trailer linked to itself share. -/
structure Torn (pool start size min : Nat) (s : Heap) : Prop where
  list : (s.pcb pool).dmMemoryList = start
  minAlloc : (s.pcb pool).dmMinAllocation = min
  search : (s.pcb pool).dmSearchPtr = start + size - 16
  first : (hdr s.mem start).dmNextMemory = start + size - 16 ∧ (hdr s.mem start).dmMemoryFree = 0
  trailer : (hdr s.mem (start + size - 16)).dmNextMemory = start + size - 16 ∧
    (hdr s.mem (start + size - 16)).dmMemoryFree ≠ 0

/-- Where the split test wraps, asking a new pool for all it has tears it. -/
theorem getMem_torn (h : PoolRep pool start size min s [⟨size - 32, true⟩])
    (hsp : (s.pcb pool).dmSearchPtr = start) (h4 : size % 4 = 0) (h32 : 32 ≤ size)
    (hlt : size < 4294967296) (h0 : 0 < min) (hw : ¬ SplitFits size min) :
    ∃ s', osGetMem 1 s pool (size - 32) = some (s', .osErrNone, start + 16) ∧
      Torn pool start size min s' := by
  have hbd := h.bound
  have hhd := (linked_cons.mp h.linked).1
  unfold SplitFits at hw
  have hreq : requestSize min (size - 32) = size - 32 := by
    rw [requestSize, if_neg (by omega), u32_of_lt (by omega)]; omega
  have hfs : freeSize s.mem start = size - 32 := by
    have := freeSize_block (l := []) (r := []) h.linked h.span_lt
    simpa [span] using this
  have e1 : u32 (size - 32 + 16 + min) ≤ size - 32 := by unfold u32; omega
  have e2 : u32 (start + (size - 32) + 16) = start + 16 + (size - 32) := by
    rw [u32_of_lt (by omega)]; omega
  obtain ⟨f1, f2⟩ := splitBlock_self h.ptr (show (hdr s.mem start).dmNextMemory = _ by rw [hhd])
    (show start + 16 ≤ start + 16 + (size - 32) by omega)
  have et : start + size - 16 = start + 16 + (size - 32) := by omega
  refine ⟨takeBlock s pool (size - 32) start (size - 32), ?_, ?_⟩
  · unfold osGetMem
    simp only [h.minAlloc, hreq, hsp, scan, hfs, Nat.lt_irrefl, if_false, Nat.le_refl, if_true]
    rw [u32_of_lt (show start + 16 < 4294967296 by omega)]
  · unfold takeBlock
    simp only [Heap.setPcb, h.minAlloc, dmOverhead, e1, if_true, e2, hsp]
    have g2 : hdr (setFree (splitBlock s.mem pool start (start + 16 + (size - 32))) start cFalse)
        (start + 16 + (size - 32)) = ⟨start + 16 + (size - 32), start + 16 + (size - 32), cTrue, pool⟩ := by
      rw [hdr_setFree_other (by omega), f2]
    constructor <;> simp [et, h.list, hdr_setFree, f1, g2, cTrue, cFalse]

end

/-! ## Runs -/

abbrev roundMin (minAllocation : Nat) : Nat := u32 (minAllocation + 4 - 1) / 4 * 4

section
variable {pool start poolSize minAllocation : Nat} {name : List UInt8} {s : Heap}

theorem roundMin_pos (hmin : 1 ≤ minAllocation) (hroom : 2 * dmOverhead + minAllocation ≤ poolSize)
    (hlt : poolSize < 4294967296) : 0 < roundMin minAllocation := by
  simp only [dmOverhead] at hroom
  unfold roundMin
  rw [u32_of_lt (by omega)]; omega

theorem PoolReach.runInv (hmin : 1 ≤ minAllocation)
    (hroom : 2 * dmOverhead + minAllocation ≤ poolSize) (hlt : poolSize < 4294967296)
    (hfit : start + poolSize ≤ 4294967296) (hp : pool < 4294967296)
    (hw : SplitFits (poolSize / 4 * 4) (roundMin minAllocation)) {t : Heap × List Nat}
    (h : PoolReach pool start poolSize minAllocation name s t) :
    RunInv pool start (poolSize / 4 * 4) (roundMin minAllocation) t := by
  have hpos := roundMin_pos hmin hroom hlt
  simp only [dmOverhead] at hroom
  induction h with
  | refl => exact ⟨_, create_rep s minAllocation name (by omega) hlt hfit hp, by simp [usedAt]⟩
  | tail _ hstep ih => exact runInv_step hw (Nat.mul_mod_left _ _) hpos ih hstep

variable (name s) in
/-- Where the split test wraps, one call tears the new pool. -/
theorem PoolReach.torn (hmin : 1 ≤ minAllocation)
    (hroom : 2 * dmOverhead + minAllocation ≤ poolSize) (hlt : poolSize < 4294967296)
    (hfit : start + poolSize ≤ 4294967296) (hp : pool < 4294967296)
    (hw : ¬ SplitFits (poolSize / 4 * 4) (roundMin minAllocation)) :
    ∃ s', PoolReach pool start poolSize minAllocation name s (s', [start + 16]) ∧
      Torn pool start (poolSize / 4 * 4) (roundMin minAllocation) s' := by
  have hpos := roundMin_pos hmin hroom hlt
  simp only [dmOverhead] at hroom
  obtain ⟨s', h1, h2⟩ := getMem_torn
    (create_rep s minAllocation name (by omega) hlt hfit hp)
    (by simp [osCreateMemoryPool, Heap.setPcb]) (Nat.mul_mod_left _ _) (by omega) (by omega) hpos hw
  exact ⟨s', .single (.get (by omega) h1), h2⟩

/-- **The list of a pool.** In every run of a new pool the headers form its
list, one free block when nothing is held, exactly when no split test wraps. -/
theorem pool_list_iff (hmin : 1 ≤ minAllocation)
    (hroom : 2 * dmOverhead + minAllocation ≤ poolSize) (hlt : poolSize < 4294967296)
    (hfit : start + poolSize ≤ 4294967296) (hp : pool < 4294967296) :
    (∀ t live, PoolReach pool start poolSize minAllocation name s (t, live) →
      ∃ hs, PoolOk pool start (poolSize / 4 * 4) t hs ∧
        (live = [] → OneBlock start (poolSize / 4 * 4) t hs)) ↔
    SplitFits (poolSize / 4 * 4) (roundMin minAllocation) := by
  constructor
  · intro h
    by_contra hw
    obtain ⟨s', hr, ht⟩ := PoolReach.torn name s hmin hroom hlt hfit hp hw
    obtain ⟨hs, hok, -⟩ := h _ _ hr
    exact ht.trailer.2 hok.used
  · intro hw t live hr
    obtain ⟨bs, hrep, hl⟩ := hr.runInv hmin hroom hlt hfit hp hw
    refine ⟨_, hrep.poolOk, fun he => hrep.oneBlock ?_ ?_⟩
    · simp only [dmOverhead] at hroom; omega
    · subst he
      simpa using hl

end

def bootHeap : Heap := ⟨fun _ => 0, fun _ => ⟨0, [], 0, 0, 0, 0, 0, 0⟩, 0⟩

/-- The system pool: its 20480 bytes at the start of RAM, 16 bytes at least a block. -/
theorem pool_list_system : SplitFits 20480 16 ∧
    ∀ t live, PoolReach 0x20010000 0x20000000 20480 16 [] bootHeap (t, live) →
      ∃ hs, PoolOk 0x20010000 0x20000000 20480 t hs ∧
        (live = [] → OneBlock 0x20000000 20480 t hs) :=
  ⟨.inr (by decide), (pool_list_iff (by decide) (by decide) (by decide) (by decide) (by decide)).mpr
    (.inr (by decide))⟩

/-- A pool of 2^31 + 32 bytes with a minimum of 2^31 is torn by its first call. -/
theorem pool_list_torn :
    ¬ ∀ t live, PoolReach 0x1000 0x2000 0x80000020 0x80000000 [] bootHeap (t, live) →
      ∃ hs, PoolOk 0x1000 0x2000 0x80000020 t hs ∧ (live = [] → OneBlock 0x2000 0x80000020 t hs) := by
  intro h
  obtain ⟨s', hr, ht⟩ := @PoolReach.torn 0x1000 0x2000 0x80000020 0x80000000 [] bootHeap (by decide)
    (by decide) (by decide) (by decide) (by decide) (by unfold SplitFits; decide)
  obtain ⟨hs, hok, -⟩ := h _ _ hr
  exact ht.trailer.2 hok.used

/-! ## Complete searches -/

/-- A header that the list from `dmMemoryList` reaches. -/
def InList (pool : Nat) (s : Heap) (a : Nat) : Prop :=
  ∃ k, (fun x => (hdr s.mem x).dmNextMemory)^[k] (s.pcb pool).dmMemoryList = a

/-- A free block of the list has a payload of `need` bytes. -/
def HasBlock (pool : Nat) (s : Heap) (need : Nat) : Prop :=
  ∃ a, InList pool s a ∧ (hdr s.mem a).dmMemoryFree ≠ 0 ∧
    a + dmOverhead + need ≤ (hdr s.mem a).dmNextMemory

/-- `osGetMem` ends, and fails just when no free block is large enough; then
it changes nothing. -/
def SearchOk (pool n : Nat) (s : Heap) : Prop :=
  ∃ f s' e p, (∀ fuel, f ≤ fuel → osGetMem fuel s pool n = some (s', e, p)) ∧
    (e = .osErrMemFull ↔ ¬ HasBlock pool s (max ((n + 3) / 4 * 4) (s.pcb pool).dmMinAllocation)) ∧
    (e = .osErrMemFull → s' = s ∧ p = 0)

/-- `s`, or `s` with the search pointer on another header of the list. -/
def Roving (pool : Nat) (s s' : Heap) : Prop :=
  s' = s ∨ ∃ q, InList pool s q ∧ s' = s.setPcb pool { s.pcb pool with dmSearchPtr := q }

section
variable {pool start size min n : Nat} {s s' : Heap} {bs : List Blk}

theorem PoolRep.inList (h : PoolRep pool start size min s bs) {a : Nat} :
    InList pool s a ↔ a ∈ headsAt 16 start bs := by
  obtain ⟨xs, e⟩ : ∃ xs, headsAt 16 start bs = start :: xs := by cases bs <;> exact ⟨_, rfl⟩
  have hr := linked_ring h.linked
  unfold InList
  rw [h.list, e]
  rw [e] at hr
  exact (ring_mem _ hr).symm

theorem PoolRep.hasBlock (h : PoolRep pool start size min s bs) :
    HasBlock pool s n ↔ ∃ b ∈ bs, b.free = true ∧ n ≤ b.size := by
  have hlt := h.span_lt
  constructor
  · rintro ⟨a, ha, hf, hsz⟩
    rcases (mem_headsAt 16).mp (h.inList.mp ha) with rfl | ⟨l, b, r, rfl, rfl⟩
    · rw [h.linked.2] at hf; exact absurd rfl hf
    · rw [linked_head h.linked] at hf hsz
      simp only [dmOverhead] at hsz
      exact ⟨b, by simp, flag_ne_zero.mp hf, by omega⟩
  · rintro ⟨b, hb, hf, hsz⟩
    obtain ⟨l, r, rfl⟩ := List.append_of_mem hb
    refine ⟨_, h.inList.mpr (mem_headsAt_mid 16 start l r b), ?_⟩
    rw [linked_head h.linked]
    simp only [dmOverhead]
    exact ⟨flag_ne_zero.mpr hf, by omega⟩

theorem PoolRep.roving (h : PoolRep pool start size min s bs) (hr : Roving pool s s') :
    PoolRep pool start size min s' bs := by
  rcases hr with rfl | ⟨q, hq, rfl⟩
  · exact h
  · have hq := h.inList.mp hq
    obtain ⟨h1, h2, h3, h4, h5, -, h7, h8, h9⟩ := h
    exact ⟨h1, h2, h3, h4, by simpa [Heap.setPcb] using h5, by simpa [Heap.setPcb] using hq,
      by simpa [Heap.setPcb] using h7, h8, by simpa [Heap.setPcb] using h9⟩

theorem PoolRep.searchOk (h : PoolRep pool start size min s bs) (h4 : min % 4 = 0) (h0 : 0 < min)
    (hn : n + 3 < 4294967296) : SearchOk pool n s := by
  have hreq := requestSize_eq h4 hn
  have hpos : 0 < requestSize min n := by omega
  have hhas := h.hasBlock (n := max ((n + 3) / 4 * 4) min)
  unfold SearchOk
  rw [h.minAlloc]
  by_cases hf : ∃ b ∈ bs, b.free = true ∧ requestSize min n ≤ b.size
  · obtain ⟨l, b, r, -, -, -, hr⟩ := h.getMem_found hpos hf
    refine ⟨_, _, _, _, hr, ⟨fun e => OsErr.noConfusion e, fun hno => ?_⟩,
      fun e => OsErr.noConfusion e⟩
    exact absurd (hhas.mpr (hreq ▸ hf)) hno
  · have hf' : ∀ b ∈ bs, b.free = true → b.size < requestSize min n := fun b hb hfree =>
      Nat.lt_of_not_le fun hle => hf ⟨b, hb, hfree, hle⟩
    refine ⟨_, _, _, _, fun fuel hl => h.getMem_full hpos hf' hl, ⟨fun _ hh => ?_, fun _ => rfl⟩,
      fun _ => ⟨rfl, rfl⟩⟩
    exact hf (hreq ▸ hhas.mp hh)

theorem Torn.not_searchOk (h : Torn pool start size min s) (h0 : 0 < min) (hm : min < 4294967264)
    (h4 : min % 4 = 0) : ¬ SearchOk pool 1 s := by
  rintro ⟨f, s', e, p, hr, hiff, -⟩
  have hlt : start + size - 16 < 4294967296 := by
    rw [← h.first.1]; exact hdr_next_lt _ _
  have hreq : requestSize min 1 = min := by rw [requestSize, if_pos (by omega)]
  have hfs : freeSize s.mem (start + size - 16) = 4294967280 := by
    simp only [freeSize, h.trailer.1, h.trailer.2, ne_eq, not_false_eq_true, if_true]
    have e1 : sub32 (start + size - 16) (start + size - 16) = 0 := by
      rw [sub32_of_le (Nat.le_refl _) hlt, Nat.sub_self]
    rw [e1]; rfl
  have hno : ¬ HasBlock pool s (max ((1 + 3) / 4 * 4) min) := by
    rintro ⟨a, ⟨k, rfl⟩, hf, hsz⟩
    -- the list never leaves the first header and the trailer
    have hk : (fun x => (hdr s.mem x).dmNextMemory)^[k] (s.pcb pool).dmMemoryList = start ∨
        (fun x => (hdr s.mem x).dmNextMemory)^[k] (s.pcb pool).dmMemoryList = start + size - 16 := by
      clear hf hsz
      induction k with
      | zero => exact .inl h.list
      | succ k ih =>
        rw [Function.iterate_succ_apply']
        rcases ih with ih | ih
        · rw [ih]; exact .inr h.first.1
        · rw [ih]; exact .inr h.trailer.1
    rcases hk with hk | hk
    · rw [hk] at hf; exact hf h.first.2
    · rw [hk, h.trailer.1] at hsz
      simp only [dmOverhead] at hsz; omega
  have hrun := hr (f + 1) (Nat.le_succ f)
  rw [osGetMem] at hrun
  simp only [h.minAlloc, hreq, h.search, scan, hfs, if_neg (show ¬ 4294967280 < min by omega),
    if_pos (show min ≤ 4294967280 by omega), Option.some_inj, Prod.mk.injEq] at hrun
  rw [h.minAlloc] at hiff
  have := hiff.mpr hno
  rw [← hrun.2.1] at this
  cases this

end

section
variable {pool start poolSize minAllocation : Nat} {name : List UInt8} {s : Heap}

/-- **Complete searches.** In every run of a new pool, from any header and for
any size, `osGetMem` ends and fails only for want of a block, exactly when no
split test wraps. -/
theorem search_complete_iff (hmin : 1 ≤ minAllocation)
    (hroom : 2 * dmOverhead + minAllocation ≤ poolSize) (hlt : poolSize < 4294967296)
    (hfit : start + poolSize ≤ 4294967296) (hp : pool < 4294967296) :
    (∀ t live, PoolReach pool start poolSize minAllocation name s (t, live) →
      ∀ t', Roving pool t t' → ∀ n, n + 3 < 4294967296 → SearchOk pool n t') ↔
    SplitFits (poolSize / 4 * 4) (roundMin minAllocation) := by
  have hpos := roundMin_pos hmin hroom hlt
  constructor
  · intro h
    by_contra hw
    obtain ⟨s', hr, ht⟩ := PoolReach.torn name s hmin hroom hlt hfit hp hw
    refine ht.not_searchOk hpos ?_ (Nat.mul_mod_left _ _) (h _ _ hr _ (.inl rfl) 1 (by decide))
    simp only [dmOverhead] at hroom
    unfold SplitFits at hw
    omega
  · intro hw t live hr t' hq n hn
    obtain ⟨bs, hrep, -⟩ := hr.runInv hmin hroom hlt hfit hp hw
    exact (hrep.roving hq).searchOk (Nat.mul_mod_left _ _) hpos hn

end

/-- The searches of the system pool. -/
theorem search_complete_system : SplitFits 20480 16 ∧
    ∀ t live, PoolReach 0x20010000 0x20000000 20480 16 [] bootHeap (t, live) →
      ∀ t', Roving 0x20010000 t t' → ∀ n, n + 3 < 4294967296 → SearchOk 0x20010000 n t' :=
  ⟨.inr (by decide), (search_complete_iff (by decide) (by decide) (by decide) (by decide) (by decide)).mpr
    (.inr (by decide))⟩

/-- The torn pool of 2^31 + 32 bytes grants a word it does not have. -/
theorem search_torn :
    ¬ ∀ t live, PoolReach 0x1000 0x2000 0x80000020 0x80000000 [] bootHeap (t, live) →
      ∀ t', Roving 0x1000 t t' → ∀ n, n + 3 < 4294967296 → SearchOk 0x1000 n t' := by
  intro h
  obtain ⟨s', hr, ht⟩ := @PoolReach.torn 0x1000 0x2000 0x80000020 0x80000000 [] bootHeap (by decide)
    (by decide) (by decide) (by decide) (by decide) (by unfold SplitFits; decide)
  exact ht.not_searchOk (by decide) (by decide) (by decide) (h _ _ hr _ (.inl rfl) 1 (by decide))

end GizwitsSdk
