import GizwitsSdk.OsDmemPool

/-!
# What the system pool grants

A block that `osGetMem`, `osmMalloc` or `osmCalloc` hands out is inside the
pool, as large as was asked and apart from every header and every block in
use. This fails for the requests whose size in words wraps 2^32: the last
three sizes, and for `osmCalloc` the products that 32 bits cut to something
the pool can serve.
-/

namespace GizwitsSdk

open Lib

/-- The block at `p`, granted for `n` bytes between `s` and `s'`, is sound. -/
structure GrantOk (pool start size : Nat) (s s' : Heap) (live : List Nat) (n p : Nat) : Prop where
  inside : start + dmOverhead ≤ p ∧ payloadEnd s'.mem p + dmOverhead ≤ start + size
  room : p + n ≤ payloadEnd s'.mem p
  apart : ∀ q ∈ live, payloadEnd s'.mem q ≤ p ∨ payloadEnd s'.mem p ≤ q
  heads : ∀ a, InList pool s' a → a + dmOverhead ≤ p ∨ payloadEnd s'.mem p ≤ a
  kept : ∀ q ∈ live, payloadEnd s'.mem q = payloadEnd s.mem q ∧
    ∀ x, q ≤ x → x < payloadEnd s.mem q → s'.mem x = s.mem x

section
variable {pool start size min n need : Nat} {s s' : Heap} {bs l r : List Blk} {b : Blk}
  {live : List Nat}

theorem takeBlock_grant (h : PoolRep pool start size min s (l ++ b :: r)) (hb : b.free = true)
    (hn : need ≤ b.size) (hw : need + 16 + min < 4294967296) (hle : n ≤ need)
    (hl : live.Perm ((usedAt 16 start (l ++ b :: r)).map (· + 16))) :
    GrantOk pool start size s (takeBlock s pool need (start + span 16 l) b.size) live n
      (start + span 16 l + 16) := by
  obtain ⟨hrep, hmem⟩ := takeBlock_rep h hb hn hw
  obtain ⟨z, cs, hc, hz⟩ := carve_head 16 min need b hn
  have hcs : span 16 (carve 16 min need b) = 16 + b.size := by
    have := span_carve 16 l r min need b
    simp only [span_append, span] at this; omega
  generalize takeBlock s pool need (start + span 16 l) b.size = s' at *
  have hrep' : PoolRep pool start size min s' (l ++ ⟨z, false⟩ :: (cs ++ r)) := by
    have := hrep
    rwa [hc, List.append_assoc, List.cons_append] at this
  have hend : payloadEnd s'.mem (start + span 16 l + 16) = start + span 16 l + 16 + z :=
    hrep'.payloadEnd_eq
  have hzb : z ≤ b.size := by
    rw [hc] at hcs
    simp only [span] at hcs; omega
  have ht := hrep'.tile
  simp only [span_append, span] at ht
  have hkept : ∀ q ∈ live, payloadEnd s'.mem q = payloadEnd s.mem q ∧
      (payloadEnd s.mem q ≤ start + span 16 l ∨ start + span 16 l + 32 + b.size ≤ q) := by
    intro q hq
    obtain ⟨l₁, c, r₁, e, hcf, rfl⟩ := RunInv.block hl hq
    obtain ⟨⟨l₂, r₂, e₂, hsp⟩, hpos⟩ := other_block 16 hcs e (by rw [hb, hcf]; decide)
    have h1 := h
    have h2 := hrep
    rw [e] at h1
    rw [e₂] at h2
    rw [h1.payloadEnd_eq, ← hsp, h2.payloadEnd_eq]
    refine ⟨rfl, ?_⟩
    rcases hpos with hpos | hpos <;> omega
  refine ⟨⟨?_, ?_⟩, ?_, fun q hq => ?_, fun a ha => ?_, fun q hq => ⟨(hkept q hq).1, fun x h1 h2 => ?_⟩⟩
  · show start + 16 ≤ _; omega
  · rw [hend]; show _ + 16 ≤ _; omega
  · rw [hend]; omega
  · obtain ⟨h1, h2⟩ := hkept q hq
    rw [h1, hend]; omega
  · rw [hend]
    show a + 16 ≤ _ ∨ _
    have := headsAt_apart 16 (hrep'.inList.mp ha)
    simp only at this ⊢; omega
  · exact hmem x (by have := (hkept q hq).2; omega)

theorem GrantOk.store {p : Nat} (s'' : Heap) (h : GrantOk pool start size s s' live n p)
    (hrep : PoolRep pool start size min s' bs)
    (hl : (p :: live).Perm ((usedAt 16 start bs).map (· + 16))) (hc : s''.pcb pool = s'.pcb pool)
    (hm : ∀ x, x < p ∨ p + n ≤ x → s''.mem x = s'.mem x) :
    PoolRep pool start size min s'' bs ∧ GrantOk pool start size s s'' live n p := by
  have hroom := h.room
  have hrep' : PoolRep pool start size min s'' bs := hrep.frame hc fun a ha y h1 h2 => hm y (by
    have : a + 16 ≤ p ∨ _ := h.heads a (hrep.inList.mpr ha)
    omega)
  have hend : ∀ q ∈ p :: live, payloadEnd s''.mem q = payloadEnd s'.mem q := by
    intro q hq
    obtain ⟨l, b, r, rfl, -, rfl⟩ := RunInv.block hl hq
    rw [hrep'.payloadEnd_eq, hrep.payloadEnd_eq]
  have hp := hend p List.mem_cons_self
  refine ⟨hrep', ⟨hp ▸ h.inside, hp ▸ h.room, fun q hq => ?_, fun a ha => ?_, fun q hq => ?_⟩⟩
  · rw [hp, hend q (List.mem_cons_of_mem _ hq)]
    exact h.apart q hq
  · rw [hp]
    exact h.heads a (hrep.inList.mpr (hrep'.inList.mp ha))
  · obtain ⟨h1, h2⟩ := h.kept q hq
    have := h.apart q hq
    exact ⟨(hend q (List.mem_cons_of_mem _ hq)).trans h1, fun x hx1 hx2 =>
      (hm x (by omega)).trans (h2 x hx1 hx2)⟩

theorem getMem_grant (hfit : SplitFits size min) (h4 : min % 4 = 0) (h0 : 0 < min)
    (hn : n + 3 < 4294967296) {fuel p : Nat} (hr : RunInv pool start size min (s, live))
    (h : osGetMem fuel s pool n = some (s', .osErrNone, p)) :
    GrantOk pool start size s s' live n p ∧ 16 ≤ p := by
  obtain ⟨bs, hrep, hl⟩ := hr
  obtain ⟨l, b, r, rfl, hb, hsz, hw, rfl, rfl⟩ := hrep.getMem_granted hfit h4 h0 hn h
  have hreq := requestSize_eq h4 hn
  exact ⟨takeBlock_grant hrep hb hsz hw (by omega) hl, by omega⟩

theorem GrantOk.lt {p : Nat} (h : GrantOk pool start size s s' live n p)
    (hb : start + size ≤ 4294967296) : n ≤ 0xFFFFFFFC := by
  have h1 := h.inside
  have h2 := h.room
  simp only [dmOverhead] at h1
  omega

theorem getMem_wraps (hrep : PoolRep pool start size min s bs) (hn : n < 4294967296)
    (hw : 0xFFFFFFFC < n) (hmin : min ≤ n) :
    osGetMem 1 s pool n = some (takeBlock s pool 0 (s.pcb pool).dmSearchPtr
      (freeSize s.mem (s.pcb pool).dmSearchPtr), .osErrNone, u32 ((s.pcb pool).dmSearchPtr + 16)) := by
  have hreq : requestSize min n = 0 := by
    rw [requestSize, if_neg (by omega)]
    unfold u32; omega
  unfold osGetMem
  simp [hrep.minAlloc, hreq, scan, dmOverhead]

end

/-! ## Runs of the system pool -/

section
variable (sysemPool osSystemMempool : Nat)

/-- A product that 32 bits hold with room for rounding, or that they cut to a
size which the pool cannot serve. -/
def CallocFits (s : Heap) (p : Nat) : Prop :=
  p ≤ 0xFFFFFFFC ∨ 0x100000000 ≤ p ∧ u32 p ≤ 0xFFFFFFFC ∧
    ¬ HasBlock osSystemMempool s (max ((u32 p + 3) / 4 * 4) 16)

/-- A step of the program around the system pool, each request within the
sizes that are served soundly. -/
inductive SysStep : Heap × List Nat → Heap × List Nat → Prop
  | get {fuel n p : Nat} {s s' : Heap} {live : List Nat} (hn : n ≤ 0xFFFFFFFC)
      (h : osGetMem fuel s osSystemMempool n = some (s', .osErrNone, p)) :
      SysStep (s, live) (s', p :: live)
  | malloc {fuel n p : Nat} {s s' : Heap} {live : List Nat} (hn : n ≤ 0xFFFFFFFC)
      (h : osmMalloc osSystemMempool fuel s n = some (s', p)) :
      SysStep (s, live) (s', if p = 0 then live else p :: live)
  | calloc {fuel count n p : Nat} {s s' : Heap} {live : List Nat}
      (hn : CallocFits osSystemMempool s (count * n))
      (h : osmCalloc osSystemMempool fuel s count n = some (s', p)) :
      SysStep (s, live) (s', if p = 0 then live else p :: live)
  | free {p : Nat} {s : Heap} {live : List Nat} (hp : p ∈ live) :
      SysStep (s, live) (osmFree s p, live.erase p)
  | client {s s' : Heap} {live : List Nat} (hc : s'.pcb osSystemMempool = s.pcb osSystemMempool)
      (hm : ∀ x, sysemPool ≤ x → x < sysemPool + osDmemPoolSize → s'.mem x ≠ s.mem x →
        ∃ p ∈ live, p ≤ x ∧ x < payloadEnd s.mem p) :
      SysStep (s, live) (s', live)

/-- The states of the system pool since `osDMemInit` in `s`. -/
def SysReach (s : Heap) : Heap × List Nat → Prop :=
  Relation.ReflTransGen (SysStep sysemPool osSystemMempool)
    (osDMemInit sysemPool osSystemMempool s, [])

variable {sysemPool osSystemMempool}
variable {s : Heap}

theorem splitFits_sys : SplitFits osDmemPoolSize 16 := .inr (by decide)

theorem osmMalloc_some {fuel n p : Nat} {s' : Heap}
    (h : osmMalloc osSystemMempool fuel s n = some (s', p)) :
    ∃ e q, osGetMem fuel s osSystemMempool n = some (s', e, q) ∧ p = if e = .osErrNone then q else 0 := by
  obtain ⟨⟨s₁, e, q⟩, h1, h2⟩ := Option.map_eq_some_iff.mp h
  simp only [Prod.mk.injEq] at h2
  obtain ⟨rfl, rfl⟩ := h2
  exact ⟨e, q, h1, rfl⟩

end

section
variable {sysemPool osSystemMempool n fuel p : Nat} {s s' : Heap} {live : List Nat}

theorem osmMalloc_cases (hr : RunInv osSystemMempool sysemPool osDmemPoolSize 16 (s, live))
    (hn : n ≤ 0xFFFFFFFC) (h : osmMalloc osSystemMempool fuel s n = some (s', p)) :
    (p ≠ 0 ∧ RunInv osSystemMempool sysemPool osDmemPoolSize 16 (s', p :: live) ∧
      GrantOk osSystemMempool sysemPool osDmemPoolSize s s' live n p ∧
      HasBlock osSystemMempool s (max ((n + 3) / 4 * 4) 16)) ∨
    (p = 0 ∧ s' = s) := by
  obtain ⟨e, q, h1, rfl⟩ := osmMalloc_some h
  cases e with
  | osErrNone =>
    have hg := getMem_grant splitFits_sys (by decide) (by decide) (by omega) hr h1
    refine .inl ⟨by simp only [if_true]; omega,
      runInv_get splitFits_sys (by decide) (by decide) (by omega) hr h1, hg.1, ?_⟩
    obtain ⟨bs, hrep, -⟩ := hr
    rcases hrep.getMem_cases (by decide) (by decide) (by omega) h1 with
      ⟨l, b, r, rfl, hb, hsz, -⟩ | ⟨-, e⟩
    · rw [requestSize_eq (by decide) (by omega)] at hsz
      exact hrep.hasBlock.mpr ⟨b, by simp, hb, hsz⟩
    · simp at e
  | osErrMemFull =>
    obtain ⟨bs, hrep, -⟩ := hr
    rcases hrep.getMem_cases (by decide) (by decide) (by omega) h1 with
      ⟨l, b, r, -, -, -, e⟩ | ⟨-, e⟩
    · simp at e
    · simp only [Prod.mk.injEq] at e
      exact .inr ⟨rfl, e.1⟩

theorem osmCalloc_some {count : Nat} (h : osmCalloc osSystemMempool fuel s count n = some (s', p)) :
    ∃ s₁, osmMalloc osSystemMempool fuel s (u32 (count * n)) = some (s₁, p) ∧
      s' = if p ≠ 0 then { s₁ with mem := memset s₁.mem p 0 (u32 (count * n)) } else s₁ := by
  obtain ⟨⟨s₁, q⟩, h1, h2⟩ := Option.map_eq_some_iff.mp h
  simp only [Prod.mk.injEq] at h2
  obtain ⟨rfl, rfl⟩ := h2
  exact ⟨s₁, h1, rfl⟩

theorem osmCalloc_cases {count : Nat}
    (hr : RunInv osSystemMempool sysemPool osDmemPoolSize 16 (s, live))
    (hn : u32 (count * n) ≤ 0xFFFFFFFC) (h : osmCalloc osSystemMempool fuel s count n = some (s', p)) :
    (p ≠ 0 ∧ RunInv osSystemMempool sysemPool osDmemPoolSize 16 (s', p :: live) ∧
      GrantOk osSystemMempool sysemPool osDmemPoolSize s s' live (u32 (count * n)) p ∧
      HasBlock osSystemMempool s (max ((u32 (count * n) + 3) / 4 * 4) 16)) ∨
    (p = 0 ∧ s' = s) := by
  obtain ⟨s₁, h1, rfl⟩ := osmCalloc_some h
  rcases osmMalloc_cases hr hn h1 with ⟨hp, ⟨bs, hrep, hl⟩, hg, hb⟩ | ⟨rfl, rfl⟩
  · obtain ⟨hrep', hg'⟩ := hg.store { s₁ with mem := memset s₁.mem p 0 (u32 (count * n)) }
      hrep hl rfl fun x hx => if_neg (by omega)
    rw [if_pos hp]
    exact .inl ⟨hp, ⟨bs, hrep', hl⟩, hg', hb⟩
  · exact .inr ⟨rfl, rfl⟩

theorem runInv_sysStep {t t' : Heap × List Nat}
    (hr : RunInv osSystemMempool sysemPool osDmemPoolSize 16 t)
    (h : SysStep sysemPool osSystemMempool t t') :
    RunInv osSystemMempool sysemPool osDmemPoolSize 16 t' := by
  cases h with
  | get hn h => exact runInv_get splitFits_sys (by decide) (by decide) (by omega) hr h
  | malloc hn h =>
    rcases osmMalloc_cases hr hn h with ⟨hp, hr', -⟩ | ⟨rfl, rfl⟩
    · rwa [if_neg hp]
    · exact hr
  | calloc hn h =>
    have hu : u32 _ ≤ 0xFFFFFFFC := hn.elim (fun h => (u32_of_lt (by omega)).trans_le h) (·.2.1)
    rcases osmCalloc_cases hr hu h with ⟨hp, hr', -⟩ | ⟨rfl, rfl⟩
    · rwa [if_neg hp]
    · exact hr
  | free hp => exact runInv_free hr hp
  | client hc hm => exact runInv_client hr hc hm

theorem SysReach.runInv (hfit : sysemPool + osDmemPoolSize < 4294967296)
    (hp : osSystemMempool < 4294967296) {t : Heap × List Nat}
    (h : SysReach sysemPool osSystemMempool s t) :
    RunInv osSystemMempool sysemPool osDmemPoolSize 16 t := by
  induction h with
  | refl =>
    exact ⟨_, @create_rep _ _ sysemPool osDmemPoolSize 16 _ (by decide) (by decide)
      (Nat.le_of_lt hfit) hp, by simp [usedAt]⟩
  | tail _ hstep ih => exact runInv_sysStep ih hstep

/-- A request that wraps succeeds, soundly for no size from 2^32 - 3 on. -/
theorem osmMalloc_wraps (hfit : sysemPool + osDmemPoolSize < 4294967296)
    (hr : RunInv osSystemMempool sysemPool osDmemPoolSize 16 (s, live)) (hn : n < 4294967296)
    (hw : 0xFFFFFFFC < n) : ∃ s' p, p ≠ 0 ∧
      osGetMem 1 s osSystemMempool n = some (s', .osErrNone, p) ∧
      osmMalloc osSystemMempool 1 s n = some (s', p) := by
  obtain ⟨bs, hrep, -⟩ := hr
  have h := getMem_wraps hrep hn hw (by omega)
  have hle := headsAt_le 16 hrep.search
  have ht := hrep.tile
  refine ⟨_, _, ?_, h, by simp only [osmMalloc, h, Option.map_some, if_true]⟩
  rw [u32_of_lt (by omega)]; omega

theorem osmMalloc_grants (hr : RunInv osSystemMempool sysemPool osDmemPoolSize 16 (s, live))
    (hn : n ≤ 0xFFFFFFFC) (hb : HasBlock osSystemMempool s (max ((n + 3) / 4 * 4) 16)) :
    ∃ fuel s' p, p ≠ 0 ∧ osmMalloc osSystemMempool fuel s n = some (s', p) := by
  obtain ⟨bs, hrep, -⟩ := hr
  rw [← requestSize_eq (by decide) (by omega)] at hb
  obtain ⟨l, b, r, -, -, -, h⟩ := hrep.getMem_found (n := n)
    (by rw [requestSize_eq (by decide) (by omega)]; omega) (hrep.hasBlock.mp hb)
  refine ⟨(headsAt 16 sysemPool bs).length, takeBlock s osSystemMempool (requestSize 16 n)
    (sysemPool + span 16 l) b.size, sysemPool + span 16 l + 16, by omega, ?_⟩
  unfold osmMalloc
  rw [h _ (Nat.le_refl _)]
  rfl

theorem osmCalloc_of_malloc {count : Nat} (hp : p ≠ 0)
    (h : osmMalloc osSystemMempool fuel s (u32 (count * n)) = some (s', p)) :
    ∃ s'', osmCalloc osSystemMempool fuel s count n = some (s'', p) :=
  ⟨_, by simp only [osmCalloc, h, Option.map_some, hp, ne_eq, not_false_eq_true, if_true]; rfl⟩

theorem osmCalloc_wraps {count : Nat} (hfit : sysemPool + osDmemPoolSize < 4294967296)
    (hr : RunInv osSystemMempool sysemPool osDmemPoolSize 16 (s, live))
    (hw : ¬ CallocFits osSystemMempool s (count * n)) :
    0xFFFFFFFC < count * n ∧ ∃ fuel s' p, p ≠ 0 ∧ osmCalloc osSystemMempool fuel s count n = some (s', p) := by
  unfold CallocFits at hw
  refine ⟨Nat.lt_of_not_le fun h => hw (.inl h), ?_⟩
  by_cases hu : u32 (count * n) ≤ 0xFFFFFFFC
  · have hb : HasBlock osSystemMempool s (max ((u32 (count * n) + 3) / 4 * 4) 16) := by
      by_contra hb
      refine hw (Decidable.or_iff_not_imp_left.mpr fun h => ⟨?_, hu, hb⟩)
      by_contra hlt
      rw [u32_of_lt (by omega)] at hu
      exact h hu
    obtain ⟨fuel, s', p, hp, h⟩ := osmMalloc_grants hr hu hb
    obtain ⟨s'', h'⟩ := osmCalloc_of_malloc hp h
    exact ⟨_, _, _, hp, h'⟩
  · obtain ⟨s', p, hp, -, h⟩ := osmMalloc_wraps hfit hr (u32_lt _) (Nat.lt_of_not_le hu)
    obtain ⟨s'', h'⟩ := osmCalloc_of_malloc hp h
    exact ⟨_, _, _, hp, h'⟩

/-- **Sound grants.** In every run of the system pool, `osGetMem` and
`osmMalloc` grant soundly exactly the sizes that can be rounded up, and
`osmCalloc` the products that fit. -/
theorem grants_sound_iff (hfit : sysemPool + osDmemPoolSize < 4294967296)
    (hp : osSystemMempool < 4294967296) (hr : SysReach sysemPool osSystemMempool s (s', live)) :
    (∀ n, n < 4294967296 → ((∀ fuel t p, osGetMem fuel s' osSystemMempool n = some (t, .osErrNone, p) →
      GrantOk osSystemMempool sysemPool osDmemPoolSize s' t live n p) ↔ n ≤ 0xFFFFFFFC)) ∧
    (∀ n, n < 4294967296 → ((∀ fuel t p, osmMalloc osSystemMempool fuel s' n = some (t, p) → p ≠ 0 →
      GrantOk osSystemMempool sysemPool osDmemPoolSize s' t live n p) ↔ n ≤ 0xFFFFFFFC)) ∧
    (∀ count n, count < 4294967296 → n < 4294967296 →
      ((∀ fuel t p, osmCalloc osSystemMempool fuel s' count n = some (t, p) → p ≠ 0 →
        GrantOk osSystemMempool sysemPool osDmemPoolSize s' t live (count * n) p) ↔
      CallocFits osSystemMempool s' (count * n))) := by
  have hinv := hr.runInv hfit hp
  have hle : sysemPool + osDmemPoolSize ≤ 4294967296 := Nat.le_of_lt hfit
  refine ⟨fun n hn => ⟨fun h => ?_, fun hn fuel t p h => ?_⟩,
    fun n hn => ⟨fun h => ?_, fun hn fuel t p h hp0 => ?_⟩,
    fun count n _ _ => ⟨fun h => ?_, fun hc fuel t p h hp0 => ?_⟩⟩
  · by_contra hw
    obtain ⟨t, p, hp0, h1, -⟩ := osmMalloc_wraps hfit hinv hn (Nat.lt_of_not_le hw)
    exact hw ((h _ _ _ h1).lt hle)
  · exact (getMem_grant splitFits_sys (by decide) (by decide) (by omega) hinv h).1
  · by_contra hw
    obtain ⟨t, p, hp0, -, h1⟩ := osmMalloc_wraps hfit hinv hn (Nat.lt_of_not_le hw)
    exact hw ((h _ _ _ h1 hp0).lt hle)
  · rcases osmMalloc_cases hinv hn h with ⟨-, -, hg, -⟩ | ⟨rfl, -⟩
    · exact hg
    · exact absurd rfl hp0
  · by_contra hw
    obtain ⟨hlt, fuel, t, p, hp0, h1⟩ := osmCalloc_wraps hfit hinv hw
    exact absurd ((h _ _ _ h1 hp0).lt hle) (Nat.not_le.mpr hlt)
  · rcases hc with hc | ⟨hc, hu, hno⟩
    · have hu : u32 (count * n) = count * n := u32_of_lt (by omega)
      rcases osmCalloc_cases hinv (hu.trans_le hc) h with ⟨-, -, hg, -⟩ | ⟨rfl, -⟩
      · rwa [hu] at hg
      · exact absurd rfl hp0
    · rcases osmCalloc_cases hinv hu h with ⟨-, -, -, hb⟩ | ⟨rfl, -⟩
      · exact absurd hb hno
      · exact absurd rfl hp0

end

/-- The new system pool, at the start of RAM. -/
theorem grants_sound_new :
    (∀ n, n < 4294967296 → ((∀ fuel t p, osGetMem fuel (osDMemInit 0x20000000 0x20010000 bootHeap)
      0x20010000 n = some (t, .osErrNone, p) → GrantOk 0x20010000 0x20000000 osDmemPoolSize
        (osDMemInit 0x20000000 0x20010000 bootHeap) t [] n p) ↔ n ≤ 0xFFFFFFFC)) ∧
    (∀ n, n < 4294967296 → ((∀ fuel t p, osmMalloc 0x20010000 fuel
      (osDMemInit 0x20000000 0x20010000 bootHeap) n = some (t, p) → p ≠ 0 →
        GrantOk 0x20010000 0x20000000 osDmemPoolSize
          (osDMemInit 0x20000000 0x20010000 bootHeap) t [] n p) ↔ n ≤ 0xFFFFFFFC)) :=
  have h := grants_sound_iff (by decide) (by decide) .refl
  ⟨h.1, h.2.1⟩

/-- `OSMMalloc(0xFFFFFFFF)` on the new pool returns a block that is too small. -/
theorem grants_wrap :
    ¬ ∀ t live, SysReach 0x20000000 0x20010000 bootHeap (t, live) → ∀ n, n < 4294967296 →
      ∀ fuel t' p, osmMalloc 0x20010000 fuel t n = some (t', p) → p ≠ 0 →
        GrantOk 0x20010000 0x20000000 osDmemPoolSize t t' live n p := by
  intro h
  have hr : SysReach 0x20000000 0x20010000 bootHeap (osDMemInit 0x20000000 0x20010000 bootHeap, []) := .refl
  obtain ⟨t', p, hp, -, h1⟩ := osmMalloc_wraps (n := 0xFFFFFFFF) (by decide)
    (hr.runInv (by decide) (by decide)) (by decide) (by decide)
  exact absurd ((h _ _ hr _ (by decide) _ _ _ h1 hp).lt (by decide)) (by decide)

end GizwitsSdk
