import Mathlib.Data.Finset.Basic
import Mathlib.Data.Finset.Lattice.Lemmas

/-!
# A heap seen from outside

Which blocks are live, and whether something has been given back that was not.
The answer of an allocator is a parameter; an answer that is live already
counts as a refusal. Over the heap stand programs that allocate, free and ask
the outside, with triples for them.
-/

namespace Lib

structure BlockHeap where
  live : Finset Nat
  doubleFree : Bool

def BlockHeap.malloc (answer : Option Nat) (h : BlockHeap) : Option Nat × BlockHeap :=
  match answer with
  | none => (none, h)
  | some b => if b ∈ h.live then (none, h) else (some b, { h with live := insert b h.live })

/-- `NULL` is left alone. -/
def BlockHeap.free (p : Option Nat) (h : BlockHeap) : BlockHeap :=
  match p with
  | none => h
  | some b => if b ∈ h.live then { h with live := h.live.erase b } else { h with doubleFree := true }

/-- `h` is `h0` with the blocks `bs` taken. -/
structure BlockHeap.Holds (h0 : BlockHeap) (bs : List Nat) (h : BlockHeap) : Prop where
  live : h.live = bs.toFinset ∪ h0.live
  fresh : ∀ b ∈ bs, b ∉ h0.live
  nodup : bs.Nodup
  doubleFree : h.doubleFree = h0.doubleFree

namespace BlockHeap
variable {h0 h : BlockHeap} {bs : List Nat} {b : Nat} {answer : Option Nat}

theorem Holds.refl (h : BlockHeap) : Holds h [] h :=
  ⟨by rw [List.toFinset_nil, Finset.empty_union], fun _ hb => absurd hb List.not_mem_nil, List.nodup_nil, rfl⟩

theorem malloc_none (hm : (h.malloc answer).1 = none) : (h.malloc answer).2 = h := by
  unfold malloc at hm ⊢
  cases answer with
  | none => rfl
  | some b =>
    simp only at hm ⊢
    split at hm
    · next hb => rw [if_pos hb]
    · cases hm

theorem malloc_some (hm : (h.malloc answer).1 = some b) :
    b ∉ h.live ∧ (h.malloc answer).2 = { h with live := insert b h.live } := by
  unfold malloc at hm ⊢
  cases answer with
  | none => cases hm
  | some c =>
    simp only at hm ⊢
    split at hm
    · cases hm
    · next hb =>
      cases hm
      rw [if_neg hb]
      exact ⟨hb, rfl⟩

theorem free_malloc (hm : (h.malloc answer).1 = some b) : ((h.malloc answer).2).free (some b) = h := by
  obtain ⟨hb, he⟩ := malloc_some hm
  rw [he]
  simp only [free, Finset.mem_insert_self, if_true, Finset.erase_insert hb]

theorem Holds.malloc (H : Holds h0 bs h) (hm : (h.malloc answer).1 = some b) :
    Holds h0 (b :: bs) (h.malloc answer).2 := by
  obtain ⟨hb, he⟩ := malloc_some hm
  rw [H.live, Finset.mem_union, List.mem_toFinset, not_or] at hb
  rw [he]
  refine ⟨?_, ?_, List.nodup_cons.mpr ⟨hb.1, H.nodup⟩, H.doubleFree⟩
  · rw [List.toFinset_cons, Finset.insert_union, H.live]
  · intro c hc
    rcases List.mem_cons.mp hc with rfl | hc
    · exact hb.2
    · exact H.fresh c hc

theorem Holds.free (H : Holds h0 bs h) (hb : b ∈ bs) : Holds h0 (bs.erase b) (h.free (some b)) := by
  have hl : b ∈ h.live := by
    rw [H.live]
    exact Finset.mem_union_left _ (List.mem_toFinset.mpr hb)
  simp only [BlockHeap.free, hl, if_true]
  refine ⟨?_, fun c hc => H.fresh c (List.mem_of_mem_erase hc), H.nodup.erase b, H.doubleFree⟩
  ext c
  rw [H.live, Finset.mem_erase, Finset.mem_union, Finset.mem_union, List.mem_toFinset, List.mem_toFinset,
    H.nodup.mem_erase_iff]
  constructor
  · rintro ⟨hne, hc | hc⟩
    · exact .inl ⟨hne, hc⟩
    · exact .inr hc
  · rintro (⟨hne, hc⟩ | hc)
    · exact ⟨hne, .inl hc⟩
    · exact ⟨fun e => H.fresh b hb (e ▸ hc), .inr hc⟩

theorem Holds.balanced (H : Holds h0 [] h) : h = h0 := by
  obtain ⟨l, d⟩ := h
  obtain ⟨l0, d0⟩ := h0
  have h1 := H.live
  have h2 := H.doubleFree
  simp only [List.toFinset_nil, Finset.empty_union] at h1 h2
  rw [h1, h2]

/-- Some block is taken. -/
def Keeps (h0 h : BlockHeap) : Prop := ∃ b bs, Holds h0 (b :: bs) h

theorem Keeps.leaks (H : Keeps h0 h) : h.live ≠ h0.live := by
  obtain ⟨b, bs, H⟩ := H
  intro he
  have hb : b ∈ h.live := by
    rw [H.live]
    exact Finset.mem_union_left _ (List.mem_toFinset.mpr List.mem_cons_self)
  exact H.fresh b List.mem_cons_self (he ▸ hb)

end BlockHeap

/-! ## Programs -/

/-- A program over the heap and the number of its calls to the outside. It has
no outcome after a store through `NULL`. -/
abbrev HeapM := StateT (BlockHeap × Nat) Option

/-- No block is larger than the address space: a negative size is one that is. -/
def mallocM (answer : Nat → Int → Option Nat) (size : Int) : HeapM (Option Nat) := fun s =>
  let r := s.1.malloc (if size < 0 then none else answer s.2 size)
  some (r.1, (r.2, s.2 + 1))

def freeM (p : Option Nat) : HeapM Unit := fun s => some ((), (s.1.free p, s.2))

def outsideM {α : Type} (answer : Nat → α) : HeapM α := fun s => some (answer s.2, (s.1, s.2 + 1))

def storeM (p : Option Nat) : HeapM Unit := fun s => if p = none then none else some ((), s)

/-- The program returns with the blocks live that were live, and nothing freed twice. -/
def Balances {α : Type} (m : HeapM α) (s : BlockHeap × Nat) : Prop :=
  ∃ a s', m s = some (a, s') ∧ s'.1.live = s.1.live ∧ s'.1.doubleFree = s.1.doubleFree

/-- From `P` the program returns, and in `Q`. -/
def Triple {α : Type} (P : BlockHeap → Prop) (m : HeapM α) (Q : α → BlockHeap → Prop) : Prop :=
  ∀ s, P s.1 → ∃ a s', m s = some (a, s') ∧ Q a s'.1

/-- From `P` the program returns in `Q`, if it does. -/
def IfReturns {α : Type} (P : BlockHeap → Prop) (m : HeapM α) (Q : α → BlockHeap → Prop) : Prop :=
  ∀ s a s', P s.1 → m s = some (a, s') → Q a s'.1

section
variable {α β : Type} {P : BlockHeap → Prop} {m : HeapM α} {f : α → HeapM β} {Q : α → BlockHeap → Prop}
  {R : β → BlockHeap → Prop} {h0 : BlockHeap} {b : Nat} {bs : List Nat} {answer : Nat → Int → Option Nat}
  {size : Int}

theorem Triple.pure {a : α} (h : ∀ h, P h → Q a h) : Triple P (pure a : HeapM α) Q :=
  fun s hs => ⟨a, s, rfl, h s.1 hs⟩

theorem Triple.bind (hm : Triple P m Q) (hf : ∀ a, Triple (Q a) (f a) R) : Triple P (m >>= f) R := by
  intro s hs
  obtain ⟨a, s₁, h₁, hq⟩ := hm s hs
  obtain ⟨c, s₂, h₂, hr⟩ := hf a s₁ hq
  refine ⟨c, s₂, ?_, hr⟩
  show (m s).bind (fun r => f r.1 r.2) = some (c, s₂)
  rw [h₁]
  exact h₂

theorem Triple.ifReturns (h : Triple P m Q) : IfReturns P m Q := by
  intro s a s' hs hm
  obtain ⟨a', s'', h', hq⟩ := h s hs
  rw [hm] at h'
  cases h'
  exact hq

theorem IfReturns.bind (hm : IfReturns P m Q) (hf : ∀ a, IfReturns (Q a) (f a) R) :
    IfReturns P (m >>= f) R := by
  intro s c s₂ hs h
  change (m s).bind (fun r => f r.1 r.2) = some (c, s₂) at h
  obtain ⟨⟨a, s₁⟩, h₁, h₂⟩ := Option.bind_eq_some_iff.mp h
  exact hf a s₁ c s₂ (hm s a s₁ hs h₁) h₂

theorem mallocM_triple :
    Triple (h0.Holds bs) (mallocM answer size) fun p => h0.Holds (p.toList ++ bs) := by
  intro s hs
  refine ⟨_, _, rfl, ?_⟩
  cases hm : (s.1.malloc (if size < 0 then none else answer s.2 size)).1 with
  | none =>
    rw [BlockHeap.malloc_none hm]
    exact hs
  | some b => exact hs.malloc hm

theorem mallocM_bind {s : BlockHeap × Nat} {q : Option Nat} {f : Option Nat → HeapM β}
    (hm : (s.1.malloc (if size < 0 then none else answer s.2 size)).1 = q) :
    (mallocM answer size >>= f) s =
      f q ((s.1.malloc (if size < 0 then none else answer s.2 size)).2, s.2 + 1) := by
  subst hm
  rfl

theorem outsideM_triple {answer : Nat → α} : Triple P (outsideM answer) fun _ => P :=
  fun _ hs => ⟨_, _, rfl, hs⟩

theorem freeM_null : Triple P (freeM none) fun _ => P := fun _ hs => ⟨_, _, rfl, hs⟩

theorem freeM_newest : Triple (h0.Holds (b :: bs)) (freeM (some b)) fun _ => h0.Holds bs := by
  intro s hs
  have h := hs.free List.mem_cons_self
  rw [List.erase_cons_head] at h
  exact ⟨_, _, rfl, h⟩

theorem freeM_oldest (bs : List Nat) : Triple (h0.Holds (bs ++ [b])) (freeM (some b)) fun _ => h0.Holds bs := by
  intro s hs
  have hb : b ∉ bs := fun hb => (List.disjoint_of_nodup_append hs.nodup) hb List.mem_cons_self
  have h := hs.free (List.mem_append_right bs List.mem_cons_self)
  rw [List.erase_append_right _ hb, List.erase_cons_head, List.append_nil] at h
  exact ⟨_, _, rfl, h⟩

theorem mallocM_keeps : Triple h0.Keeps (mallocM answer size) fun _ => h0.Keeps := by
  rintro s ⟨b, bs, hs⟩
  obtain ⟨p, s', h, hp⟩ := mallocM_triple s hs
  refine ⟨p, s', h, ?_⟩
  cases p with
  | none => exact ⟨b, bs, hp⟩
  | some c => exact ⟨c, b :: bs, hp⟩

theorem storeM_ifReturns {p : Option Nat} : IfReturns P (storeM p) fun _ => P := by
  intro s a s' hs h
  unfold storeM at h
  split at h
  · cases h
  · cases h
    exact hs

theorem storeM_taken {p : Option Nat} :
    IfReturns (h0.Holds (p.toList ++ bs)) (storeM p) fun _ => h0.Keeps := by
  intro s a s' hs h
  cases p with
  | none => cases h
  | some b =>
    cases h
    exact ⟨b, bs, hs⟩

theorem balances_of_triple (h : ∀ h0, Triple (BlockHeap.Holds h0 []) m fun _ => BlockHeap.Holds h0 [])
    (s : BlockHeap × Nat) : Balances m s := by
  obtain ⟨a, s', hm, hs⟩ := h s.1 s (.refl s.1)
  exact ⟨a, s', hm, by rw [hs.balanced], by rw [hs.balanced]⟩

theorem triple_of_balances (h : ∀ s, Balances m s) : Triple (h0.Holds bs) m fun _ => h0.Holds bs := by
  intro s hs
  obtain ⟨a, s', hm, hl, hd⟩ := h s
  exact ⟨a, s', hm, hl.trans hs.live, hs.fresh, hs.nodup, hd.trans hs.doubleFree⟩

theorem balances_discard {s : BlockHeap × Nat} : Balances (do let _ ← m; return ()) s ↔ Balances m s := by
  constructor
  · rintro ⟨u, s', h, hs⟩
    change (m s).bind (fun r => some ((), r.2)) = some (u, s') at h
    obtain ⟨⟨a, s₁⟩, h₁, h₂⟩ := Option.bind_eq_some_iff.mp h
    cases h₂
    exact ⟨a, s₁, h₁, hs⟩
  · rintro ⟨a, s', h, hs⟩
    refine ⟨(), s', ?_, hs⟩
    show (m s).bind (fun r => some ((), r.2)) = some ((), s')
    rw [h]
    rfl

theorem not_balances_of_keeps (h : ∀ h0, IfReturns (BlockHeap.Holds h0 []) m fun _ => h0.Keeps)
    (s : BlockHeap × Nat) :
    ¬ Balances m s := by
  rintro ⟨a, s', hm, hl, -⟩
  exact (h s.1 s a s' (.refl s.1) hm).leaks hl

end

end Lib
