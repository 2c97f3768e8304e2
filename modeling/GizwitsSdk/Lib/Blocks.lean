import Mathlib.Data.List.Chain
import Mathlib.Data.List.Perm.Basic
import Mathlib.Tactic.Common

/-!
# Lists of memory blocks with a header each

The abstract state of a boundary-tag allocator: the blocks of an area in
address order, each a header of `ov` bytes and a payload. Splitting a free
block and merging neighbours keep the bytes covered; the sum of the free
payloads moves by the payload handed out and by the headers made or absorbed.
-/

namespace Lib

structure Blk where
  size : Nat
  free : Bool
  deriving DecidableEq, Repr

section
variable (ov : Nat)

/-- Bytes covered, headers included. -/
def span : List Blk → Nat
  | [] => 0
  | b :: bs => ov + b.size + span bs

def freeBytes : List Blk → Nat
  | [] => 0
  | b :: bs => (if b.free then b.size else 0) + freeBytes bs

/-- The header addresses of the used blocks of a list laid out from `a`. -/
def usedAt : Nat → List Blk → List Nat
  | _, [] => []
  | a, b :: bs => if b.free then usedAt (a + ov + b.size) bs else a :: usedAt (a + ov + b.size) bs

/-- Every header address from `a`, the one past the last block included. -/
def headsAt : Nat → List Blk → List Nat
  | a, [] => [a]
  | a, b :: bs => a :: headsAt (a + ov + b.size) bs

/-- The last header before the end of the blocks, `p` when there is none. -/
def lastHead : Nat → Nat → List Blk → Nat
  | p, _, [] => p
  | _, a, b :: bs => lastHead a (a + ov + b.size) bs

/-- No two neighbours are both free. -/
def NoAdj (bs : List Blk) : Prop := bs.IsChain fun x y => x.free = true → y.free = false

theorem span_append (l r : List Blk) : span ov (l ++ r) = span ov l + span ov r := by
  induction l with
  | nil => simp [span]
  | cons b l ih => simp only [List.cons_append, span, ih]; omega

theorem freeBytes_append (l r : List Blk) : freeBytes (l ++ r) = freeBytes l + freeBytes r := by
  induction l with
  | nil => simp [freeBytes]
  | cons b l ih => simp only [List.cons_append, freeBytes, ih]; omega

theorem usedAt_append (a : Nat) (l r : List Blk) :
    usedAt ov a (l ++ r) = usedAt ov a l ++ usedAt ov (a + span ov l) r := by
  induction l generalizing a with
  | nil => simp [usedAt, span]
  | cons b l ih =>
    have e : a + (ov + b.size + span ov l) = a + ov + b.size + span ov l := by omega
    simp only [List.cons_append, usedAt, span, ih, e]
    split <;> simp

theorem lastHead_snoc (p a : Nat) (l : List Blk) (b : Blk) :
    lastHead ov p a (l ++ [b]) = a + span ov l := by
  induction l generalizing p a with
  | nil => simp [lastHead, span]
  | cons c l ih => simp only [List.cons_append, lastHead, span, ih]; omega

theorem headsAt_ge {a x : Nat} {bs : List Blk} (h : x ∈ headsAt ov a bs) : a ≤ x := by
  induction bs generalizing a with
  | nil => simp only [headsAt, List.mem_singleton] at h; omega
  | cons b bs ih =>
    rcases List.mem_cons.mp h with rfl | h
    · exact Nat.le_refl _
    · have := ih h; omega

theorem headsAt_le {a x : Nat} {bs : List Blk} (h : x ∈ headsAt ov a bs) : x ≤ a + span ov bs := by
  induction bs generalizing a with
  | nil => simp only [headsAt, List.mem_singleton] at h; simp [span, h]
  | cons b bs ih =>
    simp only [span]
    rcases List.mem_cons.mp h with rfl | h
    · omega
    · have := ih h; omega

theorem mem_headsAt {a x : Nat} {bs : List Blk} :
    x ∈ headsAt ov a bs ↔
      x = a + span ov bs ∨ ∃ l b r, bs = l ++ b :: r ∧ x = a + span ov l := by
  induction bs generalizing a with
  | nil => simp [headsAt, span]
  | cons c bs ih =>
    simp only [headsAt, List.mem_cons, ih, span]
    constructor
    · rintro (rfl | h | ⟨l, b, r, rfl, h⟩)
      · exact .inr ⟨[], c, bs, rfl, by simp [span]⟩
      · exact .inl (by omega)
      · exact .inr ⟨c :: l, b, r, rfl, by simp only [span]; omega⟩
    · rintro (h | ⟨l, b, r, e, h⟩)
      · exact .inr (.inl (by omega))
      · cases l with
        | nil => exact .inl (by simpa [span] using h)
        | cons d l =>
          simp only [List.cons_append, List.cons.injEq] at e
          obtain ⟨rfl, rfl⟩ := e
          exact .inr (.inr ⟨l, b, r, rfl, by simp only [span] at h; omega⟩)

theorem headsAt_sorted (hov : 0 < ov) (a : Nat) (bs : List Blk) :
    (headsAt ov a bs).Pairwise (· < ·) := by
  induction bs generalizing a with
  | nil => exact List.pairwise_singleton _ _
  | cons b bs ih =>
    refine List.pairwise_cons.mpr ⟨fun x hx => ?_, ih _⟩
    have := headsAt_ge ov hx
    omega

theorem headsAt_room (a : Nat) (bs : List Blk) :
    (headsAt ov a bs).IsChain fun x y => x + ov ≤ y := by
  induction bs generalizing a with
  | nil => exact List.isChain_singleton _
  | cons b bs ih =>
    rw [headsAt, List.isChain_cons]
    refine ⟨fun y hy => ?_, ih _⟩
    have := headsAt_ge ov (List.mem_of_mem_head? hy)
    omega

theorem headsAt_getLast (a : Nat) (bs : List Blk) :
    (headsAt ov a bs).getLast? = some (a + span ov bs) := by
  induction bs generalizing a with
  | nil => simp [headsAt, span]
  | cons b bs ih =>
    have hne : headsAt ov (a + ov + b.size) bs ≠ [] := by cases bs <;> simp [headsAt]
    rw [headsAt, List.getLast?_cons_of_ne_nil hne, ih, span]
    congr 1; omega

theorem mem_headsAt_mid (a : Nat) (l r : List Blk) (b : Blk) :
    a + span ov l ∈ headsAt ov a (l ++ b :: r) :=
  (mem_headsAt ov).mpr (.inr ⟨l, b, r, rfl, rfl⟩)

theorem headsAt_append (a : Nat) (l : List Blk) :
    ∃ hs, ∀ r, headsAt ov a (l ++ r) = hs ++ headsAt ov (a + span ov l) r := by
  induction l generalizing a with
  | nil => exact ⟨[], fun r => by simp [span]⟩
  | cons b l ih =>
    obtain ⟨hs, h⟩ := ih (a + ov + b.size)
    refine ⟨a :: hs, fun r => ?_⟩
    rw [List.cons_append, headsAt, h r, List.cons_append, span]
    congr 3; omega

theorem headsAt_flag (a : Nat) (l r : List Blk) (n : Nat) (f g : Bool) :
    headsAt ov a (l ++ ⟨n, f⟩ :: r) = headsAt ov a (l ++ ⟨n, g⟩ :: r) := by
  induction l generalizing a with
  | nil => rfl
  | cons c l ih => simp only [List.cons_append, headsAt, ih]

theorem mem_usedAt {a x : Nat} {bs : List Blk} :
    x ∈ usedAt ov a bs ↔ ∃ l b r, bs = l ++ b :: r ∧ b.free = false ∧ x = a + span ov l := by
  induction bs generalizing a with
  | nil => simp [usedAt]
  | cons c bs ih =>
    have tail : x ∈ usedAt ov (a + ov + c.size) bs ↔
        ∃ l b r, c :: bs = c :: l ++ b :: r ∧ b.free = false ∧ x = a + span ov (c :: l) := by
      rw [ih]
      constructor
      · rintro ⟨l, b, r, rfl, hb, h⟩
        exact ⟨l, b, r, rfl, hb, by simp only [span]; omega⟩
      · rintro ⟨l, b, r, e, hb, h⟩
        exact ⟨l, b, r, by simpa using e, hb, by simp only [span] at h; omega⟩
    constructor
    · intro h
      rw [usedAt] at h
      split at h
      · obtain ⟨l, b, r, e⟩ := tail.mp h; exact ⟨c :: l, b, r, e⟩
      · rename_i hc
        rcases List.mem_cons.mp h with rfl | h
        · exact ⟨[], c, bs, rfl, by simpa using hc, by simp [span]⟩
        · obtain ⟨l, b, r, e⟩ := tail.mp h; exact ⟨c :: l, b, r, e⟩
    · rintro ⟨l, b, r, e, hb, h⟩
      rw [usedAt]
      cases l with
      | nil =>
        simp only [List.nil_append, List.cons.injEq] at e
        obtain ⟨rfl, rfl⟩ := e
        simp only [hb, Bool.false_eq_true, if_false, span, Nat.add_zero] at h ⊢
        rw [h]; exact List.mem_cons_self
      | cons d l =>
        have hd : d = c := by simp only [List.cons_append, List.cons.injEq] at e; exact e.1.symm
        subst hd
        have := tail.mpr ⟨l, b, r, e, hb, h⟩
        split
        · exact this
        · exact List.mem_cons_of_mem _ this

theorem mem_headsAt_replace {a x : Nat} {l c r : List Blk} {b : Blk} (hc : span ov c = ov + b.size)
    (hx : x ∈ headsAt ov a (l ++ b :: r)) (hne : x ≠ a + span ov l) :
    x ∈ headsAt ov a (l ++ c ++ r) := by
  obtain ⟨hs, h⟩ := headsAt_append ov a l
  obtain ⟨cs, h'⟩ := headsAt_append ov (a + span ov l) c
  rw [List.append_assoc, h, h', hc]
  rw [h] at hx
  rcases List.mem_append.mp hx with hx | hx
  · exact List.mem_append_left _ hx
  · rcases List.mem_cons.mp hx with rfl | hx
    · exact absurd rfl hne
    · refine List.mem_append_right _ (List.mem_append_right _ ?_)
      rwa [show a + span ov l + (ov + b.size) = a + span ov l + ov + b.size by omega]

theorem mem_headsAt_next (a : Nat) (l r : List Blk) (b : Blk) :
    a + span ov l + ov + b.size ∈ headsAt ov a (l ++ b :: r) := by
  obtain ⟨hs, h⟩ := headsAt_append ov a l
  rw [h, headsAt]
  refine List.mem_append_right _ (List.mem_cons_of_mem _ ?_)
  cases r with
  | nil => exact List.mem_singleton_self _
  | cons c r => exact List.mem_cons_self

/-- A pointer to a block that is replaced is moved to the next header. -/
theorem mem_headsAt_step {a x : Nat} {l c r : List Blk} {b : Blk} {y : Nat} (hc : span ov c = ov + b.size)
    (hx : x ∈ headsAt ov a (l ++ b :: r)) (hy : y ∈ headsAt ov a (l ++ c ++ r)) :
    (if x = a + span ov l then y else x) ∈ headsAt ov a (l ++ c ++ r) := by
  split
  · exact hy
  · rename_i hne
    exact mem_headsAt_replace ov hc hx hne

theorem headsAt_apart {a x : Nat} {l r : List Blk} {b : Blk}
    (hx : x ∈ headsAt ov a (l ++ b :: r)) :
    x = a + span ov l ∨ x + ov ≤ a + span ov l ∨ a + span ov l + ov + b.size ≤ x := by
  induction l generalizing a with
  | nil =>
    rcases List.mem_cons.mp hx with rfl | hx
    · exact .inl (by simp [span])
    · have := headsAt_ge ov hx
      exact .inr (.inr (by simpa [span] using this))
  | cons c l ih =>
    simp only [span]
    rcases List.mem_cons.mp hx with rfl | hx
    · exact .inr (.inl (by omega))
    · have := ih hx; omega

/-! ## Splitting and merging -/

/-- The blocks a free block turns into when `need` bytes are taken from it: it
is split when the rest can hold a header and `min` bytes. -/
def carve (min need : Nat) (b : Blk) : List Blk :=
  if need + ov + min ≤ b.size then [⟨need, false⟩, ⟨b.size - need - ov, true⟩] else [⟨b.size, false⟩]

theorem span_carve (l r : List Blk) (min need : Nat) (b : Blk) :
    span ov (l ++ carve ov min need b ++ r) = span ov (l ++ b :: r) := by
  unfold carve
  split <;> simp only [span_append, span] <;> omega

theorem freeBytes_carve (l r : List Blk) (min need : Nat) {b : Blk} (hb : b.free = true) :
    freeBytes (l ++ carve ov min need b ++ r) +
        (if need + ov + min ≤ b.size then need + ov else b.size) = freeBytes (l ++ b :: r) := by
  unfold carve
  split <;> simp [freeBytes_append, freeBytes, hb] <;> omega

theorem usedAt_carve (a : Nat) {l r : List Blk} {min need : Nat} {b : Blk} (hb : b.free = true) :
    (usedAt ov a (l ++ carve ov min need b ++ r)).Perm
      ((a + span ov l) :: usedAt ov a (l ++ b :: r)) := by
  have e : ∀ x : Nat, x = a + span ov l + ov + b.size →
      usedAt ov a l ++ (a + span ov l) :: usedAt ov x r =
        usedAt ov a l ++ (a + span ov l) :: usedAt ov (a + span ov l + ov + b.size) r := by
    rintro x rfl; rfl
  have key : usedAt ov a (l ++ carve ov min need b ++ r) =
      usedAt ov a l ++ (a + span ov l) :: usedAt ov (a + span ov l + ov + b.size) r := by
    unfold carve
    split
    · simp only [List.append_assoc, List.cons_append, List.nil_append, usedAt_append, usedAt,
        Bool.false_eq_true, if_false, if_true]
      exact e _ (by omega)
    · simp only [List.append_assoc, List.cons_append, List.nil_append, usedAt_append, usedAt,
        Bool.false_eq_true, if_false]
  rw [key, usedAt_append, usedAt, if_pos hb]
  exact List.perm_middle

theorem span_merge (l r : List Blk) (b c : Blk) (f : Bool) :
    span ov (l ++ ⟨b.size + ov + c.size, f⟩ :: r) = span ov (l ++ b :: c :: r) := by
  simp only [span_append, span]; omega

theorem freeBytes_merge {l r : List Blk} {b c : Blk} (hb : b.free = true) (hc : c.free = true) :
    freeBytes (l ++ ⟨b.size + ov + c.size, true⟩ :: r) = freeBytes (l ++ b :: c :: r) + ov := by
  simp only [freeBytes_append, freeBytes, hb, hc, if_true]; omega

theorem usedAt_merge {a : Nat} {l r : List Blk} {b c : Blk} (hb : b.free = true)
    (hc : c.free = true) :
    usedAt ov a (l ++ ⟨b.size + ov + c.size, true⟩ :: r) = usedAt ov a (l ++ b :: c :: r) := by
  simp only [usedAt_append, usedAt, hb, hc, if_true]
  congr 2; omega

/-- A free block in front of `r`, merged with the head of `r` when that is free. -/
def absorbNext (b : Blk) : List Blk → List Blk
  | [] => [b]
  | c :: r => if c.free then ⟨b.size + ov + c.size, true⟩ :: r else b :: c :: r

/-- A payload of `n` bytes given back between `l` and `r`. -/
def release (l : List Blk) (n : Nat) (r : List Blk) : List Blk :=
  match l.getLast? with
  | none => l ++ absorbNext ov ⟨n, true⟩ r
  | some c => if c.free then l.dropLast ++ absorbNext ov ⟨c.size + ov + n, true⟩ r
    else l ++ absorbNext ov ⟨n, true⟩ r

theorem span_absorbNext (l r : List Blk) (b : Blk) :
    span ov (l ++ absorbNext ov b r) = span ov (l ++ b :: r) := by
  cases r with
  | nil => rfl
  | cons c r =>
    rw [absorbNext]
    split
    · exact span_merge ov l r b c true
    · rfl

theorem headsAt_merge {a x : Nat} {l r : List Blk} {b c : Blk} {f : Bool}
    (h : x ∈ headsAt ov a (l ++ ⟨b.size + ov + c.size, f⟩ :: r)) :
    x ∈ headsAt ov a (l ++ b :: c :: r) := by
  obtain ⟨hs, e⟩ := headsAt_append ov a l
  rw [e, headsAt] at h
  rw [e, headsAt, headsAt]
  rw [show a + span ov l + ov + (b.size + ov + c.size) =
    a + span ov l + ov + b.size + ov + c.size by omega] at h
  simp only [List.mem_append, List.mem_cons] at h ⊢
  tauto

theorem snoc_free_or (l : List Blk) :
    (∃ l' c, l = l' ++ [c] ∧ c.free = true) ∨ ∀ c ∈ l.getLast?, c.free = false := by
  rcases l.eq_nil_or_concat with rfl | ⟨l, c, rfl⟩
  · exact .inr fun c hc => by simp at hc
  · cases hf : c.free with
    | true => exact .inl ⟨l, c, by simp, hf⟩
    | false =>
      refine .inr fun d hd => ?_
      simp only [List.concat_eq_append, List.getLast?_append, List.getLast?_singleton,
        Option.some_or, Option.mem_some_iff] at hd
      rw [← hd, hf]

theorem release_snoc {l r : List Blk} {c : Blk} {n : Nat} (hc : c.free = true) :
    release ov (l ++ [c]) n r = l ++ absorbNext ov ⟨c.size + ov + n, true⟩ r := by
  simp [release, hc]

theorem release_used {l r : List Blk} {n : Nat} (hc : ∀ c ∈ l.getLast?, c.free = false) :
    release ov l n r = l ++ absorbNext ov ⟨n, true⟩ r := by
  unfold release
  cases hl : l.getLast? with
  | none => rfl
  | some c => simp [hc c hl]

theorem span_release (l r : List Blk) (b : Blk) :
    span ov (release ov l b.size r) = span ov (l ++ b :: r) := by
  rcases snoc_free_or l with ⟨l, c, rfl, hc⟩ | hc
  · rw [release_snoc ov hc, span_absorbNext]
    simp only [span_append, span]; omega
  · rw [release_used ov hc, span_absorbNext]
    simp only [span_append, span]

theorem usedAt_absorbNext {a : Nat} {l r : List Blk} {b : Blk} (hb : b.free = true) :
    usedAt ov a (l ++ absorbNext ov b r) = usedAt ov a (l ++ b :: r) := by
  cases r with
  | nil => rfl
  | cons c r =>
    rw [absorbNext]
    split
    · rename_i hc; exact usedAt_merge ov hb hc
    · rfl

theorem usedAt_release {a : Nat} {l r : List Blk} {b : Blk} (hb : b.free = false) :
    (usedAt ov a (l ++ b :: r)).Perm ((a + span ov l) :: usedAt ov a (release ov l b.size r)) := by
  have key : usedAt ov a (release ov l b.size r) = usedAt ov a (l ++ ⟨b.size, true⟩ :: r) := by
    rcases snoc_free_or l with ⟨l, c, rfl, hc⟩ | hc
    · rw [release_snoc ov hc, usedAt_absorbNext ov rfl, usedAt_merge ov (c := ⟨b.size, true⟩) hc rfl]
      simp
    · rw [release_used ov hc, usedAt_absorbNext ov rfl]
  rw [key, usedAt_append, usedAt_append, usedAt, usedAt, if_neg (by simp [hb]), if_pos rfl]
  exact List.perm_middle

/-! ## Neighbours -/

theorem noAdj_append {l r : List Blk} : NoAdj (l ++ r) ↔
    NoAdj l ∧ NoAdj r ∧ ∀ x ∈ l.getLast?, ∀ y ∈ r.head?, x.free = true → y.free = false :=
  List.isChain_append

theorem noAdj_cons {b : Blk} {r : List Blk} : NoAdj (b :: r) ↔
    (∀ y ∈ r.head?, b.free = true → y.free = false) ∧ NoAdj r := by
  unfold NoAdj; rw [List.isChain_cons]

theorem noAdj_used {l r : List Blk} {b : Blk} (hb : b.free = false) :
    NoAdj (l ++ b :: r) ↔ NoAdj l ∧ NoAdj r := by
  rw [noAdj_append, noAdj_cons]
  constructor
  · rintro ⟨hl, ⟨_, hr⟩, _⟩; exact ⟨hl, hr⟩
  · rintro ⟨hl, hr⟩
    refine ⟨hl, ⟨fun y _ h => ?_, hr⟩, fun x _ y hy _ => ?_⟩
    · rw [hb] at h; cases h
    · simp only [List.head?_cons, Option.mem_some_iff] at hy; rw [← hy]; exact hb

theorem noAdj_free {l r : List Blk} {b : Blk} (hb : b.free = true) :
    NoAdj (l ++ b :: r) ↔ NoAdj l ∧ NoAdj r ∧ (∀ x ∈ l.getLast?, x.free = false) ∧
      ∀ y ∈ r.head?, y.free = false := by
  rw [noAdj_append, noAdj_cons]
  constructor
  · rintro ⟨hl, ⟨h1, hr⟩, h2⟩
    refine ⟨hl, hr, fun x hx => ?_, fun y hy => h1 y hy hb⟩
    have := h2 x hx b (by simp)
    cases hf : x.free with
    | false => rfl
    | true => rw [this hf] at hb; cases hb
  · rintro ⟨hl, hr, h1, h2⟩
    refine ⟨hl, ⟨fun y hy _ => h2 y hy, hr⟩, fun x hx y _ hf => ?_⟩
    rw [h1 x hx] at hf; cases hf

theorem noAdj_carve {l r : List Blk} (min need : Nat) {b : Blk} (hb : b.free = true)
    (h : NoAdj (l ++ b :: r)) : NoAdj (l ++ carve ov min need b ++ r) := by
  obtain ⟨hl, hr, _, h2⟩ := (noAdj_free hb).mp h
  unfold carve
  split
  · rw [List.append_assoc]
    refine (noAdj_used rfl).mpr ⟨hl, ?_⟩
    exact noAdj_cons.mpr ⟨fun y hy _ => h2 y hy, hr⟩
  · rw [List.append_assoc]
    exact (noAdj_used rfl).mpr ⟨hl, hr⟩

theorem noAdj_absorbNext {l r : List Blk} {b : Blk} (hl : NoAdj l) (hr : NoAdj r)
    (hlast : ∀ x ∈ l.getLast?, x.free = false) (hb : b.free = true) :
    NoAdj (l ++ absorbNext ov b r) := by
  cases r with
  | nil => exact (noAdj_free hb).mpr ⟨hl, hr, hlast, fun y hy => by simp at hy⟩
  | cons c r =>
    rw [noAdj_cons] at hr
    rw [absorbNext]
    split
    · rename_i hc
      exact (noAdj_free rfl).mpr ⟨hl, hr.2, hlast, fun y hy => hr.1 y hy hc⟩
    · rename_i hc
      refine (noAdj_free hb).mpr ⟨hl, noAdj_cons.mpr hr, hlast, fun y hy => ?_⟩
      simp only [List.head?_cons, Option.mem_some_iff] at hy
      rw [← hy]; simpa using hc

theorem noAdj_release {l r : List Blk} {b : Blk} (hb : b.free = false) (h : NoAdj (l ++ b :: r)) :
    NoAdj (release ov l b.size r) := by
  obtain ⟨hl, hr⟩ := (noAdj_used hb).mp h
  rcases snoc_free_or l with ⟨l, c, rfl, hc⟩ | hc
  · obtain ⟨hl, _, hlast, _⟩ := (noAdj_free (r := []) hc).mp hl
    rw [release_snoc ov hc]
    exact noAdj_absorbNext ov hl hr hlast rfl
  · rw [release_used ov hc]
    exact noAdj_absorbNext ov hl hr hc rfl

/-! ## The other blocks -/

/-- A block other than the one at the end of `l` stands where it stood when
that one is replaced by blocks of the same span. -/
theorem other_block {l r l' r' cs : List Blk} {b c : Blk} (hcs : span ov cs = ov + b.size)
    (e : l ++ b :: r = l' ++ c :: r') (hne : b.free ≠ c.free) :
    (∃ l₁ r₁, l ++ cs ++ r = l₁ ++ c :: r₁ ∧ span ov l₁ = span ov l') ∧
    (span ov l' + ov + c.size ≤ span ov l ∨ span ov l + ov + b.size ≤ span ov l') := by
  rcases List.append_eq_append_iff.mp e with ⟨m, hl, hr⟩ | ⟨m, hl, hr⟩
  · cases m with
    | nil =>
      simp only [List.nil_append, List.cons.injEq] at hr
      exact absurd (by rw [hr.1]) hne
    | cons d m =>
      simp only [List.cons_append, List.cons.injEq] at hr
      obtain ⟨rfl, rfl⟩ := hr
      subst hl
      refine ⟨⟨l ++ cs ++ m, r', by simp, ?_⟩, .inr ?_⟩ <;> simp only [span_append, span] <;> omega
  · cases m with
    | nil =>
      simp only [List.nil_append, List.cons.injEq] at hr
      exact absurd (by rw [hr.1]) hne
    | cons d m =>
      simp only [List.cons_append, List.cons.injEq] at hr
      obtain ⟨rfl, rfl⟩ := hr
      subst hl
      refine ⟨⟨l', m ++ cs ++ r, by simp, rfl⟩, .inl ?_⟩
      simp only [span_append, span]; omega

theorem carve_head (min need : Nat) (b : Blk) (h : need ≤ b.size) :
    ∃ z cs, carve ov min need b = ⟨z, false⟩ :: cs ∧ need ≤ z := by
  unfold carve
  split
  · exact ⟨need, _, rfl, Nat.le_refl _⟩
  · exact ⟨b.size, _, rfl, h⟩

end

end Lib
