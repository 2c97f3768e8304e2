import Mathlib.Data.List.Chain
import Mathlib.Data.List.Nodup
import Mathlib.Tactic.Common

/-!
# Circular lists that are linked both ways

Two functions give the links of a node, of which either may be missing. In a
loop each node is linked with the one behind it, and the last one with the
first. A loop may be read from any of its nodes and in both directions; a chain
of other nodes is linked in, or a part of the loop is left out, with the links
at the seams alone.
-/

namespace Lib

section
variable {α : Type} {n p n' p' : α → Option α} {l m : List α} {a x : α}

def Link (n p : α → Option α) (a b : α) : Prop := n a = some b ∧ p b = some a

def Joins (r : α → α → Prop) (l m : List α) : Prop := ∀ a ∈ l.getLast?, ∀ b ∈ m.head?, r a b

structure Loop (n p : α → Option α) (l : List α) : Prop where
  chain : l.IsChain (Link n p)
  closed : Joins (Link n p) l l

/-- Follows a link from a node on, up to `stop`. -/
def walk [DecidableEq α] (link : α → Option α) (stop : α) : Nat → α → Option (List α)
  | 0, _ => none
  | fuel + 1, a => (link a).bind fun b => if b = stop then some [] else (walk link stop fuel b).map (b :: ·)

/-! ## Other starts and the other direction -/

theorem joins_of {r : α → α → Prop} {b : α} (ha : l.getLast? = some a) (hb : m.head? = some b) (h : r a b) :
    Joins r l m := by
  intro c hc d hd
  obtain rfl := Option.some.inj (ha.symm.trans hc)
  obtain rfl := Option.some.inj (hb.symm.trans hd)
  exact h

theorem joins_reverse (h : Joins (Link n p) l m) : Joins (Link p n) m.reverse l.reverse := by
  intro b hb a ha
  rw [List.getLast?_reverse] at hb
  rw [List.head?_reverse] at ha
  exact (h a ha b hb).symm

theorem chain_reverse (h : l.IsChain (Link n p)) : l.reverse.IsChain (Link p n) :=
  List.isChain_reverse.mpr (h.imp fun _ _ hab => hab.symm)

theorem Loop.reverse (h : Loop n p l) : Loop p n l.reverse := ⟨chain_reverse h.chain, joins_reverse h.closed⟩

theorem joins_append_left (hm : m ≠ []) {r : α → α → Prop} {k : List α} : Joins r (l ++ m) k ↔ Joins r m k := by
  rw [Joins, List.getLast?_append_of_ne_nil l hm]
  rfl

theorem joins_append_right (hl : l ≠ []) {r : α → α → Prop} {k : List α} : Joins r k (l ++ m) ↔ Joins r k l := by
  rw [Joins, List.head?_append_of_ne_nil l hl]
  rfl

theorem loop_append (hl : l ≠ []) (hm : m ≠ []) :
    Loop n p (l ++ m) ↔
      (l.IsChain (Link n p) ∧ m.IsChain (Link n p)) ∧ Joins (Link n p) l m ∧ Joins (Link n p) m l := by
  constructor
  · intro h
    obtain ⟨hcl, hcm, hj⟩ := List.isChain_append.mp h.chain
    exact ⟨⟨hcl, hcm⟩, hj, (joins_append_left hm).mp ((joins_append_right hl).mp h.closed)⟩
  · intro h
    obtain ⟨⟨hcl, hcm⟩, hj, hj'⟩ := h
    exact ⟨List.isChain_append.mpr ⟨hcl, hcm, hj⟩, (joins_append_left hm).mpr ((joins_append_right hl).mpr hj')⟩

theorem Loop.rotate (h : Loop n p (l ++ m)) : Loop n p (m ++ l) := by
  by_cases hl : l = []
  · subst hl
    rwa [List.append_nil]
  · by_cases hm : m = []
    · subst hm
      rwa [List.append_nil] at h
    · obtain ⟨hc, hj, hj'⟩ := (loop_append hl hm).mp h
      exact (loop_append hm hl).mpr ⟨hc.symm, hj', hj⟩

/-! ## The links of a node -/

theorem loop_single : Loop n p [a] ↔ n a = some a ∧ p a = some a := by
  constructor
  · intro h
    exact h.closed a rfl a rfl
  · intro h
    exact ⟨List.isChain_singleton a, joins_of rfl rfl h⟩

theorem Loop.prev_first (h : Loop n p (a :: l)) : p a = (a :: l).getLast? := by
  cases hz : (a :: l).getLast? with
  | none => exact absurd (List.getLast?_eq_none_iff.mp hz) (List.cons_ne_nil a l)
  | some z => exact (h.closed z hz a rfl).2

theorem Loop.next_first (h : Loop n p (a :: l)) : n a = (l ++ [a]).head? := by
  have hrev : (l ++ [a]).reverse = a :: l.reverse := by simp
  have hr := (h.rotate (l := [a])).reverse
  rw [hrev] at hr
  rw [hr.prev_first, ← hrev, List.getLast?_reverse]

/-! ## What keeps a loop -/

theorem Loop.frame (h : Loop n p l) (he : ∀ a ∈ l, n' a = n a ∧ p' a = p a) : Loop n' p' l := by
  have hlink {a b : α} (ha : a ∈ l) (hb : b ∈ l) (hab : Link n p a b) : Link n' p' a b :=
    ⟨(he a ha).1.trans hab.1, (he b hb).2.trans hab.2⟩
  refine ⟨h.chain.imp_of_mem_imp fun a b ha hb => hlink ha hb, fun a ha b hb => ?_⟩
  exact hlink (List.mem_of_getLast? ha) (List.mem_of_head? hb) (h.closed a ha b hb)

/-- The inner links of a chain. -/
theorem chain_frame (h : l.IsChain (Link n p)) (hd : l.Nodup)
    (hn : ∀ a ∈ l, l.getLast? ≠ some a → n' a = n a) (hp : ∀ a ∈ l, l.head? ≠ some a → p' a = p a) :
    l.IsChain (Link n' p') := by
  induction l with
  | nil => exact List.isChain_nil
  | cons a l ih =>
    cases l with
    | nil => exact List.isChain_singleton a
    | cons b l =>
      obtain ⟨hab, hc⟩ := List.isChain_cons_cons.mp h
      obtain ⟨ha, hd'⟩ := List.nodup_cons.mp hd
      have hlast : (a :: b :: l).getLast? = (b :: l).getLast? := List.getLast?_cons_cons
      refine List.isChain_cons_cons.mpr ⟨⟨?_, ?_⟩, ih hc hd' (fun c hc hl => ?_) fun c hc hf => ?_⟩
      · rw [hn a List.mem_cons_self, hab.1]
        rw [hlast]
        exact fun hl => ha (List.mem_of_getLast? hl)
      · rw [hp b (List.mem_cons_of_mem a List.mem_cons_self), hab.2]
        intro hf
        exact ha (Option.some.inj hf ▸ List.mem_cons_self)
      · exact hn c (List.mem_cons_of_mem a hc) (hlast ▸ hl)
      · refine hp c (List.mem_cons_of_mem a hc) fun hf => ha ?_
        exact Option.some.inj hf ▸ hc

/-- A chain of other nodes behind the last node. -/
theorem Loop.insert (h : Loop n p l) (hm : m.IsChain (Link n p)) (hl : l ≠ []) (hm0 : m ≠ []) (hd : (l ++ m).Nodup)
    (hin : Joins (Link n' p') l m) (hout : Joins (Link n' p') m l)
    (hn : ∀ a ∈ l ++ m, l.getLast? ≠ some a → m.getLast? ≠ some a → n' a = n a)
    (hp : ∀ a ∈ l ++ m, l.head? ≠ some a → m.head? ≠ some a → p' a = p a) : Loop n' p' (l ++ m) := by
  obtain ⟨hdl, hdm, hdis⟩ := List.nodup_append'.mp hd
  have hleft {a : α} (ha : a ∈ l) : m.getLast? ≠ some a ∧ m.head? ≠ some a :=
    ⟨fun hz => hdis ha (List.mem_of_getLast? hz), fun hx => hdis ha (List.mem_of_head? hx)⟩
  have hright {a : α} (ha : a ∈ m) : l.getLast? ≠ some a ∧ l.head? ≠ some a :=
    ⟨fun hz => hdis (List.mem_of_getLast? hz) ha, fun hx => hdis (List.mem_of_head? hx) ha⟩
  refine (loop_append hl hm0).mpr ⟨⟨?_, ?_⟩, hin, hout⟩
  · exact chain_frame h.chain hdl (fun a ha hz => hn a (List.mem_append_left m ha) hz (hleft ha).1)
      fun a ha hx => hp a (List.mem_append_left m ha) hx (hleft ha).2
  · exact chain_frame hm hdm (fun a ha hz => hn a (List.mem_append_right l ha) (hright ha).1 hz)
      fun a ha hx => hp a (List.mem_append_right l ha) (hright ha).2 hx

/-- Without a part of it. -/
theorem Loop.remove (h : Loop n p (l ++ m)) (hd : l.Nodup) (hj : Joins (Link n' p') l l)
    (hn : ∀ a ∈ l, l.getLast? ≠ some a → n' a = n a) (hp : ∀ a ∈ l, l.head? ≠ some a → p' a = p a) :
    Loop n' p' l :=
  ⟨chain_frame (List.isChain_append.mp h.chain).1 hd hn hp, hj⟩

theorem Loop.next_last (h : Loop n p (a :: m)) (hm : m ≠ []) : n a = m.head? := by
  rw [h.next_first, List.head?_append_of_ne_nil _ hm]

theorem Loop.prev_last (h : Loop n p (a :: m)) (hm : m ≠ []) : p a = m.getLast? := by
  rw [h.prev_first]
  exact List.getLast?_append_of_ne_nil [a] hm

variable [DecidableEq α] {b y z u : α}

/-! ## Relinking -/

/-- A node behind the last one. -/
theorem Loop.put (h : Loop n p (a :: l)) (hd : (a :: l ++ [b]).Nodup) (hz : (a :: l).getLast? = some z)
    (hn : ∀ x, n' x = if x = z then some b else if x = b then some a else n x)
    (hp : ∀ x, p' x = if x = a then some b else if x = b then some z else p x) : Loop n' p' (a :: l ++ [b]) := by
  have hb : b ∉ a :: l := fun hm => (List.nodup_append'.mp hd).2.2 hm List.mem_cons_self
  have hbz : b ≠ z := fun e => hb (e ▸ List.mem_of_getLast? hz)
  have hba : b ≠ a := fun e => hb (e ▸ List.mem_cons_self)
  have hin : Link n' p' z b := by
    rw [Link, hn, hp, if_pos rfl, if_neg hba, if_pos rfl]
    exact ⟨rfl, rfl⟩
  have hout : Link n' p' b a := by
    rw [Link, hn, hp, if_neg hbz, if_pos rfl, if_pos rfl]
    exact ⟨rfl, rfl⟩
  refine h.insert (List.isChain_singleton b) (List.cons_ne_nil a l) (List.cons_ne_nil b []) hd (joins_of hz rfl hin)
    (joins_of rfl rfl hout) (fun x _ hxz hxb => ?_) fun x _ hxa hxb => ?_
  · rw [hn, if_neg fun e : x = z => hxz (e ▸ hz), if_neg fun e : x = b => hxb (e ▸ rfl)]
  · rw [hp, if_neg fun e : x = a => hxa (e ▸ rfl), if_neg fun e : x = b => hxb (e ▸ rfl)]

/-- A node is left out, and loses its links. -/
theorem Loop.take (h : Loop n p (a :: l)) (hd : (a :: l).Nodup) (hy : l.head? = some y) (hz : l.getLast? = some z)
    (hn : ∀ x, n' x = if x = a then none else if x = z then some y else n x)
    (hp : ∀ x, p' x = if x = a then none else if x = y then some z else p x) : Loop n' p' l := by
  obtain ⟨ha, hdl⟩ := List.nodup_cons.mp hd
  have hne {x : α} (hx : x ∈ l) : x ≠ a := fun e => ha (e ▸ hx)
  have hturn : Loop n p (l ++ [a]) := Loop.rotate (l := [a]) h
  have hlink : Link n' p' z y := by
    rw [Link, hn, hp, if_neg (hne (List.mem_of_getLast? hz)), if_pos rfl, if_neg (hne (List.mem_of_head? hy)),
      if_pos rfl]
    exact ⟨rfl, rfl⟩
  refine hturn.remove hdl (joins_of hz hy hlink) (fun x hx hxz => ?_) fun x hx hxy => ?_
  · rw [hn, if_neg (hne hx), if_neg fun e : x = z => hxz (e ▸ hz)]
  · rw [hp, if_neg (hne hx), if_neg fun e : x = y => hxy (e ▸ hy)]

/-- All nodes of another loop but one, which is left alone. -/
theorem Loop.splice (h : Loop n p (a :: l)) (hm : Loop n p (b :: m)) (hd : (a :: l ++ b :: m).Nodup)
    (hz : (a :: l).getLast? = some z) (hy : m.head? = some y) (hu : m.getLast? = some u)
    (hn : ∀ x, n' x = if x = b then some b else if x = u then some a else if x = z then some y else n x)
    (hp : ∀ x, p' x = if x = b then some b else if x = a then some u else if x = y then some z else p x) :
    Loop n' p' (a :: l ++ m) ∧ Loop n' p' [b] := by
  obtain ⟨hdl, hdm, hdis⟩ := List.nodup_append'.mp hd
  obtain ⟨hbm, hdm'⟩ := List.nodup_cons.mp hdm
  have hm0 : m ≠ [] := by
    rintro rfl
    cases hy
  have hzm := List.mem_of_getLast? hz
  have hym := List.mem_of_head? hy
  have hum := List.mem_of_getLast? hu
  have hne {x v : α} (hx : x ∈ a :: l) (hv : v ∈ m) : x ≠ v := fun e => hdis hx (e ▸ List.mem_cons_of_mem b hv)
  have hxb {x : α} (hx : x ∈ a :: l ++ m) : x ≠ b := by
    rcases List.mem_append.mp hx with hx | hx
    · exact fun e => hdis hx (e ▸ List.mem_cons_self)
    · exact fun e => hbm (e ▸ hx)
  have hin : Link n' p' z y := by
    rw [Link, hn, hp, if_neg (hxb (List.mem_append_left m hzm)), if_neg (hne hzm hum), if_pos rfl,
      if_neg (hxb (List.mem_append_right _ hym)), if_neg (hne List.mem_cons_self hym).symm, if_pos rfl]
    exact ⟨rfl, rfl⟩
  have hout : Link n' p' u a := by
    rw [Link, hn, hp, if_neg (hxb (List.mem_append_right _ hum)), if_pos rfl,
      if_neg (hxb (List.mem_append_left m List.mem_cons_self)), if_pos rfl]
    exact ⟨rfl, rfl⟩
  constructor
  · refine h.insert hm.chain.tail (List.cons_ne_nil a l) hm0 ?_ (joins_of hz hy hin) (joins_of hu rfl hout)
      (fun x hx hxz hxu => ?_) fun x hx hxa hxy => ?_
    · exact List.nodup_append'.mpr ⟨hdl, hdm', fun x hx hx' => hdis hx (List.mem_cons_of_mem b hx')⟩
    · rw [hn, if_neg (hxb hx), if_neg fun e : x = u => hxu (e ▸ hu), if_neg fun e : x = z => hxz (e ▸ hz)]
    · rw [hp, if_neg (hxb hx), if_neg fun e : x = a => hxa (e ▸ rfl), if_neg fun e : x = y => hxy (e ▸ hy)]
  · rw [loop_single, hn, hp, if_pos rfl]
    exact ⟨rfl, if_pos rfl⟩

/-- The nodes of neither loop keep their links. -/
theorem splice_outside (hz : (a :: l).getLast? = some z) (hy : m.head? = some y) (hu : m.getLast? = some u)
    (hn : ∀ x, n' x = if x = b then some b else if x = u then some a else if x = z then some y else n x)
    (hp : ∀ x, p' x = if x = b then some b else if x = a then some u else if x = y then some z else p x)
    (hx : x ∉ a :: l ++ b :: m) : n' x = n x ∧ p' x = p x := by
  obtain ⟨hxl, hxm⟩ := not_or.mp (mt List.mem_append.mpr hx)
  obtain ⟨hxb, hxm⟩ := not_or.mp (mt List.mem_cons.mpr hxm)
  have hxa : x ≠ a := fun e => hxl (e ▸ List.mem_cons_self)
  have hxz : x ≠ z := fun e => hxl (e ▸ List.mem_of_getLast? hz)
  have hxy : x ≠ y := fun e => hxm (e ▸ List.mem_of_head? hy)
  have hxu : x ≠ u := fun e => hxm (e ▸ List.mem_of_getLast? hu)
  rw [hn, hp, if_neg hxb, if_neg hxu, if_neg hxz, if_neg hxb, if_neg hxa, if_neg hxy]
  exact ⟨rfl, rfl⟩

/-! ## Walks -/

theorem walk_chain (h : (a :: l).IsChain (Link n p)) (hj : Joins (Link n p) (a :: l) [x]) (hx : x ∉ l) {fuel : Nat}
    (hf : l.length < fuel) : walk n x fuel a = some l := by
  induction l generalizing a fuel with
  | nil =>
    obtain ⟨fuel, rfl⟩ := Nat.exists_eq_add_one_of_ne_zero (Nat.ne_of_gt hf)
    rw [walk, (hj a rfl x rfl).1, Option.bind_some, if_pos rfl]
  | cons b l ih =>
    obtain ⟨fuel, rfl⟩ := Nat.exists_eq_add_one_of_ne_zero (Nat.ne_of_gt (Nat.zero_lt_of_lt hf))
    obtain ⟨hab, hc⟩ := List.isChain_cons_cons.mp h
    obtain ⟨hb, hx'⟩ := not_or.mp (mt List.mem_cons.mpr hx)
    rw [walk, hab.1, Option.bind_some, if_neg (Ne.symm hb), ih hc (fun z hz => hj z ?_) hx' (Nat.lt_of_succ_lt_succ hf)]
    · rfl
    · exact List.getLast?_cons_cons.trans hz

theorem Loop.walk_next (h : Loop n p (a :: l)) (ha : a ∉ l) {fuel : Nat} (hf : l.length < fuel) :
    walk n a fuel a = some l :=
  walk_chain h.chain (fun z hz b hb => h.closed z hz b hb) ha hf

theorem Loop.walk_prev (h : Loop n p (a :: l)) (ha : a ∉ l) {fuel : Nat} (hf : l.length < fuel) :
    walk p a fuel a = some l.reverse := by
  have hr := h.reverse
  rw [List.reverse_cons] at hr
  have hf' : l.reverse.length < fuel := by rwa [List.length_reverse]
  exact hr.rotate.walk_next (mt List.mem_reverse.mp ha) hf'

end

end Lib
