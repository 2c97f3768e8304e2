import GizwitsSdk.Lib.Links

/-!
# Lists that are linked both ways and come to an end

A pointer leads to the first node, and the links at the two ends lead nowhere.
A node is put in front or taken out anywhere, with the links at the seam alone.
-/

namespace Lib

section
variable {α : Type} {n p n' p' : α → Option α} {first first' : Option α} {l l₁ l₂ : List α} {a b : α}

structure Line (n p : α → Option α) (first : Option α) (l : List α) : Prop where
  first : first = l.head?
  chain : l.IsChain (Link n p)
  last : ∀ a, l.getLast? = some a → n a = none
  front : ∀ a, l.head? = some a → p a = none

theorem line_nil : Line n p none [] := ⟨rfl, List.isChain_nil, nofun, nofun⟩

theorem Line.frame (h : Line n p first l) (he : ∀ a ∈ l, n' a = n a ∧ p' a = p a) : Line n' p' first l where
  first := h.first
  chain := h.chain.imp_of_mem_imp fun a b ha hb hab => ⟨(he a ha).1.trans hab.1, (he b hb).2.trans hab.2⟩
  last a ha := (he a (List.mem_of_getLast? ha)).1.trans (h.last a ha)
  front a ha := (he a (List.mem_of_head? ha)).2.trans (h.front a ha)

/-- The links of a node. -/
theorem Line.links (h : Line n p first (l₁ ++ b :: l₂)) : n b = l₂.head? ∧ p b = l₁.getLast? := by
  obtain ⟨-, hc, hj⟩ := List.isChain_append.mp h.chain
  constructor
  · cases l₂ with
    | nil => exact h.last b List.getLast?_concat
    | cons c l₂ => exact (List.isChain_cons_cons.mp hc).1.1
  · cases hl : l₁.getLast? with
    | none =>
      obtain rfl := List.getLast?_eq_none_iff.mp hl
      exact h.front b rfl
    | some a => exact (hj a hl b rfl).2

/-! ## One direction -/

/-- The nodes that a pointer leads to, one after the other. -/
def Reads (n : α → Option α) : Option α → List α → Prop
  | first, [] => first = none
  | first, a :: l => first = some a ∧ Reads n (n a) l

instance decidableReads [DecidableEq α] (n : α → Option α) : ∀ first l, Decidable (Reads n first l)
  | first, [] => inferInstanceAs (Decidable (first = none))
  | first, a :: l =>
    have := decidableReads n (n a) l
    inferInstanceAs (Decidable (first = some a ∧ Reads n (n a) l))

theorem Reads.frame (h : Reads n first l) (he : ∀ a ∈ l, n' a = n a) : Reads n' first l := by
  induction l generalizing first with
  | nil => exact h
  | cons a l ih =>
    refine ⟨h.1, ?_⟩
    rw [he a List.mem_cons_self]
    exact ih h.2 fun b hb => he b (List.mem_cons_of_mem a hb)

/-! ## Seams -/

variable [DecidableEq α]

/-- A node in front. -/
theorem Line.push (h : Line n p first l) (hd : (b :: l).Nodup) (hn : ∀ x, n' x = if x = b then first else n x)
    (hp : ∀ x, p' x = if x = b then none else if first = some x then some b else p x) :
    Line n' p' (some b) (b :: l) := by
  obtain ⟨hb, hd⟩ := List.nodup_cons.mp hd
  have hne {x : α} (hx : x ∈ l) : x ≠ b := fun e => hb (e ▸ hx)
  have hold {x : α} (hx : x ∈ l) : n' x = n x := by rw [hn, if_neg (hne hx)]
  have hchain : l.IsChain (Link n' p') := by
    refine chain_frame h.chain hd (fun x hx _ => hold hx) fun x hx hf => ?_
    rw [hp, if_neg (hne hx), if_neg fun e => hf (h.first.symm.trans e)]
  have hfront : p' b = none := by rw [hp, if_pos rfl]
  cases l with
  | nil =>
    refine ⟨rfl, List.isChain_singleton b, fun a ha => ?_, fun a ha => ?_⟩
    · obtain rfl : b = a := Option.some.inj ha
      rw [hn, if_pos rfl]
      exact h.first
    · obtain rfl : b = a := Option.some.inj ha
      exact hfront
  | cons c l =>
    have hf : first = some c := h.first
    have hlink : Link n' p' b c := by
      rw [Link, hn, hp, if_pos rfl, if_neg (hne List.mem_cons_self), if_pos hf]
      exact ⟨hf, rfl⟩
    refine ⟨rfl, List.isChain_cons_cons.mpr ⟨hlink, hchain⟩, fun a ha => ?_, fun a ha => ?_⟩
    · have hl : (c :: l).getLast? = some a := List.getLast?_cons_cons.symm.trans ha
      exact (hold (List.mem_of_getLast? hl)).trans (h.last a hl)
    · obtain rfl := Option.some.inj ha
      exact hfront

/-- A node is taken out, and loses its links. -/
theorem Line.remove (h : Line n p first (l₁ ++ b :: l₂)) (hd : (l₁ ++ b :: l₂).Nodup)
    (hf : first' = if first = some b then n b else first)
    (hn : ∀ x, n' x = if x = b then none else if p b = some x then n b else n x)
    (hp : ∀ x, p' x = if x = b then none else if n b = some x then p b else p x) :
    Line n' p' first' (l₁ ++ l₂) := by
  obtain ⟨hnb, hpb⟩ := h.links
  obtain ⟨hc₁, hc₂, hj⟩ := List.isChain_append.mp h.chain
  obtain ⟨hd₁, hd₂, hdis⟩ := List.nodup_append'.mp hd
  obtain ⟨hb₂, hd₂⟩ := List.nodup_cons.mp hd₂
  have hb₁ : b ∉ l₁ := fun hm => hdis hm List.mem_cons_self
  have hcross {x : α} (h₁ : x ∈ l₁) (h₂ : x ∈ l₂) : False := hdis h₁ (List.mem_cons_of_mem b h₂)
  have hne₁ {x : α} (hx : x ∈ l₁) : x ≠ b := fun e => hb₁ (e ▸ hx)
  have hne₂ {x : α} (hx : x ∈ l₂) : x ≠ b := fun e => hb₂ (e ▸ hx)
  -- the links inside the two parts
  have hn₁ {x : α} (hx : x ∈ l₁) (hl : l₁.getLast? ≠ some x) : n' x = n x := by
    rw [hn, if_neg (hne₁ hx), if_neg (hpb ▸ hl)]
  have hn₂ {x : α} (hx : x ∈ l₂) : n' x = n x := by
    rw [hn, if_neg (hne₂ hx), if_neg fun e => hcross (List.mem_of_getLast? (hpb ▸ e)) hx]
  have hp₁ {x : α} (hx : x ∈ l₁) : p' x = p x := by
    rw [hp, if_neg (hne₁ hx), if_neg fun e => hcross hx (List.mem_of_head? (hnb ▸ e))]
  have hp₂ {x : α} (hx : x ∈ l₂) (hh : l₂.head? ≠ some x) : p' x = p x := by
    rw [hp, if_neg (hne₂ hx), if_neg (hnb ▸ hh)]
  have hseam₁ {x : α} (hx : l₁.getLast? = some x) : n' x = l₂.head? := by
    rw [hn, if_neg (hne₁ (List.mem_of_getLast? hx)), if_pos (hpb.trans hx), hnb]
  have hseam₂ {x : α} (hx : l₂.head? = some x) : p' x = l₁.getLast? := by
    rw [hp, if_neg (hne₂ (List.mem_of_head? hx)), if_pos (hnb.trans hx), hpb]
  refine ⟨?_, ?_, fun a ha => ?_, fun a ha => ?_⟩
  · rw [hf]
    cases l₁ with
    | nil =>
      have hfb : first = some b := h.first
      rw [if_pos hfb, hnb]
      rfl
    | cons c l₁ =>
      have hfc : first = some c := h.first
      rw [if_neg fun e => hb₁ (Option.some.inj (hfc.symm.trans e) ▸ List.mem_cons_self), hfc]
      rfl
  · refine List.isChain_append.mpr ⟨?_, ?_, fun a ha c hc => ?_⟩
    · exact chain_frame hc₁ hd₁ (fun x hx hl => hn₁ hx hl) fun x hx _ => hp₁ hx
    · exact chain_frame hc₂.tail hd₂ (fun x hx _ => hn₂ hx) fun x hx hh => hp₂ hx hh
    · exact ⟨(hseam₁ ha).trans hc, (hseam₂ hc).trans ha⟩
  · rw [List.getLast?_append] at ha
    cases hl : l₂.getLast? with
    | none =>
      rw [hl] at ha
      rw [hseam₁ ha, List.getLast?_eq_none_iff.mp hl]
      rfl
    | some z =>
      rw [hl] at ha
      obtain rfl : z = a := Option.some.inj ha
      rw [hn₂ (List.mem_of_getLast? hl)]
      refine h.last z ?_
      rw [List.getLast?_append, List.getLast?_cons, hl]
      rfl
  · cases l₁ with
    | nil => exact (hseam₂ ha).trans rfl
    | cons c l₁ =>
      obtain rfl := Option.some.inj ha
      rw [hp₁ List.mem_cons_self]
      exact h.front c rfl

end

end Lib
