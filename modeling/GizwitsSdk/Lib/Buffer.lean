import Mathlib.Data.List.GetD
import Mathlib.Data.Vector.Basic

/-!
# Buffers with checked access

A buffer is a list of a fixed length. An access to it that leaves it has no
result. The rules say when there is one and what the buffer then holds: a write
at the end of what is known of it makes more of it known.
-/

namespace Lib

section
variable {α : Type} {n : Nat}

/-- `len` elements from `off` on. -/
def slice (b : List α) (off len : Nat) : Option (List α) :=
  if off + len ≤ b.length then some ((b.drop off).take len) else none

/-- `memcpy` to the element `i`. -/
def put (b : List.Vector α n) (i : Nat) (xs : List α) : Option (List.Vector α n) :=
  if h : i + xs.length ≤ n then
    some ⟨b.1.take i ++ (xs ++ b.1.drop (i + xs.length)), by
      rw [List.length_append, List.length_append, List.length_take, List.length_drop, b.2]
      omega⟩
  else none

/-- Writes one piece behind the other, from the element `i` on. -/
def putAll (b : List.Vector α n) (i : Nat) : List (List α) → Option (List.Vector α n)
  | [] => some b
  | xs :: rest => (put b i xs).bind fun b => putAll b (i + xs.length) rest

/-- A buffer, the place behind what has been copied to it, and what is left of the source. -/
structure Copied (α : Type) (n : Nat) where
  dst : List.Vector α n
  next : Nat
  rest : List α

/-- Copies element by element up to `stop`, which is skipped. -/
def copyUntil [DecidableEq α] (stop : α) : List α → List.Vector α n → Nat → Option (Copied α n)
  | [], _, _ => none
  | c :: src, dst, i =>
    if c = stop then some { dst, next := i, rest := src }
    else (put dst i [c]).bind fun dst => copyUntil stop src dst (i + 1)

/-- The elements before the first `stop`, `len` at most; nothing is read behind it. -/
def readUntil [DecidableEq α] (stop : α) : List α → Nat → Option (List α)
  | _, 0 => some []
  | [], _ + 1 => none
  | c :: src, len + 1 => if c = stop then some [] else (readUntil stop src len).map (c :: ·)

/-- `strlen`, if the string ends. -/
def strlenIn (s : List UInt8) : Option Nat := if 0 ∈ s then some (s.takeWhile (· ≠ 0)).length else none

/-! ## Bytes of a buffer -/

/-- Two bytes, the high one first. -/
theorem be16_toNat (a b : UInt8) : (a.toUInt16 <<< 8 ||| b.toUInt16).toNat = 256 * a.toNat + b.toNat := by
  have ha := a.toNat_lt
  have hb := b.toNat_lt
  have h8 : (8 : UInt16).toNat % 16 = 8 := rfl
  rw [UInt16.toNat_or, UInt16.toNat_shiftLeft, h8, UInt8.toNat_toUInt16, UInt8.toNat_toUInt16,
    Nat.shiftLeft_eq, Nat.mod_eq_of_lt (by omega), Nat.mul_comm, ← Nat.two_pow_add_eq_or_of_lt hb]

theorem getD_zeros (l : List UInt8) (k i : Nat) : (l ++ List.replicate k 0).getD i 0 = l.getD i 0 := by
  rcases Nat.lt_or_ge i l.length with h | h
  · exact List.getD_append _ _ _ _ h
  · rw [List.getD_append_right _ _ _ _ h, List.getD_eq_default l _ h]
    rcases Nat.lt_or_ge (i - l.length) k with hk | hk
    · exact List.getD_replicate _ hk
    · exact List.getD_eq_default _ _ (by rwa [List.length_replicate])

theorem getD_mem {l : List UInt8} {i : Nat} (h : i < l.length) : l.getD i 0 ∈ l := by
  rw [List.getD_eq_getElem _ _ h]
  exact List.getElem_mem h

theorem getD_drop (l : List UInt8) (k i : Nat) : (l.drop k).getD i 0 = l.getD (k + i) 0 := by
  rw [List.getD_eq_getElem?_getD, List.getElem?_drop, ← List.getD_eq_getElem?_getD]

/-- What follows an access that is made does not depend on what it finds. -/
theorem bind_isSome {β γ : Type} {o : Option β} {f : β → Option γ} {P : Prop}
    (h : ∀ a, o = some a → ((f a).isSome ↔ P)) : (o.bind f).isSome ↔ o.isSome ∧ P := by
  cases o with
  | none => simp
  | some a => simpa using h a rfl

/-! ## Reading -/

theorem slice_of_le {b : List α} {off len : Nat} (h : off + len ≤ b.length) :
    slice b off len = some ((b.drop off).take len) := if_pos h

theorem slice_isSome {b : List α} {off len : Nat} : (slice b off len).isSome ↔ off + len ≤ b.length := by
  unfold slice
  split <;> simp [*]

theorem slice_none {b : List α} {off len : Nat} (h : ¬ off + len ≤ b.length) : slice b off len = none :=
  if_neg h

theorem length_slice {b x : List α} {off len : Nat} (h : slice b off len = some x) : x.length = len := by
  have hle := slice_isSome.mp (Option.isSome_of_eq_some h)
  rw [slice_of_le hle] at h
  rw [← Option.some.inj h, List.length_take, List.length_drop]
  omega

/-! ## Fields -/

/-- Bytes behind their length in two bytes. -/
def field (x : List UInt8) : List UInt8 := .ofNat (x.length / 256) :: .ofNat (x.length % 256) :: x

def readField : List UInt8 → Option (List UInt8 × List UInt8)
  | hi :: lo :: l =>
    (slice l 0 (256 * hi.toNat + lo.toNat)).map fun x => (x, l.drop (256 * hi.toNat + lo.toNat))
  | _ => none

def readFields : Nat → List UInt8 → Option (List (List UInt8) × List UInt8)
  | 0, l => some ([], l)
  | k + 1, l => (readField l).bind fun x => (readFields k x.2).map fun xs => (x.1 :: xs.1, xs.2)

theorem field_short {x : List UInt8} (h : x.length < 256) : field x = 0 :: .ofNat x.length :: x := by
  unfold field
  rw [Nat.div_eq_of_lt h, Nat.mod_eq_of_lt h]
  rfl

theorem readField_field {x : List UInt8} (h : x.length < 65536) (rest : List UInt8) :
    readField (field x ++ rest) = some (x, rest) := by
  have hlen : 256 * (UInt8.ofNat (x.length / 256)).toNat + (UInt8.ofNat (x.length % 256)).toNat = x.length := by
    rw [UInt8.toNat_ofNat', UInt8.toNat_ofNat']
    omega
  unfold field readField
  rw [List.cons_append, List.cons_append]
  dsimp only
  rw [hlen, slice_of_le (by rw [List.length_append]; omega), List.drop_zero, List.take_left, List.drop_left]
  rfl

theorem readFields_fields {xs : List (List UInt8)} (h : ∀ x ∈ xs, x.length < 65536) (rest : List UInt8) :
    readFields xs.length ((xs.map field).flatten ++ rest) = some (xs, rest) := by
  induction xs with
  | nil => rfl
  | cons x xs ih =>
    obtain ⟨hx, hxs⟩ := List.forall_mem_cons.mp h
    rw [List.map_cons, List.flatten_cons, List.append_assoc, List.length_cons, readFields, readField_field hx,
      Option.bind_some, ih hxs]
    rfl

theorem readFields_all {xs : List (List UInt8)} (h : ∀ x ∈ xs, x.length < 65536) :
    readFields xs.length (xs.map field).flatten = some (xs, []) := by
  have := readFields_fields h []
  rwa [List.append_nil] at this

/-! ## Bytes behind -/

/-- Two runs that get as far as a result have the same one, whatever lies behind
the bytes `f` in either. -/
def OwnBytes {β : Type} (f : List α) (run : List α → Option β) : Prop :=
  ∀ rest₁ rest₂ b₁ b₂, run (f ++ rest₁) = some b₁ → run (f ++ rest₂) = some b₂ → b₁ = b₂

theorem getD_front {f : List UInt8} {i : Nat} (h : i < f.length) (rest : List UInt8) :
    (f ++ rest).getD i 0 = f.getD i 0 := List.getD_append _ _ _ _ h

theorem getD_set_self {l : List UInt8} {i : Nat} (h : i < l.length) (x : UInt8) : (l.set i x).getD i 0 = x := by
  rw [List.getD_eq_getElem _ _ (by rwa [List.length_set]), List.getElem_set_self]

theorem getD_set_ne {l : List UInt8} {i j : Nat} (h : i ≠ j) (x : UInt8) : (l.set i x).getD j 0 = l.getD j 0 := by
  rw [List.getD_eq_getElem?_getD, List.getElem?_set_ne h, ← List.getD_eq_getElem?_getD]

/-! ## Writing -/

variable {b b' : List.Vector α n} {i : Nat} {xs : List α}

theorem put_none (h : ¬ i + xs.length ≤ n) : put b i xs = none := dif_neg h

theorem put_isSome : (put b i xs).isSome ↔ i + xs.length ≤ n := by
  unfold put
  split
  · rename_i h
    exact iff_of_true rfl h
  · rename_i h
    exact iff_of_false (by simp) h

theorem put_of_le (b : List.Vector α n) (xs : List α) (h : i + xs.length ≤ n) : ∃ b', put b i xs = some b' :=
  ⟨_, dif_pos h⟩

theorem put_toList (h : put b i xs = some b') :
    i + xs.length ≤ n ∧ b'.1 = b.1.take i ++ (xs ++ b.1.drop (i + xs.length)) := by
  unfold put at h
  split at h
  · rename_i hle
    obtain rfl := Option.some.inj h
    exact ⟨hle, rfl⟩
  · cases h

/-- What is known up to `i` is known up to the end of what is written there. -/
theorem put_take (h : put b i xs = some b') : b'.1.take (i + xs.length) = b.1.take i ++ xs := by
  obtain ⟨hle, hb⟩ := put_toList h
  rw [hb, ← List.append_assoc, List.take_left']
  rw [List.length_append, List.length_take, b.2]
  omega

theorem put_drop (h : put b i xs = some b') : b'.1.drop (i + xs.length) = b.1.drop (i + xs.length) := by
  obtain ⟨hle, hb⟩ := put_toList h
  rw [hb, ← List.append_assoc, List.drop_left']
  rw [List.length_append, List.length_take, b.2]
  omega

theorem put_append (ys : List α) :
    ((put b i xs).bind fun b => put b (i + xs.length) ys) = put b i (xs ++ ys) := by
  have hlen : (xs ++ ys).length = xs.length + ys.length := List.length_append
  by_cases h : i + xs.length ≤ n
  · obtain ⟨b', hp⟩ := put_of_le b xs h
    rw [hp, Option.bind_some]
    by_cases h' : i + xs.length + ys.length ≤ n
    · obtain ⟨b₁, hp₁⟩ := put_of_le b' ys h'
      obtain ⟨b₂, hp₂⟩ := put_of_le b (xs ++ ys) (show i + (xs ++ ys).length ≤ n by omega)
      rw [hp₁, hp₂, Option.some_inj]
      apply Subtype.ext
      rw [(put_toList hp₁).2, (put_toList hp₂).2, put_take hp, ← List.drop_drop, put_drop hp, List.drop_drop,
        hlen, ← Nat.add_assoc, List.append_assoc, List.append_assoc]
    · rw [put_none h', put_none (by omega)]
  · rw [put_none h, put_none (by omega)]
    rfl

theorem put_nil (b : List.Vector α n) (h : i ≤ n) : put b i [] = some b := by
  obtain ⟨b', hp⟩ := put_of_le b [] (show i + 0 ≤ n from h)
  rw [hp, Option.some_inj]
  apply Subtype.ext
  rw [(put_toList hp).2]
  exact List.take_append_drop i b.1

/-- Writing what is there. -/
theorem put_same {x : α} (h : b.1[i]? = some x) : put b i [x] = some b := by
  obtain ⟨hi, hx⟩ := List.getElem?_eq_some_iff.mp h
  rw [b.2] at hi
  obtain ⟨b', hp⟩ := put_of_le b [x] (show i + 1 ≤ n from hi)
  rw [hp, Option.some_inj]
  apply Subtype.ext
  rw [(put_toList hp).2, List.length_singleton, ← hx, List.singleton_append, ← List.drop_eq_getElem_cons]
  exact List.take_append_drop i b.1

theorem put_prefix (h : put b 0 xs = some b') : xs <+: b'.1 := by
  rw [(put_toList h).2, List.take_zero, List.nil_append]
  exact List.prefix_append xs _

/-- A copy from the start on that is terminated. -/
theorem put_terminated (b : List.Vector α n) {s : List α} (z : α) (hn : s.length < n) :
    ∃ b', ((put b 0 s).bind fun b => put b s.length [z]) = some b' ∧ (s ++ [z]) <+: b'.1 := by
  obtain ⟨b', hp⟩ := put_of_le (i := 0) b (s ++ [z]) (by rw [List.length_append, List.length_singleton]; omega)
  have happ := @put_append _ _ b 0 s [z]
  rw [Nat.zero_add] at happ
  exact ⟨b', happ.trans hp, put_prefix hp⟩

theorem put_terminated_isSome (b : List.Vector α n) (s : List α) (z : α) :
    ((put b 0 s).bind fun b => put b s.length [z]).isSome ↔ s.length < n := by
  have happ := @put_append _ _ b 0 s [z]
  rw [Nat.zero_add] at happ
  rw [happ, put_isSome, Nat.zero_add, List.length_append, List.length_singleton]
  exact Nat.succ_le_iff

theorem putAll_eq (b : List.Vector α n) (xss : List (List α)) (h : i ≤ n) :
    putAll b i xss = put b i xss.flatten := by
  induction xss generalizing b i with
  | nil => exact (put_nil b h).symm
  | cons xs xss ih =>
    rw [List.flatten_cons, ← put_append]
    unfold putAll
    cases hp : put b i xs with
    | none => rfl
    | some b' => exact ih b' (put_toList hp).1

/-- What has been written from the start on. -/
theorem putAll_start (b : List.Vector α n) (xss : List (List α)) (h : xss.flatten.length ≤ n) :
    ∃ b', putAll b 0 xss = some b' ∧ b'.1.take xss.flatten.length = xss.flatten := by
  obtain ⟨b', hp⟩ := put_of_le (i := 0) b xss.flatten (by omega)
  refine ⟨b', (putAll_eq b xss (Nat.zero_le n)).trans hp, ?_⟩
  have := put_take hp
  rwa [Nat.zero_add, List.take_zero, List.nil_append] at this

theorem putAll_append (b : List.Vector α n) (xss yss : List (List α)) :
    ((putAll b i xss).bind fun b => putAll b (i + xss.flatten.length) yss) = putAll b i (xss ++ yss) := by
  induction xss generalizing b i with
  | nil => rfl
  | cons xs xss ih =>
    rw [List.cons_append, List.flatten_cons, List.length_append, ← Nat.add_assoc, putAll.eq_2, putAll.eq_2]
    cases put b i xs with
    | none => rfl
    | some b' => exact ih b'

/-- A buffer that is known up to `w`. -/
theorem getD_known {b : List.Vector UInt8 n} {w : List UInt8} (h : b.1.take w.length = w) {k : Nat}
    (hk : k < w.length) : b.1.getD k 0 = w.getD k 0 := by
  have hw : (b.1.take w.length).getD k 0 = w.getD k 0 := by rw [h]
  rw [← hw, List.getD_eq_getElem?_getD, List.getD_eq_getElem?_getD, List.getElem?_take_of_lt hk]

/-- What is written from the start on and then read back. -/
theorem putAll_slice (b : List.Vector α n) (xss : List (List α)) (h : xss.flatten.length ≤ n) :
    ((putAll b 0 xss).bind fun b => slice b.1 0 xss.flatten.length) = some xss.flatten := by
  obtain ⟨b', hp, ht⟩ := putAll_start b xss h
  rw [hp, Option.bind_some, slice_of_le (by rw [Nat.zero_add, b'.2]; exact h), List.drop_zero, ht]

/-! ## Copying up to an element -/

section
variable [DecidableEq α] {stop : α} {w : List α}

/-- A list up to an element of it, and what lies behind. -/
theorem split_at {l : List α} (h : stop ∈ l) :
    l = l.takeWhile (· ≠ stop) ++ stop :: (l.dropWhile (· ≠ stop)).drop 1 ∧ stop ∉ l.takeWhile (· ≠ stop) := by
  induction l with
  | nil => cases h
  | cons a l ih =>
    by_cases ha : a = stop
    · subst ha
      simp
    · obtain ⟨hl, hn⟩ := ih ((List.mem_cons.mp h).resolve_left (Ne.symm ha))
      rw [List.takeWhile_cons_of_pos (by simpa using ha), List.dropWhile_cons_of_pos (by simpa using ha)]
      exact ⟨congrArg (a :: ·) hl, not_or.mpr ⟨Ne.symm ha, hn⟩ ∘ List.mem_cons.mp⟩

theorem takeWhile_append_clear (h : stop ∉ w) (rest : List α) :
    (w ++ rest).takeWhile (· ≠ stop) = w ++ rest.takeWhile (· ≠ stop) := by
  apply List.takeWhile_append_of_pos
  intro a ha
  simpa using fun e : a = stop => h (e ▸ ha)

theorem takeWhile_append_stop (h : stop ∉ w) (rest : List α) :
    (w ++ stop :: rest).takeWhile (· ≠ stop) = w := by
  rw [takeWhile_append_clear h, List.takeWhile_cons_of_neg (by simp), List.append_nil]

theorem takeWhile_clear (h : stop ∉ w) : w.takeWhile (· ≠ stop) = w := by
  have happ := takeWhile_append_clear h []
  rwa [List.append_nil, List.takeWhile_nil, List.append_nil] at happ

theorem readUntil_eq {src : List α} {len : Nat} (h : len ≤ src.length ∨ stop ∈ src) :
    readUntil stop src len = some ((src.take len).takeWhile (· ≠ stop)) := by
  induction src generalizing len with
  | nil =>
    obtain rfl : len = 0 := by simpa using h
    rfl
  | cons c src ih =>
    cases len with
    | zero => rfl
    | succ len =>
      unfold readUntil
      rw [List.take_succ_cons]
      by_cases hc : c = stop
      · rw [if_pos hc, List.takeWhile_cons_of_neg (by simpa using hc)]
      · rw [if_neg hc, List.takeWhile_cons_of_pos (by simpa using hc), ih]
        · rfl
        · rcases h with hle | hmem
          · exact .inl (Nat.le_of_succ_le_succ hle)
          · exact .inr ((List.mem_cons.mp hmem).resolve_left (Ne.symm hc))

theorem readUntil_none {src : List α} {len : Nat} (h : ¬ (len ≤ src.length ∨ stop ∈ src)) :
    readUntil stop src len = none := by
  induction src generalizing len with
  | nil =>
    cases len with
    | zero => exact absurd (.inl (Nat.le_refl 0)) h
    | succ len => rfl
  | cons c src ih =>
    obtain ⟨hlen, hmem⟩ := not_or.mp h
    obtain ⟨hc, hs⟩ := not_or.mp (mt List.mem_cons.mpr hmem)
    cases len with
    | zero => exact absurd (Nat.zero_le _) hlen
    | succ len =>
      unfold readUntil
      rw [if_neg (Ne.symm hc), ih (not_or.mpr ⟨mt Nat.succ_le_succ hlen, hs⟩)]
      rfl

theorem copyUntil_none {src : List α} (h : stop ∉ src) (b : List.Vector α n) (i : Nat) :
    copyUntil stop src b i = none := by
  induction src generalizing b i with
  | nil => rfl
  | cons c src ih =>
    obtain ⟨hc, hs⟩ := not_or.mp (mt List.mem_cons.mpr h)
    unfold copyUntil
    rw [if_neg (Ne.symm hc)]
    cases put b i [c] with
    | none => rfl
    | some b' => exact ih hs b' (i + 1)

theorem copyUntil_append (h : stop ∉ w) (rest : List α) (b : List.Vector α n) (i : Nat)
    (hi : i ≤ n) : copyUntil stop (w ++ stop :: rest) b i = (put b i w).map fun b => ⟨b, i + w.length, rest⟩ := by
  induction w generalizing b i with
  | nil =>
    rw [put_nil b hi, List.nil_append]
    unfold copyUntil
    rw [if_pos rfl]
    rfl
  | cons c w ih =>
    obtain ⟨hc, hw⟩ := not_or.mp (mt List.mem_cons.mpr h)
    have hp := @put_append _ _ b i [c] w
    rw [List.singleton_append, List.length_singleton] at hp
    rw [List.cons_append]
    unfold copyUntil
    rw [if_neg (Ne.symm hc), ← hp, Option.map_bind]
    cases h1 : put b i [c] with
    | none => rfl
    | some b' =>
      have hi' : i + 1 ≤ n := (put_toList h1).1
      rw [Option.bind_some, Option.bind_some, ih hw b' (i + 1) hi', List.length_cons]
      simp only [Function.comp, Nat.add_assoc, Nat.add_comm 1]

/-- A copy up to `stop` that is terminated is the copy of a terminated list. -/
theorem copyUntil_isSome {β : Type} (h : stop ∉ w) (rest : List α) (b : List.Vector α n) (z : α)
    {f : Copied α n → List.Vector α n → Option β} {P : Prop}
    (hf : ∀ c b', put b 0 (w ++ [z]) = some b' → c.next = w.length → c.rest = rest → ((f c b').isSome ↔ P)) :
    ((copyUntil stop (w ++ stop :: rest) b 0).bind fun c => (put c.dst c.next [z]).bind (f c)).isSome ↔
      w.length + 1 ≤ n ∧ P := by
  have happ := @put_append _ _ b 0 w [z]
  have hput := @put_isSome _ _ b 0 (w ++ [z])
  rw [Nat.zero_add, List.length_append, List.length_singleton] at hput
  rw [copyUntil_append h rest b 0 (Nat.zero_le n), Option.bind_map]
  cases hp : put b 0 w with
  | none =>
    rw [hp, Option.bind_none] at happ
    rw [← happ] at hput
    exact iff_of_false (by simp) fun hc => absurd (hput.mpr hc.1) (by simp)
  | some b₁ =>
    rw [hp, Option.bind_some] at happ
    rw [Option.bind_some]
    show ((put b₁ (0 + w.length) [z]).bind _).isSome ↔ _
    rw [happ]
    refine (bind_isSome fun b' hb => ?_).trans (and_congr_left' hput)
    exact hf _ b' hb (Nat.zero_add _) rfl

end

end

end Lib
