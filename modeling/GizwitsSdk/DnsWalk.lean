import GizwitsSdk.DnsName

/-!
# The walk over any bytes

A query of any bytes begins with labels that the name of the server has as well.
What stands behind them ends the walk: a label that differs, the length byte of
a compressed name, the 0 behind the last label, or the end of the datagram.
-/

namespace GizwitsSdk

open Lib

def dnsNameOf (srv : Mem) : List UInt8 :=
  ((List.range 32).map fun k => srv (dnsNameAt + k)).takeWhile (· ≠ 0)

def OwnName (srv : Mem) (name : List UInt8) : Prop :=
  ∃ labels, (∀ l ∈ labels, 1 ≤ l.length ∧ l.length ≤ 63) ∧ name ++ [0] = wireName labels ∧
    sameName (joined labels) (dnsNameOf srv)

def wireLabels (labels : List (List UInt8)) : List UInt8 := labels.flatMap fun l => .ofNat l.length :: l

/-- Labels at `i`, none of them compressed. -/
def Walk (srv : Mem) (i : Nat) (labels : List (List UInt8)) : Prop :=
  (∀ l ∈ labels, 1 ≤ l.length ∧ l.length < 192) ∧ labelsAt srv i labels

/-- What a walk over a query may come to behind labels that the server has: a
byte that differs, or an end. Behind an end that is accepted the labels have to
be those of the name. -/
inductive WalkEnd (srv : Mem) (labels : List (List UInt8)) : List UInt8 → Prop
  | differs {n : UInt8} {l : List UInt8} (k : Nat) (hn : ¬ n &&& 0xc0 = 0xc0) (hk : k < n.toNat) (hl : k < l.length)
      (hd : nstToUpper (srv (dnsNameAt + (wireLabels labels).length + k)) ≠ nstToUpper (l.getD k 0)) :
      WalkEnd srv labels (n :: l)
  | compressed {n : UInt8} {l : List UInt8} (hn : n &&& 0xc0 = 0xc0)
      (hs : srv (dnsNameAt + (wireLabels labels).length - 1) ≠ 0) : WalkEnd srv labels (n :: l)
  | done {l : List UInt8} (hne : labels ≠ [])
      (hs : srv (dnsNameAt + (wireLabels labels).length - 1) = 0 →
        (∀ l ∈ labels, l.length ≤ 63 ∧ 0 ∉ l) ∧ dotsAt srv dnsNameAt labels) : WalkEnd srv labels (0 :: l)

/-- The name is empty or too long, or the walk over it ends well. -/
def QueryClear (srv : Mem) (query : List UInt8) : Prop :=
  (query.takeWhile (· ≠ 0)).length = 0 ∨ 33 < (query.takeWhile (· ≠ 0)).length ∨
    ∃ labels tail, Walk srv dnsNameAt labels ∧ query = wireLabels labels ++ tail ∧ WalkEnd srv labels tail

/-! ## One label -/

theorem lengthByte_lt {n : UInt8} (h : ¬ n &&& 0xc0 = 0xc0) : n.toNat < 192 := by
  have hall : ∀ m : Fin 256, 192 ≤ m.val → m.val &&& 192 = 192 := by decide +kernel
  by_contra hn
  exact h (UInt8.toNat_inj.mp (by
    rw [UInt8.toNat_and]
    exact hall ⟨n.toNat, n.toNat_lt⟩ (Nat.not_lt.mp hn)))

section
variable {srv : Mem} {n i : Nat} {q rest : List UInt8}

theorem compareLabel_some (h : compareLabel srv n i q = some (some rest)) :
    ∃ l, l.length = n ∧ q = l ++ rest ∧ upperAt srv i l := by
  induction n generalizing i q with
  | zero =>
    obtain rfl := Option.some.inj (Option.some.inj h)
    exact ⟨[], rfl, rfl, fun k hk => absurd hk (Nat.not_lt_zero k)⟩
  | succ n ih =>
    cases q with
    | nil => cases h
    | cons c q =>
      unfold compareLabel at h
      split at h
      · cases h
      · rename_i h0
        obtain ⟨l, hl, hq, hu⟩ := ih h
        exact ⟨c :: l, congrArg (· + 1) hl, congrArg (c :: ·) hq, upperAt_cons.mpr ⟨not_not.mp h0, hu⟩⟩

theorem compareLabel_differs_iff : compareLabel srv n i q = some none ↔
    ∃ k, k < n ∧ k < q.length ∧ nstToUpper (srv (i + k)) ≠ nstToUpper (q.getD k 0) := by
  induction n generalizing i q with
  | zero => simp [compareLabel]
  | succ n ih =>
    cases q with
    | nil => simp [compareLabel]
    | cons c q =>
      unfold compareLabel
      split
      · rename_i h0
        exact iff_of_true rfl ⟨0, Nat.succ_pos n, Nat.succ_pos _, h0⟩
      · rename_i h0
        rw [ih]
        constructor
        · rintro ⟨k, hk, hl, hd⟩
          refine ⟨k + 1, Nat.succ_lt_succ hk, Nat.succ_lt_succ hl, ?_⟩
          rwa [List.getD_cons_succ, Nat.add_comm k, ← Nat.add_assoc]
        · rintro ⟨k, hk, hl, hd⟩
          cases k with
          | zero => exact absurd hd h0
          | succ k =>
            refine ⟨k, Nat.lt_of_succ_lt_succ hk, Nat.lt_of_succ_lt_succ hl, ?_⟩
            rwa [List.getD_cons_succ, Nat.add_comm k, ← Nat.add_assoc] at hd

end

/-! ## The walk -/

section
variable {srv : Mem} {i : Nat} {labels : List (List UInt8)}

theorem wireLabels_cons (l : List UInt8) (ls : List (List UInt8)) :
    wireLabels (l :: ls) = .ofNat l.length :: (l ++ wireLabels ls) := List.flatMap_cons

theorem walk_cons {l : List UInt8} {ls : List (List UInt8)} :
    Walk srv i (l :: ls) ↔
      (1 ≤ l.length ∧ l.length < 192) ∧ upperAt srv i l ∧ Walk srv (i + l.length + 1) ls := by
  unfold Walk
  rw [List.forall_mem_cons, labelsAt_cons]
  tauto

theorem wireLabels_length (labels : List (List UInt8)) (h : ∀ l ∈ labels, 1 ≤ l.length ∧ l.length < 192) :
    labels.length ≤ (wireLabels labels).length := by
  induction labels with
  | nil => exact Nat.zero_le _
  | cons l ls ih =>
    have := ih (List.forall_mem_cons.mp h).2
    rw [wireLabels_cons, List.length_cons, List.length_cons, List.length_append]
    omega

/-- The loop comes to what is behind the labels. -/
theorem compareLoop_walk (hw : Walk srv i labels) (hne : labels ≠ []) (turns : Nat) (tail : List UInt8) :
    compareLoop srv (labels.length + turns) i (wireLabels labels ++ tail) =
      tail.head?.bind fun c =>
        if c ≠ 0 then compareLoop srv turns (i + (wireLabels labels).length) tail
        else some (compareEnd srv (i + (wireLabels labels).length)) := by
  induction labels generalizing i with
  | nil => exact absurd rfl hne
  | cons l ls ih =>
    obtain ⟨⟨h1, h192⟩, hu, hw⟩ := walk_cons.mp hw
    obtain ⟨hc, hn, -⟩ := labelByte h1 h192
    have hlen : i + (wireLabels (l :: ls)).length = i + l.length + 1 + (wireLabels ls).length := by
      rw [wireLabels_cons, List.length_cons, List.length_append]
      omega
    rw [hlen, wireLabels_cons, List.cons_append, List.append_assoc,
      show (l :: ls).length + turns = ls.length + turns + 1 by rw [List.length_cons]; omega]
    rw [compareLoop.eq_3, if_neg hc, hn, compareLabel_same _ hu, Option.bind_some]
    cases ls with
    | nil =>
      dsimp only
      rw [List.length_nil, Nat.zero_add]
      rfl
    | cons l' ls =>
      obtain ⟨⟨h1', h192'⟩, -, -⟩ := walk_cons.mp hw
      have h0 := (labelByte h1' h192').2.2
      have hstep := ih hw (List.cons_ne_nil l' ls)
      rw [wireLabels_cons, List.cons_append] at hstep ⊢
      dsimp only
      rw [List.head?_cons, Option.bind_some, if_pos h0]
      exact hstep

/-- No label that the server has as well. -/
def WalkStops (srv : Mem) (i : Nat) : List UInt8 → Prop
  | [] => True
  | n :: l => n &&& 0xc0 = 0xc0 ∨ n = 0 ∨ ∀ rest, compareLabel srv n.toNat i l ≠ some (some rest)

theorem walk_exists (srv : Mem) (i : Nat) (q : List UInt8) : ∃ labels tail,
    Walk srv i labels ∧ q = wireLabels labels ++ tail ∧ WalkStops srv (i + (wireLabels labels).length) tail := by
  induction hlen : q.length using Nat.strong_induction_on generalizing q i with
  | _ m ih =>
    by_cases hs : WalkStops srv i q
    · exact ⟨[], q, ⟨fun l hl => absurd hl List.not_mem_nil, trivial⟩, rfl, hs⟩
    cases q with
    | nil => exact absurd trivial hs
    | cons n q =>
      unfold WalkStops at hs
      rw [not_or, not_or, not_forall] at hs
      obtain ⟨hc, h0, rest, hr⟩ := hs
      obtain ⟨l, hl, rfl, hu⟩ := compareLabel_some (not_not.mp hr)
      have hpos : 1 ≤ l.length := by
        rw [hl]
        exact Nat.pos_of_ne_zero fun h => h0 (UInt8.toNat_inj.mp h)
      have hlt : l.length < 192 := by
        rw [hl]
        exact lengthByte_lt hc
      obtain ⟨labels, tail, hw, rfl, hst⟩ := ih rest.length (by
        rw [← hlen, List.length_cons, List.length_append]
        omega) (i + l.length + 1) rest rfl
      refine ⟨l :: labels, tail, walk_cons.mpr ⟨⟨hpos, hlt⟩, hu, hw⟩, ?_, ?_⟩
      · rw [wireLabels_cons, hl, UInt8.ofNat_toNat, List.cons_append, List.append_assoc]
      · rw [wireLabels_cons, List.length_cons, List.length_append]
        rwa [show i + (l.length + (wireLabels labels).length + 1) =
          i + l.length + 1 + (wireLabels labels).length by omega]

/-- What the loop makes of the end of a walk. -/
def compareStop (srv : Mem) (i : Nat) : List UInt8 → Option Int
  | [] => none
  | n :: l =>
    if n &&& 0xc0 = 0xc0 ∨ n = 0 then some (compareEnd srv i)
    else if compareLabel srv n.toNat i l = some none then some 1 else none

theorem compareStop_cons (srv : Mem) (i : Nat) (n : UInt8) (l : List UInt8) : compareStop srv i (n :: l) =
    if n &&& 0xc0 = 0xc0 ∨ n = 0 then some (compareEnd srv i)
    else if compareLabel srv n.toNat i l = some none then some 1 else none := rfl

theorem compareLoop_stop (hw : Walk srv i labels) {tail : List UInt8}
    (hst : WalkStops srv (i + (wireLabels labels).length) tail) (hhead : (wireLabels labels ++ tail).head? ≠ some 0) :
    compareLoop srv (wireLabels labels ++ tail).length i (wireLabels labels ++ tail) =
      compareStop srv (i + (wireLabels labels).length) tail := by
  have hend (turns : Nat) (i : Nat) (n : UInt8) (l : List UInt8) (hst : WalkStops srv i (n :: l)) (h0 : n ≠ 0) :
      compareLoop srv (turns + 1) i (n :: l) = compareStop srv i (n :: l) := by
    rw [compareStop_cons, compareLoop.eq_3]
    by_cases hc : n &&& 0xc0 = 0xc0
    · rw [if_pos hc, if_pos (.inl hc)]
    · rw [if_neg hc, if_neg (not_or.mpr ⟨hc, h0⟩)]
      have hr := (hst.resolve_left hc).resolve_left h0
      cases hl : compareLabel srv n.toNat i l with
      | none => rfl
      | some o =>
        cases o with
        | none => rfl
        | some rest => exact absurd hl (hr rest)
  have hlen := wireLabels_length labels hw.1
  by_cases hne : labels = []
  · subst hne
    cases tail with
    | nil => rfl
    | cons n l => exact hend l.length i n l hst fun h0 => hhead (congrArg some h0)
  · obtain ⟨turns, ht⟩ : ∃ turns, (wireLabels labels ++ tail).length = labels.length + (turns + tail.length) :=
      ⟨(wireLabels labels).length - labels.length, by rw [List.length_append]; omega⟩
    rw [ht, compareLoop_walk hw hne]
    cases tail with
    | nil => rfl
    | cons n l =>
      rw [List.head?_cons, Option.bind_some]
      by_cases h0 : n = 0
      · subst h0
        rfl
      · rw [if_pos h0]
        exact hend (turns + l.length) _ n l hst h0

end

/-! ## Own names -/

/-- The labels up to a byte that is not the length of one. -/
theorem wireLabels_unique {a b : List (List UInt8)} (ha : ∀ l ∈ a, 1 ≤ l.length ∧ l.length < 192)
    (hb : ∀ l ∈ b, 1 ≤ l.length ∧ l.length < 192) {n m : UInt8} {x y : List UInt8}
    (hn : n &&& 0xc0 = 0xc0 ∨ n = 0) (hm : m &&& 0xc0 = 0xc0 ∨ m = 0)
    (h : wireLabels a ++ n :: x = wireLabels b ++ m :: y) : a = b ∧ n = m := by
  have hbyte {l : List UInt8} (hl : 1 ≤ l.length ∧ l.length < 192) {c : UInt8} (hc : c &&& 0xc0 = 0xc0 ∨ c = 0) :
      UInt8.ofNat l.length ≠ c := by
    obtain ⟨h1, -, h2⟩ := labelByte hl.1 hl.2
    rintro rfl
    exact hc.elim h1 h2
  induction a generalizing b with
  | nil =>
    cases b with
    | nil => exact ⟨rfl, (List.cons.inj h).1⟩
    | cons l' b =>
      rw [wireLabels_cons] at h
      exact absurd (List.cons.inj h).1.symm (hbyte (hb l' List.mem_cons_self) hn)
  | cons l a ih =>
    obtain ⟨hl, ha⟩ := List.forall_mem_cons.mp ha
    rw [wireLabels_cons] at h
    cases b with
    | nil => exact absurd (List.cons.inj h).1 (hbyte hl hm)
    | cons l' b =>
      obtain ⟨hl', hb'⟩ := List.forall_mem_cons.mp hb
      rw [wireLabels_cons, List.cons_append, List.cons_append, List.append_assoc, List.append_assoc] at h
      obtain ⟨h0, h⟩ := List.cons.inj h
      have hlen : l.length = l'.length := by
        rw [← (labelByte hl.1 hl.2).2.1, h0, (labelByte hl'.1 hl'.2).2.1]
      obtain ⟨hll, hrest⟩ := List.append_inj h hlen
      obtain ⟨rfl, hnm⟩ := ih ha hb' hrest
      subst hll
      exact ⟨rfl, hnm⟩

section
variable {srv : Mem} {labels : List (List UInt8)} {q : List UInt8}

theorem dnsNameOf_at (srv : Mem) {k : Nat} (hk : k < (dnsNameOf srv).length) :
    srv (dnsNameAt + k) = (dnsNameOf srv).getD k 0 := by
  have hp : dnsNameOf srv <+: (List.range 32).map fun k => srv (dnsNameAt + k) := List.takeWhile_prefix _
  rw [List.getD_eq_getElem _ _ hk, hp.getElem hk, List.getElem_map, List.getElem_range]

theorem mem_joined {c : UInt8} (h : c ∈ joined labels) : c = 0x2e ∨ ∃ l ∈ labels, c ∈ l := by
  induction labels with
  | nil => cases h
  | cons l ls ih =>
    cases ls with
    | nil =>
      rw [joined, List.intercalate_singleton] at h
      exact .inr ⟨l, List.mem_cons_self, h⟩
    | cons l' ls =>
      rw [joined_cons] at h
      rcases List.mem_append.mp h with h | h
      · exact .inr ⟨l, List.mem_cons_self, h⟩
      rcases List.mem_cons.mp h with h | h
      · exact .inl h
      · exact (ih h).imp id fun h => by
          obtain ⟨l₁, hl₁, h⟩ := h
          exact ⟨l₁, List.mem_cons_of_mem l hl₁, h⟩

/-- Bytes that are not 0, and a 0 behind them if the field goes on. -/
theorem dnsNameOf_length {n : Nat} (h32 : n ≤ 32) (hne : ∀ k < n, srv (dnsNameAt + k) ≠ 0)
    (h0 : srv (dnsNameAt + n) = 0) : (dnsNameOf srv).length = n := by
  have hmem : 0 ∉ (List.range n).map fun k => srv (dnsNameAt + k) := by
    intro h
    obtain ⟨k, hk, hz⟩ := List.mem_map.mp h
    exact hne k (List.mem_range.mp hk) hz
  unfold dnsNameOf
  obtain ⟨m, hm⟩ : ∃ m, 32 = n + m := ⟨32 - n, by omega⟩
  rw [hm, List.range_add, List.map_append]
  cases m with
  | zero =>
    rw [List.range_zero, List.map_nil, List.map_nil, List.append_nil, takeWhile_clear hmem, List.length_map,
      List.length_range]
  | succ m =>
    rw [List.range_succ_eq_map, List.map_cons, List.map_cons, Nat.add_zero, h0, takeWhile_append_stop hmem,
      List.length_map, List.length_range]

/-- A query for the own name begins with the labels of it and a 0. -/
theorem ownName_split (h0 : 0 ∈ q) (h : OwnName srv (q.takeWhile (· ≠ 0))) :
    ∃ labels, (∀ l ∈ labels, 1 ≤ l.length ∧ l.length < 192) ∧ (∀ l ∈ labels, l.length ≤ 63) ∧
      ∃ rest, q = wireLabels labels ++ 0 :: rest ∧ 0 ∉ wireLabels labels ∧
        sameName (joined labels) (dnsNameOf srv) := by
  obtain ⟨labels, h63, hname, hsame⟩ := h
  obtain ⟨hsplit, hz⟩ := split_at h0
  have hname : q.takeWhile (· ≠ 0) = wireLabels labels := List.append_cancel_right hname
  rw [hname] at hsplit hz
  refine ⟨labels, fun l hl => ?_, fun l hl => (h63 l hl).2, _, hsplit, hz, hsame⟩
  obtain ⟨h1, h2⟩ := h63 l hl
  exact ⟨h1, by omega⟩

theorem ownName_iff (hw : Walk srv dnsNameAt labels) (hne : labels ≠ []) {l : List UInt8}
    (h33 : ((wireLabels labels ++ 0 :: l).takeWhile (· ≠ 0)).length ≤ 33)
    (h0 : srv (dnsNameAt + (wireLabels labels).length - 1) = 0) :
    OwnName srv ((wireLabels labels ++ 0 :: l).takeWhile (· ≠ 0)) ↔
      (∀ l ∈ labels, l.length ≤ 63 ∧ 0 ∉ l) ∧ dotsAt srv dnsNameAt labels := by
  have hjoined : (wireLabels labels).length = (joined labels).length + 1 := by
    have := wireName_length hne
    rw [show wireName labels = wireLabels labels ++ [0] from rfl, List.length_append] at this
    exact Nat.succ.inj this
  constructor
  · intro hown
    obtain ⟨labels', hl', h63, rest, hsplit, hz, hsame⟩ := ownName_split (by simp) hown
    obtain ⟨rfl, -⟩ := wireLabels_unique hw.1 hl' (.inr rfl) (.inr rfl) hsplit
    have hdots := ((sameName_iff _ fun k hk => dnsNameOf_at srv hk).mp hsame).2.2
    refine ⟨fun l hl => ⟨h63 l hl, fun h => hz ?_⟩, hdots⟩
    exact List.mem_flatMap.mpr ⟨l, hl, List.mem_cons_of_mem _ h⟩
  · rintro ⟨h63, hdots⟩
    have hz : 0 ∉ wireLabels labels := by
      intro h
      obtain ⟨l, hl, h⟩ := List.mem_flatMap.mp h
      rcases List.mem_cons.mp h with h | h
      · exact (labelByte (hw.1 l hl).1 (hw.1 l hl).2).2.2 h.symm
      · exact (h63 l hl).2 h
    rw [takeWhile_append_stop hz] at h33 ⊢
    refine ⟨labels, fun l hl => ⟨(hw.1 l hl).1, (h63 l hl).1⟩, rfl, ?_⟩
    refine (sameName_iff _ fun k hk => dnsNameOf_at srv hk).mpr ⟨?_, hw.2, hdots⟩
    have hup := upperAt_joined.mpr ⟨hw.2, hdots⟩
    refine (dnsNameOf_length (by omega) (fun k hk hk0 => ?_) ?_).symm
    · have hc := hup k hk
      rw [hk0, eq_comm, toUpper_low (by decide)] at hc
      rcases mem_joined (hc ▸ getD_mem hk) with h | ⟨l, hl, h⟩
      · cases h
      · exact (h63 l hl).2 h
    · rw [hjoined] at h0
      exact h0

end

/-! ## The comparison -/

section
variable {srv : Mem} {labels : List (List UInt8)} {tail : List UInt8}

/-- A walk that says no more than is true ends well. -/
theorem walkEnd_of_stop (hw : Walk srv dnsNameAt labels) (h0 : 0 ∈ wireLabels labels ++ tail)
    (h33 : ((wireLabels labels ++ tail).takeWhile (· ≠ 0)).length ≤ 33)
    (hhead : (wireLabels labels ++ tail).head? ≠ some 0) {v : Int}
    (hv : compareStop srv (dnsNameAt + (wireLabels labels).length) tail = some v)
    (hown : v = 0 → OwnName srv ((wireLabels labels ++ tail).takeWhile (· ≠ 0))) : WalkEnd srv labels tail := by
  cases tail with
  | nil => cases hv
  | cons n l =>
    rw [compareStop_cons] at hv
    by_cases hc : n &&& 0xc0 = 0xc0
    · rw [if_pos (.inl hc)] at hv
      refine .compressed hc fun hz => ?_
      rw [compareEnd, if_pos hz] at hv
      obtain ⟨labels', h63, -, rest, hsplit, -⟩ := ownName_split h0 (hown (Option.some.inj hv).symm)
      obtain ⟨-, rfl⟩ := wireLabels_unique hw.1 h63 (.inl hc) (.inr rfl) hsplit
      exact absurd hc (by decide)
    by_cases hn : n = 0
    · subst hn
      have hne : labels ≠ [] := by
        rintro rfl
        exact hhead rfl
      refine .done hne fun hz => (ownName_iff hw hne h33 hz).mp (hown ?_)
      rw [if_pos (.inr rfl), compareEnd, if_pos hz] at hv
      exact (Option.some.inj hv).symm
    · rw [if_neg (not_or.mpr ⟨hc, hn⟩)] at hv
      split at hv
      · rename_i hd
        obtain ⟨k, hk, hl, hd⟩ := compareLabel_differs_iff.mp hd
        exact .differs k hc hk hl hd
      · cases hv

theorem stop_of_walkEnd (hw : Walk srv dnsNameAt labels)
    (h33 : ((wireLabels labels ++ tail).takeWhile (· ≠ 0)).length ≤ 33) (hend : WalkEnd srv labels tail) :
    WalkStops srv (dnsNameAt + (wireLabels labels).length) tail ∧
      ∃ v, compareStop srv (dnsNameAt + (wireLabels labels).length) tail = some v ∧
        (v = 0 → OwnName srv ((wireLabels labels ++ tail).takeWhile (· ≠ 0))) := by
  cases hend with
  | @differs n l k hn hk hl hd =>
    have hnone := compareLabel_differs_iff.mpr ⟨k, hk, hl, hd⟩
    have hn0 : n ≠ 0 := by
      rintro rfl
      exact absurd hk (Nat.not_lt_zero k)
    refine ⟨.inr (.inr fun rest h => by cases hnone.symm.trans h), 1, ?_, fun h => absurd h (by decide)⟩
    rw [compareStop_cons, if_neg (not_or.mpr ⟨hn, hn0⟩), if_pos hnone]
  | @compressed n l hn hs =>
    refine ⟨.inl hn, 1, ?_, fun h => absurd h (by decide)⟩
    rw [compareStop_cons, if_pos (.inl hn), compareEnd, if_neg hs]
  | @done l hne hs =>
    refine ⟨.inr (.inl rfl), compareEnd srv (dnsNameAt + (wireLabels labels).length), ?_, fun h => ?_⟩
    · rw [compareStop_cons, if_pos (.inr rfl)]
    · have hz : srv (dnsNameAt + (wireLabels labels).length - 1) = 0 := by
        by_contra hz
        rw [compareEnd, if_neg hz] at h
        cases h
      exact (ownName_iff hw hne h33 hz).mpr (hs hz)

end

theorem compareName_clear {srv : Mem} {q : List UInt8} (h0 : 0 ∈ q) :
    (∃ v, dnsCompareName srv q = some v ∧ (v = 0 → OwnName srv (q.takeWhile (· ≠ 0)))) ↔ QueryClear srv q := by
  unfold dnsCompareName strlenIn QueryClear
  rw [if_pos h0, Option.bind_some]
  by_cases hlen : (q.takeWhile (· ≠ 0)).length = 0 ∨ 32 < (q.takeWhile (· ≠ 0)).length - 1
  · rw [if_pos hlen]
    refine iff_of_true ⟨1, rfl, fun h => absurd h (by decide)⟩ ?_
    rcases hlen with h | h
    · exact .inl h
    · exact .inr (.inl (by omega))
  · rw [if_neg hlen, or_iff_right fun h => hlen (.inl h), or_iff_right fun h => hlen (.inr (by omega))]
    have h33 : (q.takeWhile (· ≠ 0)).length ≤ 33 := by omega
    have hhead : q.head? ≠ some 0 := by
      intro h
      obtain ⟨tl, rfl⟩ := List.head?_eq_some_iff.mp h
      exact hlen (.inl rfl)
    constructor
    · rintro ⟨v, hv, hown⟩
      obtain ⟨labels, tail, hw, rfl, hst⟩ := walk_exists srv dnsNameAt q
      rw [compareLoop_stop hw hst hhead] at hv
      exact ⟨labels, tail, hw, rfl, walkEnd_of_stop hw h0 h33 hhead hv hown⟩
    · rintro ⟨labels, tail, hw, rfl, hend⟩
      obtain ⟨hst, v, hv, hown⟩ := stop_of_walkEnd hw h33 hend
      exact ⟨v, (compareLoop_stop hw hst hhead).trans hv, hown⟩

end GizwitsSdk
