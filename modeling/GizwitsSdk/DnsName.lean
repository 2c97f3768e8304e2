import GizwitsSdk.Lib.Buffer
import GizwitsSdk.Lib.Memory

/-!
# Names of the DNS server

`_DnsCompareName` walks the labels of a query and the name of the server side by
side. Where a label ends it takes one byte of the name for the separator without
a look at it, and it decides by the byte behind the walk. So it takes some other
names for its own, and its own for another when the name fills its field.
Memory is counted from the start of `DnsServer`.
-/

namespace GizwitsSdk

open Lib

/-! ## The name of the server -/

/-- `DnsName` of `DNS_SERVER`, behind the pointer `Socket` and in front of `HostIp`. -/
abbrev dnsNameAt : Nat := 4

def dnssConfig (name : List UInt8) (srv : Mem) : Option Mem :=
  if 32 < name.length then none
  else some (blit (blit srv dnsNameAt (List.replicate 32 0)) dnsNameAt name)

/-- With an interface that may be up, its address and the socket of `udp_new`, 0 for none. -/
def dnssStart (up : Bool) (hostIp socket : Nat) (name : List UInt8) (srv : Mem) : Option Mem :=
  if 32 < name.length then none
  else if !up then none
  else if socket = 0 then none
  else some (store32 (store32 (blit (blit srv 0 (List.replicate 40 0)) dnsNameAt name) 36 hostIp) 0 socket)

/-- One of the two has taken the name. -/
def NameTaken (name : List UInt8) (srv : Mem) : Prop :=
  ∃ srv₀, dnssConfig name srv₀ = some srv ∨ ∃ up hostIp socket, dnssStart up hostIp socket name srv₀ = some srv

/-! ## The comparison -/

def nstToUpper (c : UInt8) : UInt8 := if 0x61 ≤ c ∧ c ≤ 0x7a then c - 0x61 + 0x41 else c

/-- The inner loop: what is left of the query, if the label is the same. No
result at all when the query is read behind its end. -/
def compareLabel (srv : Mem) : Nat → Nat → List UInt8 → Option (Option (List UInt8))
  | 0, _, query => some (some query)
  | _ + 1, _, [] => none
  | n + 1, i, c :: query =>
    if nstToUpper (srv i) ≠ nstToUpper c then some none else compareLabel srv n (i + 1) query

def compareEnd (srv : Mem) (myDns : Nat) : Int := if srv (myDns - 1) = 0 then 0 else 1

/-- The outer loop; every turn takes a byte of the query at least. -/
def compareLoop (srv : Mem) : Nat → Nat → List UInt8 → Option Int
  | 0, _, _ => none
  | _ + 1, _, [] => none
  | turns + 1, myDns, n :: query =>
    if n &&& 0xc0 = 0xc0 then some (compareEnd srv myDns)
    else
      (compareLabel srv n.toNat myDns query).bind fun
        | none => some 1
        | some query =>
          query.head?.bind fun c =>
            if c ≠ 0 then compareLoop srv turns (myDns + n.toNat + 1) query
            else some (compareEnd srv (myDns + n.toNat + 1))

def dnsCompareName (srv : Mem) (query : List UInt8) : Option Int :=
  (strlenIn query).bind fun len =>
    -- `strlen(Query) - 1` is unsigned: of an empty string it is the largest number
    if len = 0 ∨ 32 < len - 1 then some 1 else compareLoop srv query.length dnsNameAt query

/-! ## Names -/

/-- The labels of a query, as they are sent. -/
def wireName (labels : List (List UInt8)) : List UInt8 := labels.flatMap (fun l => .ofNat l.length :: l) ++ [0]

/-- The labels with a `.` between two. -/
def joined (labels : List (List UInt8)) : List UInt8 := List.intercalate [0x2e] labels

/-- Equal up to the case of ASCII letters. -/
def sameName (a b : List UInt8) : Prop := a.map nstToUpper = b.map nstToUpper

def upperAt (srv : Mem) (i : Nat) (l : List UInt8) : Prop :=
  ∀ k < l.length, nstToUpper (srv (i + k)) = nstToUpper (l.getD k 0)

/-- The labels, but not what separates them, are at `i`. -/
def labelsAt (srv : Mem) : Nat → List (List UInt8) → Prop
  | _, [] => True
  | i, l :: ls => upperAt srv i l ∧ labelsAt srv (i + l.length + 1) ls

/-- There is a `.` between two labels at `i`. -/
def dotsAt (srv : Mem) : Nat → List (List UInt8) → Prop
  | _, [] => True
  | _, [_] => True
  | i, l :: l' :: ls => srv (i + l.length) = 0x2e ∧ dotsAt srv (i + l.length + 1) (l' :: ls)

/-- The query is the name of the server only if that does not fill its field, or
the field is followed by a 0. It has the same labels, and a 0 behind them, only
if the name has as many bytes and a `.` wherever two labels meet. -/
structure NameClear (srv : Mem) (name : List UInt8) (labels : List (List UInt8)) : Prop where
  full : name.length = 32 → srv (dnsNameAt + 32) ≠ 0 → ¬ sameName (joined labels) name
  alike : ((wireName labels).takeWhile (· ≠ 0)).length ≤ 33 → labelsAt srv dnsNameAt labels →
    srv (dnsNameAt + (joined labels).length) = 0 →
      (joined labels).length = name.length ∧ dotsAt srv dnsNameAt labels

/-! ## The name in memory -/

section
variable {name : List UInt8} {srv : Mem}

theorem NameTaken.fits (h : NameTaken name srv) : name.length ≤ 32 := by
  obtain ⟨srv₀, h | ⟨up, hostIp, socket, h⟩⟩ := h
  · unfold dnssConfig at h
    split at h
    · cases h
    · omega
  · unfold dnssStart at h
    split at h
    · cases h
    · omega

/-- The field holds the name and zeros behind it. -/
theorem NameTaken.field (h : NameTaken name srv) {k : Nat} (hk : k < 32) : srv (dnsNameAt + k) = name.getD k 0 := by
  have hfits := h.fits
  have hput (m : Mem) (hm : m (dnsNameAt + k) = 0) : blit m dnsNameAt name (dnsNameAt + k) = name.getD k 0 := by
    rcases Nat.lt_or_ge k name.length with hl | hl
    · rw [blit_at (by omega) (by omega), Nat.add_sub_cancel_left]
    · rw [blit, if_neg (by omega), hm, List.getD_eq_default _ _ hl]
  have hzero (m : Mem) (p n : Nat) (hp : p ≤ dnsNameAt + k) (hn : dnsNameAt + k < p + n) :
      blit m p (List.replicate n 0) (dnsNameAt + k) = 0 := by
    rw [blit_at hp (by rwa [List.length_replicate]), List.getD_replicate _ (by omega)]
  have h4 : dnsNameAt = 4 := rfl
  obtain ⟨srv₀, h | ⟨up, hostIp, socket, h⟩⟩ := h
  · unfold dnssConfig at h
    rw [if_neg (Nat.not_lt.mpr hfits)] at h
    obtain rfl := Option.some.inj h
    exact hput _ (hzero _ _ _ (by omega) (by omega))
  · unfold dnssStart at h
    rw [if_neg (Nat.not_lt.mpr hfits)] at h
    split at h
    · cases h
    split at h
    · cases h
    obtain rfl := Option.some.inj h
    rw [store32_other (by omega), store32_other (by omega)]
    exact hput _ (hzero _ _ _ (by omega) (by omega))

end

/-! ## The same bytes -/

section
variable {srv : Mem} {i : Nat}

theorem upperAt_cons {c : UInt8} {l : List UInt8} :
    upperAt srv i (c :: l) ↔ nstToUpper (srv i) = nstToUpper c ∧ upperAt srv (i + 1) l := by
  unfold upperAt
  constructor
  · intro h
    refine ⟨h 0 Nat.succ_pos', fun k hk => ?_⟩
    have := h (k + 1) (Nat.succ_lt_succ hk)
    rwa [List.getD_cons_succ, Nat.add_comm k, ← Nat.add_assoc] at this
  · rintro ⟨h0, h⟩ k hk
    cases k with
    | zero => exact h0
    | succ k =>
      rw [List.getD_cons_succ, Nat.add_comm k, ← Nat.add_assoc]
      exact h k (Nat.lt_of_succ_lt_succ hk)

theorem upperAt_append {a b : List UInt8} :
    upperAt srv i (a ++ b) ↔ upperAt srv i a ∧ upperAt srv (i + a.length) b := by
  induction a generalizing i with
  | nil => simp [upperAt]
  | cons c a ih =>
    rw [List.cons_append, upperAt_cons, upperAt_cons, ih, and_assoc, List.length_cons, Nat.add_assoc,
      Nat.add_comm 1]

/-- A byte below the letters is itself only. -/
theorem toUpper_low {c d : UInt8} (hd : d.toNat < 65) : nstToUpper c = nstToUpper d ↔ c = d := by
  constructor
  · intro h
    have hd' : ¬ ((0x61 : UInt8) ≤ d ∧ d ≤ 0x7a) := by
      rintro ⟨h1, -⟩
      have h97 : 97 ≤ d.toNat := UInt8.le_iff_toNat_le.mp h1
      omega
    unfold nstToUpper at h
    rw [if_neg hd'] at h
    split at h
    · rename_i hc
      have h1 : 97 ≤ c.toNat := UInt8.le_iff_toNat_le.mp hc.1
      have h2 : c.toNat ≤ 122 := UInt8.le_iff_toNat_le.mp hc.2
      have he := congrArg UInt8.toNat h
      rw [UInt8.toNat_add, UInt8.toNat_sub_of_le _ _ hc.1] at he
      change (c.toNat - 97 + 65) % 256 = d.toNat at he
      omega
    · exact h
  · rintro rfl
    rfl

theorem toUpper_dot {c : UInt8} : nstToUpper c = nstToUpper 0x2e ↔ c = 0x2e := toUpper_low (by decide)

theorem joined_cons (l l' : List UInt8) (ls : List (List UInt8)) :
    joined (l :: l' :: ls) = l ++ 0x2e :: joined (l' :: ls) := by
  unfold joined
  rw [List.intercalate_cons_cons]
  simp

theorem labelsAt_cons (l : List UInt8) (ls : List (List UInt8)) :
    labelsAt srv i (l :: ls) ↔ upperAt srv i l ∧ labelsAt srv (i + l.length + 1) ls := .rfl

theorem dotsAt_cons (l l' : List UInt8) (ls : List (List UInt8)) :
    dotsAt srv i (l :: l' :: ls) ↔ srv (i + l.length) = 0x2e ∧ dotsAt srv (i + l.length + 1) (l' :: ls) := .rfl

theorem upperAt_joined {labels : List (List UInt8)} :
    upperAt srv i (joined labels) ↔ labelsAt srv i labels ∧ dotsAt srv i labels := by
  induction labels generalizing i with
  | nil => simp [joined, upperAt, labelsAt, dotsAt]
  | cons l ls ih =>
    cases ls with
    | nil => simp [joined, labelsAt, dotsAt]
    | cons l' ls =>
      rw [joined_cons, upperAt_append, upperAt_cons, toUpper_dot, ih, labelsAt_cons l, dotsAt_cons]
      tauto

/-- The joined labels are the name up to case: as long, with the same labels and dots. -/
theorem sameName_iff {name : List UInt8} (labels : List (List UInt8))
    (hs : ∀ k < name.length, srv (i + k) = name.getD k 0) :
    sameName (joined labels) name ↔
      (joined labels).length = name.length ∧ labelsAt srv i labels ∧ dotsAt srv i labels := by
  rw [← upperAt_joined]
  constructor
  · intro h
    have hlen : (joined labels).length = name.length := by
      have := congrArg List.length h
      rwa [List.length_map, List.length_map] at this
    refine ⟨hlen, fun k hk => ?_⟩
    have hk' := congrArg (fun l => l.getD k 0) h
    rw [hs k (by omega)]
    have hmap (l : List UInt8) (hl : k < l.length) : (l.map nstToUpper).getD k 0 = nstToUpper (l.getD k 0) := by
      rw [List.getD_eq_getElem _ _ (by rwa [List.length_map]), List.getElem_map, List.getD_eq_getElem _ _ hl]
    rw [← hmap _ hk, ← hmap name (by omega)]
    exact hk'.symm
  · rintro ⟨hlen, h⟩
    apply List.ext_getElem
    · rw [List.length_map, List.length_map, hlen]
    · intro k h1 h2
      rw [List.length_map] at h1 h2
      have hk := h k h1
      rw [hs k h2, List.getD_eq_getElem _ _ h1, List.getD_eq_getElem _ _ h2] at hk
      rw [List.getElem_map, List.getElem_map, hk]

end

/-! ## The walk -/

section
variable {srv : Mem}

theorem compareLabel_same {i : Nat} {l : List UInt8} (q : List UInt8) (h : upperAt srv i l) :
    compareLabel srv l.length i (l ++ q) = some (some q) := by
  induction l generalizing i with
  | nil => rfl
  | cons c l ih =>
    obtain ⟨h0, h⟩ := upperAt_cons.mp h
    rw [List.length_cons, List.cons_append]
    unfold compareLabel
    rw [if_neg (not_not.mpr h0)]
    exact ih h

theorem compareLabel_differs {i : Nat} {l : List UInt8} (q : List UInt8) (h : ¬ upperAt srv i l) :
    compareLabel srv l.length i (l ++ q) = some none := by
  induction l generalizing i with
  | nil => exact absurd (fun k hk => absurd hk (Nat.not_lt_zero k)) h
  | cons c l ih =>
    rw [List.length_cons, List.cons_append]
    unfold compareLabel
    by_cases h0 : nstToUpper (srv i) = nstToUpper c
    · rw [if_neg (not_not.mpr h0)]
      exact ih fun hl => h (upperAt_cons.mpr ⟨h0, hl⟩)
    · rw [if_pos h0]

/-- A length byte of a label that is not compressed. -/
theorem labelByte {n : Nat} (h1 : 1 ≤ n) (h : n < 192) :
    ¬ UInt8.ofNat n &&& 0xc0 = 0xc0 ∧ (UInt8.ofNat n).toNat = n ∧ UInt8.ofNat n ≠ 0 := by
  have hn : (UInt8.ofNat n).toNat = n := by
    rw [UInt8.toNat_ofNat', Nat.mod_eq_of_lt (by omega)]
  refine ⟨fun hc => ?_, hn, fun h0 => ?_⟩
  · have hle := congrArg UInt8.toNat hc
    rw [UInt8.toNat_and, hn] at hle
    have := @Nat.and_le_left n 192
    change n &&& 192 = 192 at hle
    omega
  · rw [h0] at hn
    change 0 = n at hn
    omega

theorem wireName_cons (l : List UInt8) (ls : List (List UInt8)) :
    wireName (l :: ls) = .ofNat l.length :: (l ++ wireName ls) := by
  unfold wireName
  simp

/-- The walk over the labels of a name accepts just those that it finds, with a 0 behind them. -/
theorem compareLoop_wire {labels : List (List UInt8)} (hne : labels ≠ [])
    (hl : ∀ l ∈ labels, 1 ≤ l.length ∧ l.length ≤ 63) (rest : List UInt8) {turns i : Nat}
    (ht : labels.length ≤ turns) :
    compareLoop srv turns i (wireName labels ++ rest) = some 0 ↔
      labelsAt srv i labels ∧ srv (i + (joined labels).length) = 0 := by
  induction labels generalizing turns i with
  | nil => exact absurd rfl hne
  | cons l ls ih =>
    obtain ⟨turns, rfl⟩ : ∃ t, turns = t + 1 := ⟨turns - 1, by rw [List.length_cons] at ht; omega⟩
    obtain ⟨h1, h63⟩ := hl l List.mem_cons_self
    obtain ⟨hc, hn, -⟩ := labelByte h1 (by omega)
    rw [wireName_cons, List.cons_append, List.append_assoc]
    unfold compareLoop
    rw [if_neg hc, hn, labelsAt_cons]
    by_cases hu : upperAt srv i l
    · rw [compareLabel_same _ hu, Option.bind_some]
      dsimp only
      cases ls with
      | nil =>
        rw [show wireName [] ++ rest = 0 :: rest from rfl, List.head?_cons, Option.bind_some,
          if_neg (not_not.mpr rfl), Option.some_inj]
        unfold compareEnd joined
        rw [Nat.add_sub_cancel, List.intercalate_singleton]
        simp [hu, labelsAt]
      | cons l' ls =>
        obtain ⟨h1', h63'⟩ := hl l' (List.mem_cons_of_mem l List.mem_cons_self)
        have h0 := (labelByte h1' (by omega)).2.2
        have hstep := @ih (List.cons_ne_nil l' ls) (fun x hx => hl x (List.mem_cons_of_mem l hx)) turns
          (i + l.length + 1) (by rw [List.length_cons] at ht; omega)
        rw [wireName_cons, List.cons_append] at hstep ⊢
        rw [List.head?_cons, Option.bind_some, if_pos h0, hstep, joined_cons, List.length_append,
          List.length_cons, and_iff_right hu]
        rw [show i + l.length + 1 + (joined (l' :: ls)).length =
          i + (l.length + ((joined (l' :: ls)).length + 1)) by omega]
    · rw [compareLabel_differs _ hu, Option.bind_some]
      exact iff_of_false (by simp) fun h => hu h.1.1

theorem wireName_length {labels : List (List UInt8)} (hne : labels ≠ []) :
    (wireName labels).length = (joined labels).length + 2 := by
  induction labels with
  | nil => exact absurd rfl hne
  | cons l ls ih =>
    rw [wireName_cons, List.length_cons, List.length_append]
    cases ls with
    | nil => simp [wireName, joined]
    | cons l' ls =>
      rw [ih (List.cons_ne_nil l' ls), joined_cons, List.length_append, List.length_cons]
      omega

/-- The name of a query ends where it says, or before. -/
theorem strlen_wire (labels : List (List UInt8)) (rest : List UInt8) :
    strlenIn (wireName labels ++ rest) = some ((wireName labels).takeWhile (· ≠ 0)).length ∧
      (labels ≠ [] → ((wireName labels).takeWhile (· ≠ 0)).length ≤ (joined labels).length + 1) := by
  have h0 : (0 : UInt8) ∈ wireName labels := List.mem_append_right _ (List.mem_singleton.mpr rfl)
  obtain ⟨hs, -⟩ := split_at h0
  constructor
  · unfold strlenIn
    rw [if_pos (List.mem_append_left _ h0), List.takeWhile_append]
    split
    · rename_i hl
      have := congrArg List.length hs
      rw [List.length_append, hl, List.length_cons] at this
      omega
    · rfl
  · intro hne
    have hlen := congrArg List.length hs
    rw [wireName_length hne, List.length_append, List.length_cons] at hlen
    omega

theorem length_le_wire (labels : List (List UInt8)) : labels.length ≤ (wireName labels).length := by
  induction labels with
  | nil => exact Nat.zero_le _
  | cons l ls ih =>
    rw [wireName_cons, List.length_cons, List.length_cons, List.length_append]
    omega

theorem dnsCompareName_wire {labels : List (List UInt8)} (hne : labels ≠ [])
    (hl : ∀ l ∈ labels, 1 ≤ l.length ∧ l.length ≤ 63) (rest : List UInt8) :
    dnsCompareName srv (wireName labels ++ rest) = some 0 ↔
      ((wireName labels).takeWhile (· ≠ 0)).length ≤ 33 ∧ labelsAt srv dnsNameAt labels ∧
        srv (dnsNameAt + (joined labels).length) = 0 := by
  have hturns : labels.length ≤ (wireName labels ++ rest).length := by
    rw [List.length_append]
    exact Nat.le_trans (length_le_wire labels) (Nat.le_add_right _ _)
  have hpos : ((wireName labels).takeWhile (· ≠ 0)).length ≠ 0 := by
    cases labels with
    | nil => exact absurd rfl hne
    | cons l ls =>
      obtain ⟨h1, h63⟩ := hl l List.mem_cons_self
      rw [wireName_cons, List.takeWhile_cons_of_pos (by simpa using (labelByte h1 (by omega)).2.2), List.length_cons]
      exact Nat.succ_ne_zero _
  unfold dnsCompareName
  rw [(strlen_wire labels rest).1, Option.bind_some]
  by_cases h33 : ((wireName labels).takeWhile (· ≠ 0)).length ≤ 33
  · rw [if_neg (by omega), compareLoop_wire hne hl rest hturns, and_iff_right h33]
  · rw [if_pos (.inr (by omega))]
    exact iff_of_false (by simp) fun h => h33 h.1

end

/-- **Own name**: a query is taken for the server's name just when it is that
name, if and only if neither of the two bytes that the walk does not look at
makes a difference. -/
theorem dns_name_match_iff {name : List UInt8} {srv : Mem} (h : NameTaken name srv) (h0 : 0 < name.length)
    (hz : 0 ∉ name) {labels : List (List UInt8)} (hl : ∀ l ∈ labels, 1 ≤ l.length ∧ l.length ≤ 63)
    (rest : List UInt8) :
    (dnsCompareName srv (wireName labels ++ rest) = some 0 ↔ sameName (joined labels) name) ↔
      NameClear srv name labels := by
  have hfits := h.fits
  have hsame := sameName_iff labels fun k hk => h.field (Nat.lt_of_lt_of_le hk hfits)
  have hfirst : srv dnsNameAt ≠ 0 := by
    have := h.field (k := 0) (by decide)
    rw [Nat.add_zero, List.getD_eq_getElem _ _ h0] at this
    rw [this]
    exact fun he => hz (he ▸ List.getElem_mem h0)
  by_cases hne : labels = []
  · subst hne
    have hno : ¬ sameName (joined []) name := fun hs => absurd (hsame.mp hs).1 (Nat.ne_of_lt h0)
    have hone : dnsCompareName srv (wireName [] ++ rest) = some 1 := by
      unfold dnsCompareName
      rw [(strlen_wire [] rest).1]
      rfl
    rw [hone]
    refine iff_of_true (iff_of_false (by decide) hno) ⟨fun _ _ => hno, fun _ _ hend => ?_⟩
    exact absurd hend hfirst
  rw [dnsCompareName_wire hne hl rest]
  have hstr := (strlen_wire labels rest).2 hne
  constructor
  · intro hiff
    refine ⟨fun h32 hhost hs => hhost ?_, fun h33 hlab hend => ?_⟩
    · have hend := (hiff.mpr hs).2.2
      rwa [(hsame.mp hs).1, h32] at hend
    · obtain ⟨hlen, -, hdots⟩ := hsame.mp (hiff.mp ⟨h33, hlab, hend⟩)
      exact ⟨hlen, hdots⟩
  · intro hclear
    constructor
    · rintro ⟨h33, hlab, hend⟩
      obtain ⟨hlen, hdots⟩ := hclear.alike h33 hlab hend
      exact hsame.mpr ⟨hlen, hlab, hdots⟩
    · intro hs
      obtain ⟨hlen, hlab, -⟩ := hsame.mp hs
      refine ⟨by omega, hlab, ?_⟩
      rw [hlen]
      rcases Nat.lt_or_ge name.length 32 with h32 | h32
      · rw [h.field h32, List.getD_eq_default _ _ (Nat.le_refl _)]
      · have h32 : name.length = 32 := by omega
        rw [h32]
        by_contra hhost
        exact hclear.full h32 hhost hs

/-- `DnsServer` after `DNSS_Config` with a name, the rest of it 0. -/
def dnsServerOf (name : List UInt8) : Mem :=
  blit (blit (fun _ => 0) dnsNameAt (List.replicate 32 0)) dnsNameAt name

/-- The server `gw`, asked for `GW`. -/
theorem dns_name_match_gw :
    (dnsCompareName (dnsServerOf [0x67, 0x77]) (wireName [[0x47, 0x57]] ++ [0, 1, 0, 1]) = some 0 ↔
      sameName (joined [[0x47, 0x57]]) [0x67, 0x77]) ↔
      NameClear (dnsServerOf [0x67, 0x77]) [0x67, 0x77] [[0x47, 0x57]] :=
  dns_name_match_iff ⟨fun _ => 0, .inl rfl⟩ (by decide) (by decide) (by decide) [0, 1, 0, 1]

/-- The server `axb`, asked for `a.b`: the `x` is where the walk expects a separator. -/
theorem dns_name_lookalike :
    ¬ ∀ (name : List UInt8) (srv : Mem), NameTaken name srv → 0 < name.length → 0 ∉ name →
      ∀ labels : List (List UInt8), (∀ l ∈ labels, 1 ≤ l.length ∧ l.length ≤ 63) → ∀ rest,
        (dnsCompareName srv (wireName labels ++ rest) = some 0 ↔ sameName (joined labels) name) := by
  intro h
  have hs := (h [0x61, 0x78, 0x62] (dnsServerOf [0x61, 0x78, 0x62]) ⟨fun _ => 0, .inl rfl⟩ (by decide)
    (by decide) [[0x61], [0x62]] (by decide) []).mp (by decide +kernel)
  revert hs
  unfold sameName
  decide

end GizwitsSdk
