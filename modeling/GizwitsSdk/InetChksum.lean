import GizwitsSdk.Lib.OnesSum
import GizwitsSdk.McuV4

/-!
# The Internet checksum: `inet_chksum.c`

`LWIP_CHKSUM_ALGORITHM` is 2: words are summed as the processor loads them, low
byte first, from the first even address on. A packet is a chain of pbufs, each
with its data anywhere in memory; the sum is swapped over where one ends in the
middle of a word.
-/

namespace GizwitsSdk

open Lib

def foldU32T (u : UInt32) : UInt32 := (u >>> 16) + (u &&& 0x0000ffff)

def swapBytesInWord (w : UInt32) : UInt32 := ((w &&& 0xff) <<< 8) ||| ((w &&& 0xff00) >>> 8)

def word16 (lo hi : UInt8) : UInt32 := lo.toUInt32 + hi.toUInt32 * 256

/-- `while (len > 1)`: the sum, and the byte that is left over. -/
def addBulk : List UInt8 → UInt32 → UInt32 × List UInt8
  | lo :: hi :: ps, sum => addBulk ps (sum + word16 lo hi)
  | ps, sum => (sum, ps)

/-- `odd` tells whether `dataptr` is an odd address. -/
def lwipStandardChksum (odd : Bool) (dataptr : List UInt8) : UInt16 :=
  -- the two bytes of `t`: what stands before the first word and behind the last
  let (t1, pb) : UInt8 × List UInt8 :=
    match odd, dataptr with
    | true, b :: pb => (b, pb)
    | _, _ => (0, dataptr)
  let (sum, ps) := addBulk pb 0
  let t0 := ps.headD 0
  let sum := foldU32T (foldU32T (sum + word16 t0 t1))
  let sum := if odd then swapBytesInWord sum else sum
  sum.toUInt16

def inetChksum (odd : Bool) (dataptr : List UInt8) : UInt16 := ~~~ lwipStandardChksum odd dataptr

/-- `len` of a pbuf is a `u16_t`. -/
structure Pbuf where
  odd : Bool
  payload : List UInt8
  len_lt : payload.length < 2 ^ 16

def chksumPbuf (s : UInt32 × Bool) (q : Pbuf) : UInt32 × Bool :=
  let acc := foldU32T (s.1 + (lwipStandardChksum q.odd q.payload).toUInt32)
  if q.payload.length % 2 ≠ 0 then (swapBytesInWord acc, !s.2) else (acc, s.2)

def chksumChain (p : List Pbuf) : UInt32 :=
  let (acc, swapped) := p.foldl chksumPbuf (0, false)
  if swapped then swapBytesInWord acc else acc

def inetChksumPbuf (p : List Pbuf) : UInt16 := ~~~ (chksumChain p).toUInt16

/-- What `inet_chksum_pseudo` adds up; the addresses are in network order. -/
def pseudoAcc (p : List Pbuf) (src dest : UInt32) (proto : UInt8) (protoLen : UInt16) : UInt32 :=
  let acc := chksumChain p
  let acc := acc + (src &&& 0xffff)
  let acc := acc + ((src >>> 16) &&& 0xffff)
  let acc := acc + (dest &&& 0xffff)
  let acc := acc + ((dest >>> 16) &&& 0xffff)
  let acc := acc + (htons proto.toUInt16).toUInt32
  acc + (htons protoLen).toUInt32

def inetChksumPseudo (p : List Pbuf) (src dest : UInt32) (proto : UInt8) (protoLen : UInt16) : UInt16 :=
  ~~~ (foldU32T (foldU32T (pseudoAcc p src dest proto protoLen))).toUInt16

/-! ## What the operations compute -/

theorem toNat_lowHalf (u : UInt32) : (u &&& 0xffff).toNat = u.toNat % 0x10000 := by
  rw [UInt32.toNat_and]
  exact Nat.and_two_pow_sub_one_eq_mod u.toNat 16

theorem toNat_highHalf (u : UInt32) : (u >>> 16).toNat = u.toNat / 0x10000 := by
  rw [UInt32.toNat_shiftRight]
  exact Nat.shiftRight_eq_div_pow u.toNat 16

theorem toNat_highByte (x : UInt16) : (x >>> 8).toUInt8.toNat = x.toNat / 256 := by
  have hx := x.toNat_lt
  rw [UInt16.toNat_toUInt8, UInt16.toNat_shiftRight]
  show x.toNat >>> 8 % 2 ^ 8 = _
  rw [Nat.shiftRight_eq_div_pow]
  omega

theorem foldU32T_toNat (u : UInt32) : (foldU32T u).toNat = foldWord u.toNat := by
  have hu := u.toNat_lt
  rw [foldU32T, UInt32.toNat_add, toNat_lowHalf, toNat_highHalf, foldWord]
  omega

/-- The swap of the two low bytes, as a number. -/
theorem swap_bits (x : Nat) : ((x &&& 0xff) <<< 8) ||| ((x &&& 0xff00) >>> 8) = x % 256 * 256 + x / 256 % 256 := by
  have hlo : x &&& 0xff = x % 256 := Nat.and_two_pow_sub_one_eq_mod x 8
  have hhi : (x &&& 0xff00) >>> 8 = x / 256 % 256 := by
    rw [Nat.shiftRight_and_distrib, Nat.shiftRight_eq_div_pow]
    exact Nat.and_two_pow_sub_one_eq_mod (x / 256) 8
  rw [hlo, hhi, ← Nat.shiftLeft_add_eq_or_of_lt (by omega), Nat.shiftLeft_eq]

theorem swapBytesInWord_toNat {w : UInt32} (h : w.toNat ≤ 0xffff) :
    (swapBytesInWord w).toNat = swapWord w.toNat := by
  have hshift : ((w &&& 0xff) <<< 8).toNat = (w.toNat &&& 0xff) <<< 8 := by
    have hle : w.toNat &&& 0xff ≤ 0xff := Nat.and_le_right
    rw [UInt32.toNat_shiftLeft, UInt32.toNat_and]
    show (w.toNat &&& 0xff) <<< 8 % 2 ^ 32 = _
    rw [Nat.shiftLeft_eq]
    omega
  rw [swapBytesInWord, UInt32.toNat_or, hshift, UInt32.toNat_shiftRight, UInt32.toNat_and]
  refine (swap_bits w.toNat).trans ?_
  unfold swapWord
  omega

theorem htons_toNat (x : UInt16) : (htons x).toNat = swapWord x.toNat := by
  have hx := x.toNat_lt
  have hshift : ((x &&& 0xff) <<< 8).toNat = (x.toNat &&& 0xff) <<< 8 := by
    have hle : x.toNat &&& 0xff ≤ 0xff := Nat.and_le_right
    rw [UInt16.toNat_shiftLeft, UInt16.toNat_and]
    show (x.toNat &&& 0xff) <<< 8 % 2 ^ 16 = _
    rw [Nat.shiftLeft_eq]
    omega
  rw [htons, UInt16.toNat_or, hshift, UInt16.toNat_shiftRight, UInt16.toNat_and]
  refine (swap_bits x.toNat).trans ?_
  unfold swapWord
  omega

theorem word16_toNat (lo hi : UInt8) : (word16 lo hi).toNat = lo.toNat + hi.toNat * 256 := by
  have hlo := lo.toNat_lt
  have hhi := hi.toNat_lt
  simp only [word16, UInt32.toNat_add, UInt32.toNat_mul, UInt8.toNat_toUInt32]
  show (lo.toNat + hi.toNat * 256 % 2 ^ 32) % 2 ^ 32 = _
  omega

/-- The loop sums the words, as long as the sum has room for them. -/
theorem addBulk_spec (ps : List UInt8) (sum : UInt32) (h : sum.toNat + 0xffff * ps.length < 2 ^ 32) :
    SameOnes (sum.toNat + leNat ps) ((addBulk ps sum).1.toNat + ((addBulk ps sum).2.headD 0).toNat) ∧
      (addBulk ps sum).1.toNat ≤ sum.toNat + 0xffff * ps.length := by
  fun_induction addBulk ps sum with
  | case1 lo hi ps sum ih =>
    have hlo := lo.toNat_lt
    have hhi := hi.toNat_lt
    simp only [List.length_cons] at h
    have hsum : (sum + word16 lo hi).toNat = sum.toNat + (lo.toNat + hi.toNat * 256) := by
      rw [UInt32.toNat_add, word16_toNat]
      omega
    rw [hsum] at ih
    obtain ⟨⟨h1, h2⟩, hle⟩ := ih (by omega)
    simp only [leNat, List.length_cons]
    exact ⟨⟨by omega, by omega⟩, by omega⟩
  | case2 ps sum hps =>
    cases ps with
    | nil => simp [leNat, SameOnes]
    | cons b ps =>
      cases ps with
      | nil => simp [leNat, SameOnes]
      | cons hi ps => exact (hps b hi ps rfl).elim

/-- The bulk with the bytes before and behind it, folded. -/
theorem bulk_fold (pb : List UInt8) (t1 : UInt8) (h : pb.length < 2 ^ 16) :
    OnesSum (leNat pb + t1.toNat * 256)
      (foldU32T (foldU32T ((addBulk pb 0).1 + word16 ((addBulk pb 0).2.headD 0) t1))).toNat := by
  obtain ⟨hs, hle⟩ := addBulk_spec pb 0 (by rw [UInt32.toNat_zero]; omega)
  rw [UInt32.toNat_zero, Nat.zero_add] at hs hle
  generalize (addBulk pb 0).2.headD 0 = t0 at hs ⊢
  have h0 := t0.toNat_lt
  have h1 := t1.toNat_lt
  have hsum : ((addBulk pb 0).1 + word16 t0 t1).toNat = (addBulk pb 0).1.toNat + t0.toNat + t1.toNat * 256 := by
    rw [UInt32.toNat_add, word16_toNat]
    omega
  rw [foldU32T_toNat, foldU32T_toNat, hsum]
  exact (onesSum_fold_fold (by omega)).congr (hs.symm.add (SameOnes.refl _))

/-- The sum over data does not depend on the address it stands at. -/
theorem lwipStandardChksum_spec (odd : Bool) {dataptr : List UInt8} (h : dataptr.length < 2 ^ 16) :
    OnesSum (leNat dataptr) (lwipStandardChksum odd dataptr).toNat := by
  have cut {u : UInt32} {n : Nat} (hu : OnesSum n u.toNat) : OnesSum n u.toUInt16.toNat := by
    have := hu.le
    rw [UInt32.toNat_toUInt16, Nat.mod_eq_of_lt (by omega)]
    exact hu
  cases odd with
  | false =>
    refine cut ?_
    have hb := bulk_fold dataptr 0 h
    rwa [UInt8.toNat_zero, Nat.zero_mul, Nat.add_zero] at hb
  | true =>
    cases dataptr with
    | nil => exact onesSum_self (Nat.zero_le 0xffff)
    | cons b pb =>
      refine cut ?_
      have hb := bulk_fold pb b (by simp only [List.length_cons] at h; omega)
      show OnesSum _ (swapBytesInWord _).toNat
      rw [swapBytesInWord_toNat hb.le]
      refine hb.swap.congr ?_
      simp only [leNat]
      constructor <;> omega

/-! ## Chains -/

def chainData (p : List Pbuf) : List UInt8 := p.flatMap Pbuf.payload

/-- Where the chain has got to: in the middle of a word, the sum is swapped. -/
structure ChainSum (data : List UInt8) (s : UInt32 × Bool) : Prop where
  swapped : s.2 = decide (data.length % 2 = 1)
  sum : OnesSum (if s.2 then 256 * leNat data else leNat data) s.1.toNat

theorem chksumPbuf_spec {data : List UInt8} {s : UInt32 × Bool} (h : ChainSum data s) (q : Pbuf) :
    ChainSum (data ++ q.payload) (chksumPbuf s q) := by
  obtain ⟨acc, swapped⟩ := s
  obtain ⟨hsw, hsum⟩ := h
  have hle : acc.toNat ≤ 0xffff := hsum.le
  have hq := lwipStandardChksum_spec q.odd q.len_lt
  have hadd : (acc + (lwipStandardChksum q.odd q.payload).toUInt32).toNat =
      acc.toNat + (lwipStandardChksum q.odd q.payload).toNat := by
    have := hq.le
    rw [UInt32.toNat_add, UInt16.toNat_toUInt32]
    omega
  have hfold : OnesSum (if swapped then 256 * leNat (data ++ q.payload) else leNat (data ++ q.payload))
      (foldU32T (acc + (lwipStandardChksum q.odd q.payload).toUInt32)).toNat := by
    rw [foldU32T_toNat, hadd]
    refine (hsum.fold hq).congr ?_
    cases swapped with
    | false => exact (leNat_append_even _ (by simpa using hsw)).symm
    | true =>
      have ho := (leNat_append_odd q.payload (by simpa using hsw)).symm.byte
      rw [Nat.mul_add] at ho
      exact ((SameOnes.refl _).add (sameOnes_word _).symm).trans ho
  unfold chksumPbuf
  split
  · case isTrue ho =>
    refine ⟨?_, ?_⟩
    · show (!swapped) = _
      rw [show swapped = _ from hsw, ← decide_not, decide_eq_decide, List.length_append]
      omega
    · show OnesSum (if !swapped then _ else _) (swapBytesInWord _).toNat
      rw [swapBytesInWord_toNat hfold.le]
      cases swapped with
      | false => exact hfold.swap
      | true => exact hfold.swap.congr (sameOnes_word _)
  · case isFalse he =>
    refine ⟨?_, hfold⟩
    show swapped = _
    rw [show swapped = _ from hsw, decide_eq_decide, List.length_append]
    omega

theorem chksumChain_spec (p : List Pbuf) : OnesSum (leNat (chainData p)) (chksumChain p).toNat := by
  have hrun : ∀ (p : List Pbuf) (data : List UInt8) (s : UInt32 × Bool), ChainSum data s →
      ChainSum (data ++ chainData p) (p.foldl chksumPbuf s) := by
    intro p
    induction p with
    | nil =>
      intro data s h
      simpa [chainData] using h
    | cons q p ih =>
      intro data s h
      have := ih _ _ (chksumPbuf_spec h q)
      simpa [chainData] using this
  have h := hrun p [] (0, false) ⟨rfl, onesSum_self (Nat.zero_le 0xffff)⟩
  rw [List.nil_append] at h
  unfold chksumChain
  generalize p.foldl chksumPbuf (0, false) = s at h
  obtain ⟨acc, swapped⟩ := s
  have hsum := h.sum
  cases swapped with
  | false => exact hsum
  | true =>
    show OnesSum _ (swapBytesInWord acc).toNat
    rw [swapBytesInWord_toNat hsum.le]
    exact hsum.swap.congr (sameOnes_word _)

/-- A sum in the byte order of the processor is that in network order, swapped. -/
theorem htons_internetSum {x : UInt16} {data : List UInt8} (h : OnesSum (leNat data) x.toNat) :
    x = htons (UInt16.ofNat (internetSum data)) := by
  have hi := internetSum_spec data
  have hlt : (UInt16.ofNat (internetSum data)).toNat = internetSum data := by
    have := hi.le
    rw [UInt16.toNat_ofNat']
    omega
  rw [← UInt16.toNat_inj, htons_toNat, hlt]
  exact h.unique (hi.swap.congr (sameOnes_word _))

theorem chksumChain_cut (p : List Pbuf) : OnesSum (leNat (chainData p)) (chksumChain p).toUInt16.toNat := by
  have h := chksumChain_spec p
  have := h.le
  rw [UInt32.toNat_toUInt16, Nat.mod_eq_of_lt (by omega)]
  exact h

/-- One block of data, as the header of IP is. -/
theorem chksum_of_data (odd : Bool) {dataptr : List UInt8} (h : dataptr.length < 2 ^ 16) :
    inetChksum odd dataptr = ~~~ htons (UInt16.ofNat (internetSum dataptr)) := by
  rw [inetChksum, htons_internetSum (lwipStandardChksum_spec odd h)]

/-- The checksum of a chain is that of its data, however it is split and aligned. -/
theorem chksum_of_chain (p : List Pbuf) :
    inetChksumPbuf p = ~~~ htons (UInt16.ofNat (internetSum (chainData p))) := by
  rw [inetChksumPbuf, htons_internetSum (chksumChain_cut p)]

/-! ## The pseudo header -/

def addrBytes (a : UInt32) : List UInt8 :=
  [a.toUInt8, (a >>> 8).toUInt8, (a >>> 16).toUInt8, (a >>> 24).toUInt8]

def pseudoHeader (src dest : UInt32) (proto : UInt8) (protoLen : UInt16) : List UInt8 :=
  addrBytes src ++ addrBytes dest ++ [0, proto, (protoLen >>> 8).toUInt8, protoLen.toUInt8]

theorem length_pseudoHeader (src dest : UInt32) (proto : UInt8) (protoLen : UInt16) :
    (pseudoHeader src dest proto protoLen).length = 12 := by
  simp [pseudoHeader, addrBytes]

theorem leNat_addrBytes (a : UInt32) (rest : List UInt8) :
    SameOnes (leNat (addrBytes a ++ rest)) (foldWord a.toNat + leNat rest) := by
  have ha := a.toNat_lt
  have byte (b : UInt32) (k : Nat) (hk : b.toNat % 32 = k) : (a >>> b).toUInt8.toNat = a.toNat / 2 ^ k % 256 := by
    rw [UInt32.toNat_toUInt8, UInt32.toNat_shiftRight, hk, Nat.shiftRight_eq_div_pow]
  have h0 : a.toUInt8.toNat = a.toNat % 256 := UInt32.toNat_toUInt8 a
  have h1 : (a >>> 8).toUInt8.toNat = a.toNat / 256 % 256 := byte 8 8 rfl
  have h2 : (a >>> 16).toUInt8.toNat = a.toNat / 65536 % 256 := byte 16 16 rfl
  have h3 : (a >>> 24).toUInt8.toNat = a.toNat / 16777216 % 256 := byte 24 24 rfl
  have hle : leNat (addrBytes a ++ rest) = a.toNat + 4294967296 * leNat rest := by
    simp only [addrBytes, List.cons_append, List.nil_append, leNat, h0, h1, h2, h3]
    omega
  rw [hle]
  unfold foldWord
  constructor <;> omega

/-- The pseudo header, as the code adds it. -/
theorem leNat_pseudoHeader (src dest : UInt32) (proto : UInt8) (protoLen : UInt16) :
    SameOnes (leNat (pseudoHeader src dest proto protoLen)) (foldWord src.toNat + (foldWord dest.toNat +
      (swapWord proto.toNat + swapWord protoLen.toNat))) := by
  have hp := proto.toNat_lt
  have hl := protoLen.toNat_lt
  have hlo : protoLen.toUInt8.toNat = protoLen.toNat % 256 := UInt16.toNat_toUInt8 protoLen
  have htail : SameOnes (leNat [0, proto, (protoLen >>> 8).toUInt8, protoLen.toUInt8])
      (swapWord proto.toNat + swapWord protoLen.toNat) := by
    simp only [leNat, hlo, toNat_highByte, UInt8.toNat_zero]
    unfold swapWord
    constructor <;> omega
  have hd := (leNat_addrBytes dest [0, proto, (protoLen >>> 8).toUInt8, protoLen.toUInt8]).trans
    ((SameOnes.refl _).add htail)
  rw [pseudoHeader, List.append_assoc]
  exact (leNat_addrBytes src _).trans ((SameOnes.refl _).add hd)

theorem pseudoAcc_toNat (p : List Pbuf) (src dest : UInt32) (proto : UInt8) (protoLen : UInt16) :
    (pseudoAcc p src dest proto protoLen).toNat = foldWord src.toNat + (foldWord dest.toNat +
      (swapWord proto.toNat + swapWord protoLen.toNat)) + (chksumChain p).toNat := by
  have hc := (chksumChain_spec p).le
  have hs := src.toNat_lt
  have hd := dest.toNat_lt
  have hp : swapWord proto.toNat ≤ 0xffff := by
    have := proto.toNat_lt
    unfold swapWord
    omega
  have hl : swapWord protoLen.toNat ≤ 0xffff := by
    have := protoLen.toNat_lt
    unfold swapWord
    omega
  simp only [pseudoAcc, UInt32.toNat_add, toNat_lowHalf, toNat_highHalf, UInt16.toNat_toUInt32, htons_toNat,
    UInt8.toNat_toUInt16, foldWord]
  have hs' : src.toNat / 0x10000 < 0x10000 := by omega
  have hd' : dest.toNat / 0x10000 < 0x10000 := by omega
  simp (disch := omega) only [Nat.mod_eq_of_lt]
  omega

theorem pseudo_spec (p : List Pbuf) (src dest : UInt32) (proto : UInt8) (protoLen : UInt16) :
    OnesSum (leNat (pseudoHeader src dest proto protoLen ++ chainData p))
      (foldU32T (foldU32T (pseudoAcc p src dest proto protoLen))).toUInt16.toNat := by
  have hlt := (pseudoAcc p src dest proto protoLen).toNat_lt
  have hs : SameOnes (pseudoAcc p src dest proto protoLen).toNat
      (leNat (pseudoHeader src dest proto protoLen ++ chainData p)) := by
    rw [pseudoAcc_toNat]
    exact ((leNat_pseudoHeader src dest proto protoLen).symm.add (chksumChain_spec p).same.symm).trans
      (leNat_append_even _ (by rw [length_pseudoHeader])).symm
  have hfold := (onesSum_fold_fold hlt).congr hs
  rw [← foldU32T_toNat, ← foldU32T_toNat] at hfold
  have := hfold.le
  rw [UInt32.toNat_toUInt16, Nat.mod_eq_of_lt (by omega)]
  exact hfold

/-- The checksum that UDP and TCP carry is that of the pseudo header and the data behind it. -/
theorem chksum_of_pseudo (p : List Pbuf) (src dest : UInt32) (proto : UInt8) (protoLen : UInt16) :
    inetChksumPseudo p src dest proto protoLen =
      ~~~ htons (UInt16.ofNat (internetSum (pseudoHeader src dest proto protoLen ++ chainData p))) := by
  rw [inetChksumPseudo, htons_internetSum (pseudo_spec p src dest proto protoLen)]

/-! ## Packets with their checksum in place -/

section
variable {data front back : List UInt8} {x : UInt16} {b b' : UInt8}

/-- The receiver takes data for whole. -/
def Whole (data : List UInt8) : Prop := leNat data % 0xffff = 0 ∧ leNat data ≠ 0

theorem whole_iff (h : OnesSum (leNat data) x.toNat) : ~~~ x = 0 ↔ Whole data := by
  have hx := x.toNat_lt
  rw [Whole, ← h.ones_iff, ← UInt16.toNat_inj, UInt16.toNat_not, UInt16.toNat_zero]
  show 0x10000 - 1 - x.toNat = 0 ↔ _
  omega

theorem chain_whole (p : List Pbuf) : inetChksumPbuf p = 0 ↔ Whole (chainData p) := whole_iff (chksumChain_cut p)

theorem pseudo_whole (p : List Pbuf) (src dest : UInt32) (proto : UInt8) (protoLen : UInt16) :
    inetChksumPseudo p src dest proto protoLen = 0 ↔
      Whole (pseudoHeader src dest proto protoLen ++ chainData p) :=
  whole_iff (pseudo_spec p src dest proto protoLen)

theorem leNat_shortBytes (x : UInt16) (rest : List UInt8) :
    leNat (shortBytes x ++ rest) = x.toNat + 0x10000 * leNat rest := by
  have hx := x.toNat_lt
  have hlo : x.toUInt8.toNat = x.toNat % 256 := UInt16.toNat_toUInt8 x
  simp only [shortBytes, List.cons_append, List.nil_append, leNat, hlo, toNat_highByte]
  omega

/-- The checksum of data with a zero in its place makes the data whole. -/
theorem whole_filled (he : front.length % 2 = 0) (h : OnesSum (leNat (front ++ shortBytes 0 ++ back)) x.toNat) :
    Whole (front ++ shortBytes (~~~ x) ++ back) := by
  have hx := x.toNat_lt
  have hnot : (~~~ x).toNat = 0xffff - x.toNat := UInt16.toNat_not x
  obtain ⟨hle, hm, hz⟩ := h
  rw [List.append_assoc] at hm hz
  obtain ⟨hm0, hz0⟩ := leNat_append_even (shortBytes 0 ++ back) he
  obtain ⟨hm1, hz1⟩ := leNat_append_even (shortBytes (~~~ x) ++ back) he
  rw [leNat_shortBytes, UInt16.toNat_zero] at hm0 hz0
  rw [leNat_shortBytes, hnot] at hm1 hz1
  rw [List.append_assoc]
  exact ⟨by omega, by omega⟩

/-- Of two packets that differ in one byte, one is not whole. -/
theorem not_whole_byte (h : Whole (front ++ b :: back)) (hb : b ≠ b') : ¬ Whole (front ++ b' :: back) := by
  intro h'
  have hne : b.toNat ≠ b'.toNat := fun e => hb (UInt8.toNat_inj.mp e)
  have hlt := b.toNat_lt
  have hlt' := b'.toNat_lt
  obtain ⟨hm, -⟩ := h
  obtain ⟨hm', -⟩ := h'
  obtain he | ho := Nat.mod_two_eq_zero_or_one front.length
  · obtain ⟨h1, -⟩ := leNat_append_even (b :: back) he
    obtain ⟨h2, -⟩ := leNat_append_even (b' :: back) he
    simp only [leNat] at h1 h2
    omega
  · obtain ⟨h1, -⟩ := leNat_append_odd (b :: back) ho
    obtain ⟨h2, -⟩ := leNat_append_odd (b' :: back) ho
    simp only [leNat] at h1 h2
    omega

end

section
variable {p q q' : List Pbuf} {front back : List UInt8} {b b' : UInt8}
variable (src dest : UInt32) (proto : UInt8) (protoLen : UInt16)

/-- A packet sent with its checksum in place passes the receiver's check,
however the two of them split and align it. -/
theorem chksum_verifies (he : front.length % 2 = 0) (hp : chainData p = front ++ shortBytes 0 ++ back) :
    (chainData q = front ++ shortBytes (inetChksumPbuf p) ++ back → inetChksumPbuf q = 0) ∧
      (chainData q = front ++ shortBytes (inetChksumPseudo p src dest proto protoLen) ++ back →
        inetChksumPseudo q src dest proto protoLen = 0) := by
  constructor
  · intro hq
    rw [chain_whole, hq]
    have hsum := chksumChain_cut p
    rw [hp] at hsum
    exact whole_filled he hsum
  · intro hq
    rw [pseudo_whole, hq]
    have hsum := pseudo_spec p src dest proto protoLen
    rw [hp, ← List.append_assoc, ← List.append_assoc] at hsum
    rw [← List.append_assoc, ← List.append_assoc]
    refine whole_filled ?_ hsum
    rw [List.length_append, length_pseudoHeader]
    omega

def sentChain : List Pbuf := [⟨false, [0x45, 0x00, 0x00], by decide⟩, ⟨true, [0x00, 0x11], by decide⟩]

def receivedChain : List Pbuf := [⟨true, [0x45], by decide⟩, ⟨false, [0x00, 0xa9, 0xff, 0x11], by decide⟩]

theorem chksum_verifies_split : inetChksumPbuf receivedChain = 0 := by
  have hp : chainData sentChain = [0x45, 0x00] ++ shortBytes 0 ++ [0x11] := by decide
  have hq : chainData receivedChain = [0x45, 0x00] ++ shortBytes (inetChksumPbuf sentChain) ++ [0x11] := by decide
  exact (chksum_verifies 0 0 0 0 rfl hp).1 hq

/-- A byte that is changed on the way is found out. -/
theorem chksum_finds_byte (hq : chainData q = front ++ b :: back) (hq' : chainData q' = front ++ b' :: back)
    (hb : b ≠ b') :
    (inetChksumPbuf q = 0 → inetChksumPbuf q' ≠ 0) ∧
      (inetChksumPseudo q src dest proto protoLen = 0 → inetChksumPseudo q' src dest proto protoLen ≠ 0) := by
  constructor
  · intro h
    rw [chain_whole, hq] at h
    rw [Ne, chain_whole, hq']
    exact not_whole_byte h hb
  · intro h
    rw [pseudo_whole, hq, ← List.append_assoc] at h
    rw [Ne, pseudo_whole, hq', ← List.append_assoc]
    exact not_whole_byte h hb

def damagedChain : List Pbuf := [⟨false, [0x45, 0x00, 0xa9, 0xff, 0x10], by decide⟩]

theorem chksum_finds_byte_damaged : inetChksumPbuf damagedChain ≠ 0 := by
  have hq : chainData receivedChain = [0x45, 0x00, 0xa9, 0xff] ++ 0x11 :: [] := by decide
  have hq' : chainData damagedChain = [0x45, 0x00, 0xa9, 0xff] ++ 0x10 :: [] := by decide
  exact (chksum_finds_byte 0 0 0 0 hq hq' (by decide)).1 (by decide)

end

end GizwitsSdk
