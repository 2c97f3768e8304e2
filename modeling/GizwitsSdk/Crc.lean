import GizwitsSdk.Lib.Crc

/-!
# The checksums: `util.c`

`NST_GetCrc8` looks up a byte's eight division steps, `NST_GetCrc32` takes them at
once with an equation for each bit. An `INT32` is its 32 bits; a string is read up
to its length, and behind the buffer nothing is read.
-/

namespace GizwitsSdk

open Lib

/-! ## `NST_GetCrc8` -/

def crc8Tbl : List UInt8 :=
  [0x00, 0x91, 0xe3, 0x72, 0x07, 0x96, 0xe4, 0x75, 0x0e, 0x9f, 0xed, 0x7c, 0x09, 0x98, 0xea, 0x7b,
   0x1c, 0x8d, 0xff, 0x6e, 0x1b, 0x8a, 0xf8, 0x69, 0x12, 0x83, 0xf1, 0x60, 0x15, 0x84, 0xf6, 0x67,
   0x38, 0xa9, 0xdb, 0x4a, 0x3f, 0xae, 0xdc, 0x4d, 0x36, 0xa7, 0xd5, 0x44, 0x31, 0xa0, 0xd2, 0x43,
   0x24, 0xb5, 0xc7, 0x56, 0x23, 0xb2, 0xc0, 0x51, 0x2a, 0xbb, 0xc9, 0x58, 0x2d, 0xbc, 0xce, 0x5f,
   0x70, 0xe1, 0x93, 0x02, 0x77, 0xe6, 0x94, 0x05, 0x7e, 0xef, 0x9d, 0x0c, 0x79, 0xe8, 0x9a, 0x0b,
   0x6c, 0xfd, 0x8f, 0x1e, 0x6b, 0xfa, 0x88, 0x19, 0x62, 0xf3, 0x81, 0x10, 0x65, 0xf4, 0x86, 0x17,
   0x48, 0xd9, 0xab, 0x3a, 0x4f, 0xde, 0xac, 0x3d, 0x46, 0xd7, 0xa5, 0x34, 0x41, 0xd0, 0xa2, 0x33,
   0x54, 0xc5, 0xb7, 0x26, 0x53, 0xc2, 0xb0, 0x21, 0x5a, 0xcb, 0xb9, 0x28, 0x5d, 0xcc, 0xbe, 0x2f,
   0xe0, 0x71, 0x03, 0x92, 0xe7, 0x76, 0x04, 0x95, 0xee, 0x7f, 0x0d, 0x9c, 0xe9, 0x78, 0x0a, 0x9b,
   0xfc, 0x6d, 0x1f, 0x8e, 0xfb, 0x6a, 0x18, 0x89, 0xf2, 0x63, 0x11, 0x80, 0xf5, 0x64, 0x16, 0x87,
   0xd8, 0x49, 0x3b, 0xaa, 0xdf, 0x4e, 0x3c, 0xad, 0xd6, 0x47, 0x35, 0xa4, 0xd1, 0x40, 0x32, 0xa3,
   0xc4, 0x55, 0x27, 0xb6, 0xc3, 0x52, 0x20, 0xb1, 0xca, 0x5b, 0x29, 0xb8, 0xcd, 0x5c, 0x2e, 0xbf,
   0x90, 0x01, 0x73, 0xe2, 0x97, 0x06, 0x74, 0xe5, 0x9e, 0x0f, 0x7d, 0xec, 0x99, 0x08, 0x7a, 0xeb,
   0x8c, 0x1d, 0x6f, 0xfe, 0x8b, 0x1a, 0x68, 0xf9, 0x82, 0x13, 0x61, 0xf0, 0x85, 0x14, 0x66, 0xf7,
   0xa8, 0x39, 0x4b, 0xda, 0xaf, 0x3e, 0x4c, 0xdd, 0xa6, 0x37, 0x45, 0xd4, 0xa1, 0x30, 0x42, 0xd3,
   0xb4, 0x25, 0x57, 0xc6, 0xb3, 0x22, 0x50, 0xc1, 0xba, 0x2b, 0x59, 0xc8, 0xbd, 0x2c, 0x5e, 0xcf]

/-- `while(len--!=0)` -/
def crc8Loop : Nat → List UInt8 → UInt8 → Option UInt8
  | 0, _, crc8 => some crc8
  | _ + 1, [], _ => none
  | len + 1, data :: ptr, crc8 => crc8Tbl[(crc8 ^^^ data).toNat]?.bind (crc8Loop len ptr)

def nstGetCrc8 (ptr : List UInt8) (len : UInt32) : Option UInt8 := crc8Loop len.toNat ptr 0

theorem crc8Tbl_steps : ∀ i < 256, crc8Tbl[i]? = some (.ofBitVec (Nat.repeat (crcStep 0xe0#8) 8 (.ofNat 8 i))) := by
  decide +kernel

theorem crc8Tbl_byte (c d : UInt8) :
    crc8Tbl[(c ^^^ d).toNat]? = some (.ofBitVec (crcByte 0xe0#8 c.toBitVec d.toBitVec)) := by
  have hcd : BitVec.ofNat 8 (c ^^^ d).toNat = c.toBitVec ^^^ d.toBitVec := by
    rw [← UInt8.toBitVec_xor]
    exact BitVec.ofNat_toNat 8 (c ^^^ d).toBitVec
  rw [crc8Tbl_steps _ (UInt8.toNat_lt _), hcd, crcByte, BitVec.setWidth_eq]

theorem crc8Loop_eq (bs : List UInt8) (c : UInt8) :
    crc8Loop bs.length bs c = some (.ofBitVec (crcRun 0xe0#8 c.toBitVec bs)) := by
  induction bs generalizing c with
  | nil => rfl
  | cons d bs ih =>
    rw [List.length_cons, crc8Loop, crc8Tbl_byte, Option.bind_some, ih]
    rfl

theorem nstGetCrc8_eq {bs : List UInt8} {len : UInt32} (h : bs.length = len.toNat) :
    nstGetCrc8 bs len = some (.ofBitVec (crcRun 0xe0#8 0#8 bs)) := by
  rw [nstGetCrc8, ← h, crc8Loop_eq]
  rfl

/-- The table is the reflected CRC-8, and the checksum keeps exclusive or. -/
theorem nstGetCrc8_bitwise :
    (∀ (bs : List UInt8) (len : UInt32), bs.length = len.toNat →
      nstGetCrc8 bs len = some (.ofBitVec (crcRun 0xe0#8 0#8 bs))) ∧
    ∀ (as bs : List UInt8) (len : UInt32), as.length = len.toNat → bs.length = len.toNat →
      ∃ x y, nstGetCrc8 as len = some x ∧ nstGetCrc8 bs len = some y ∧
        nstGetCrc8 (List.zipWith (· ^^^ ·) as bs) len = some (x ^^^ y) := by
  refine ⟨fun bs len h => nstGetCrc8_eq h, fun as bs len ha hb => ⟨_, _, nstGetCrc8_eq ha, nstGetCrc8_eq hb, ?_⟩⟩
  have hlen : (List.zipWith (· ^^^ ·) as bs).length = len.toNat := by
    rw [List.length_zipWith, ha, hb, Nat.min_self]
  have hxor := crcRun_xor 0xe0#8 0#8 0#8 (ha.trans hb.symm)
  rw [BitVec.xor_self] at hxor
  rw [nstGetCrc8_eq hlen, hxor]
  rfl

/-- The digits 1 to 9, also backwards. -/
theorem nstGetCrc8_bitwise_bytes :
    nstGetCrc8 [0x31, 0x32, 0x33, 0x34, 0x35, 0x36, 0x37, 0x38, 0x39] 9 =
        some (.ofBitVec (crcRun 0xe0#8 0#8 [0x31, 0x32, 0x33, 0x34, 0x35, 0x36, 0x37, 0x38, 0x39])) ∧
      ∃ x y, nstGetCrc8 [0x31, 0x32, 0x33, 0x34, 0x35, 0x36, 0x37, 0x38, 0x39] 9 = some x ∧
        nstGetCrc8 [0x39, 0x38, 0x37, 0x36, 0x35, 0x34, 0x33, 0x32, 0x31] 9 = some y ∧
        nstGetCrc8 [0x08, 0x0a, 0x04, 0x02, 0x00, 0x02, 0x04, 0x0a, 0x08] 9 = some (x ^^^ y) :=
  ⟨nstGetCrc8_bitwise.1 _ 9 rfl, nstGetCrc8_bitwise.2 [0x31, 0x32, 0x33, 0x34, 0x35, 0x36, 0x37, 0x38, 0x39]
    [0x39, 0x38, 0x37, 0x36, 0x35, 0x34, 0x33, 0x32, 0x31] 9 rfl rfl⟩

/-! ## `NST_GetCrc32` -/

/-- The indices of `in_data_buf` and of `crc_buf` in the equation for each `crc_out`. -/
def crcTerms : List (List Nat × List Nat) :=
  [([1, 7], [30, 24]),
   ([0, 1, 6, 7], [31, 30, 25, 24]),
   ([0, 1, 5, 6, 7], [31, 30, 26, 25, 24]),
   ([0, 4, 5, 6], [31, 27, 26, 25]),
   ([1, 3, 4, 5, 7], [30, 28, 27, 26, 24]),
   ([0, 1, 2, 3, 4, 6, 7], [31, 30, 29, 28, 27, 25, 24]),
   ([0, 1, 2, 3, 5, 6], [31, 30, 29, 28, 26, 25]),
   ([0, 2, 4, 5, 7], [31, 29, 27, 26, 24]),
   ([3, 4, 6, 7], [28, 27, 25, 24, 0]),
   ([2, 3, 5, 6], [29, 28, 26, 25, 1]),
   ([2, 4, 5, 7], [29, 27, 26, 24, 2]),
   ([3, 4, 6, 7], [28, 27, 25, 24, 3]),
   ([1, 2, 3, 5, 6, 7], [30, 29, 28, 26, 25, 24, 4]),
   ([0, 1, 2, 4, 5, 6], [31, 30, 29, 27, 26, 25, 5]),
   ([0, 1, 3, 4, 5], [31, 30, 28, 27, 26, 6]),
   ([0, 2, 3, 4], [31, 29, 28, 27, 7]),
   ([2, 3, 7], [29, 28, 24, 8]),
   ([1, 2, 6], [30, 29, 25, 9]),
   ([0, 1, 5], [31, 30, 26, 10]),
   ([0, 4], [31, 27, 11]),
   ([3], [28, 12]),
   ([2], [29, 13]),
   ([7], [24, 14]),
   ([1, 6, 7], [30, 25, 24, 15]),
   ([0, 5, 6], [31, 26, 25, 16]),
   ([4, 5], [27, 26, 17]),
   ([1, 3, 4, 7], [30, 28, 27, 24, 18]),
   ([0, 2, 3, 6], [31, 29, 28, 25, 19]),
   ([1, 2, 5], [30, 29, 26, 20]),
   ([0, 1, 4], [31, 30, 27, 21]),
   ([0, 3], [31, 28, 22]),
   ([2], [23, 29])]

def xorBits (bit : Nat → Bool) : List Nat → Bool
  | [] => false
  | i :: is => xor (bit i) (xorBits bit is)

/-- `if(bit i) val |= (1<<pos i);` for each `i` below a bound. -/
def orLoop (bit : Nat → Bool) (pos : Nat → Nat) : Nat → BitVec 32
  | 0 => 0#32
  | i + 1 => if bit i then orLoop bit pos i ||| 1#32 <<< pos i else orLoop bit pos i

def crcOut (crcResult : BitVec 32) (data8 : BitVec 8) (i : Nat) : Bool :=
  let terms := crcTerms.getD i ([], [])
  xor (xorBits data8.getLsbD terms.1) (xorBits crcResult.getLsbD terms.2)

def calCrc32 (crcResult : BitVec 32) (data8 : BitVec 8) : BitVec 32 := orLoop (crcOut crcResult data8) id 32

def crc32Loop : Nat → List UInt8 → BitVec 32 → Option (BitVec 32)
  | 0, _, crcResult => some crcResult
  | _ + 1, [], _ => none
  | n + 1, d :: pData, crcResult => crc32Loop n pData (calCrc32 crcResult d.toBitVec)

def nstGetCrc32 (pData : List UInt8) (dataSize : Int32) : Option (BitVec 32) :=
  (crc32Loop dataSize.toInt.toNat pData 0xffffffff#32).map fun crcResult =>
    ~~~ orLoop crcResult.getLsbD (31 - ·) 32

/-! ## The equations -/

theorem one_shift_bit (p j : Nat) : (1#32 <<< p).getLsbD j = true ↔ j < 32 ∧ p = j := by
  rw [← BitVec.twoPow_eq, BitVec.getLsbD_twoPow, Bool.and_eq_true, decide_eq_true_eq, decide_eq_true_eq]
  omega

theorem orLoop_bit (bit : Nat → Bool) (pos : Nat → Nat) (n j : Nat) :
    (orLoop bit pos n).getLsbD j = true ↔ j < 32 ∧ ∃ i < n, bit i = true ∧ pos i = j := by
  induction n with
  | zero => simp [orLoop]
  | succ n ih =>
    rw [Nat.exists_lt_succ_right, and_or_left, ← ih, orLoop]
    by_cases hb : bit n = true
    · rw [if_pos hb, BitVec.getLsbD_or, Bool.or_eq_true, one_shift_bit]
      simp [hb]
    · rw [if_neg hb]
      simp [hb]

theorem calCrc32_bit (c : BitVec 32) (d : BitVec 8) {j : Nat} (hj : j < 32) :
    (calCrc32 c d).getLsbD j = crcOut c d j := by
  refine Bool.eq_iff_iff.mpr ((orLoop_bit _ _ _ _).trans ⟨fun h => ?_, fun h => ⟨hj, j, hj, h, rfl⟩⟩)
  obtain ⟨-, i, -, hb, rfl⟩ := h
  exact hb

/-- The second loop of `NST_GetCrc32` reverses the bits. -/
theorem orLoop_reverse (c : BitVec 32) : orLoop c.getLsbD (31 - ·) 32 = c.reverse := by
  refine BitVec.eq_of_getLsbD_eq fun j hj => ?_
  rw [BitVec.getLsbD_reverse, BitVec.getMsbD, decide_eq_true hj, Bool.true_and]
  refine Bool.eq_iff_iff.mpr ((orLoop_bit _ _ _ _).trans ⟨fun h => ?_, fun h => ⟨hj, 31 - j, by omega, h, by omega⟩⟩)
  obtain ⟨-, i, hi, hb, rfl⟩ := h
  have hsub : 32 - 1 - (31 - i) = i := by omega
  rwa [hsub]

theorem xor_middle (a b c d : Bool) : xor (xor a b) (xor c d) = xor (xor a c) (xor b d) := by
  rw [Bool.xor_assoc, Bool.xor_left_comm b, ← Bool.xor_assoc]

theorem xorBits_xor (p q : Nat → Bool) (is : List Nat) :
    xorBits (fun i => xor (p i) (q i)) is = xor (xorBits p is) (xorBits q is) := by
  induction is with
  | nil => rfl
  | cons i is ih =>
    rw [xorBits, xorBits, xorBits, ih, xor_middle]

theorem getLsbD_xor_fun {w : Nat} (a b : BitVec w) : (a ^^^ b).getLsbD = fun i => xor (a.getLsbD i) (b.getLsbD i) :=
  funext fun _ => BitVec.getLsbD_xor

theorem calCrc32_xor : XorLinear₂ calCrc32 := by
  intro c c' d d'
  refine BitVec.eq_of_getLsbD_eq fun j hj => ?_
  rw [BitVec.getLsbD_xor, calCrc32_bit _ _ hj, calCrc32_bit _ _ hj, calCrc32_bit _ _ hj]
  simp only [crcOut, getLsbD_xor_fun, xorBits_xor]
  exact xor_middle _ _ _ _

theorem reverse_xor {w : Nat} (a b : BitVec w) : (a ^^^ b).reverse = a.reverse ^^^ b.reverse :=
  BitVec.eq_of_getLsbD_eq fun j _ => by simp only [BitVec.getLsbD_xor, BitVec.getLsbD_reverse, BitVec.getMsbD_xor]

/-- Both sides are known from the 40 words with one bit. -/
theorem calCrc32_reverse (c : BitVec 32) (d : BitVec 8) :
    (calCrc32 c d).reverse = crcByte (BitVec.reverse 0x04c11db7#32) c.reverse d := by
  have hcal : XorLinear₂ fun c d => (calCrc32 c d).reverse := by
    intro c c' d d'
    simp only [calCrc32_xor c c' d d', reverse_xor]
  have hbyte : XorLinear₂ fun c d => crcByte (BitVec.reverse 0x04c11db7#32) (BitVec.reverse c) d := by
    intro c c' d d'
    simp only [reverse_xor]
    exact crcByte_xor _ _ _ _ _
  exact hcal.ext hbyte (by decide +kernel) (by decide +kernel) c d

/-! ## The checksum of a string -/

theorem crc32Loop_eq (bs : List UInt8) (c : BitVec 32) :
    ∃ r, crc32Loop bs.length bs c = some r ∧ r.reverse = crcRun (BitVec.reverse 0x04c11db7#32) c.reverse bs := by
  induction bs generalizing c with
  | nil => exact ⟨c, rfl, rfl⟩
  | cons d bs ih =>
    obtain ⟨r, hr, hrev⟩ := ih (calCrc32 c d.toBitVec)
    rw [calCrc32_reverse] at hrev
    exact ⟨r, hr, hrev⟩

theorem toNat_dataSize {n : Nat} (h : n < 2147483648) : (Int32.ofNat n).toInt.toNat = n := by
  rw [Int32.toInt_ofNat_of_lt h]
  rfl

/-- The reflected CRC-32 of IEEE 802.3. -/
theorem nstGetCrc32_standard (bs : List UInt8) (h : bs.length < 2147483648) :
    nstGetCrc32 bs (.ofNat bs.length) =
      some (~~~ crcRun (BitVec.reverse 0x04c11db7#32) 0xffffffff#32 bs) := by
  obtain ⟨r, hr, hrev⟩ := crc32Loop_eq bs 0xffffffff#32
  have hinit : BitVec.reverse 0xffffffff#32 = 0xffffffff#32 := by decide +kernel
  rw [nstGetCrc32, toNat_dataSize h, hr, Option.map_some, orLoop_reverse, hrev, hinit]

/-- The check value, of `123456789`. -/
theorem nstGetCrc32_standard_check :
    nstGetCrc32 [0x31, 0x32, 0x33, 0x34, 0x35, 0x36, 0x37, 0x38, 0x39] 9 =
      some (~~~ crcRun (BitVec.reverse 0x04c11db7#32) 0xffffffff#32
        [0x31, 0x32, 0x33, 0x34, 0x35, 0x36, 0x37, 0x38, 0x39]) :=
  nstGetCrc32_standard [0x31, 0x32, 0x33, 0x34, 0x35, 0x36, 0x37, 0x38, 0x39] (by decide)

example : BitVec.reverse 0x04c11db7#32 = 0xedb88320#32 := by decide +kernel

example : nstGetCrc32 [0x31, 0x32, 0x33, 0x34, 0x35, 0x36, 0x37, 0x38, 0x39] 9 = some 0xcbf43926#32 := by
  decide +kernel

end GizwitsSdk
