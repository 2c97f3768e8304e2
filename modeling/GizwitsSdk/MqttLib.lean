import GizwitsSdk.Lib.Varint

/-!
# Remaining lengths in `mqttlib.c`

A buffer is the list of bytes from the pointer on. Both decoders skip the
first byte, which is the header of a packet. `mqttNumRemLenBytes` counts the
bytes of the length field, four at most; `mqttParseRemLen` adds its digits up
in 16 bits and stops at a byte without the top bit, `none` when the buffer has
no such byte.
-/

namespace GizwitsSdk

open Lib

def mqttNumRemLenBytes (buf : List UInt8) : Nat :=
  if buf.getD 1 0 &&& 0x80 = 0x80 then
    if buf.getD 2 0 &&& 0x80 = 0x80 then
      if buf.getD 3 0 &&& 0x80 = 0x80 then 4 else 3
    else 2
  else 1

def remLenLoop : List UInt8 → UInt16 → UInt16 → Option UInt16
  | [], _, _ => none
  | digit :: buf, multiplier, value =>
    let value := value + (digit &&& 127).toUInt16 * multiplier
    let multiplier := multiplier * 128
    if digit &&& 128 ≠ 0 then remLenLoop buf multiplier value else some value

def mqttParseRemLen (buf : List UInt8) : Option UInt16 := remLenLoop (buf.drop 1) 1 0

def mqttParseMessageType (buf : List UInt8) : UInt8 := buf.getD 0 0 &&& 0xf0

/-! ## Fields of one and two bytes -/

section
variable {n : Nat} {rest : List UInt8}

theorem remLenLoop_varint (h : n < 16384) :
    remLenLoop (varint n ++ rest) 1 0 = some (.ofNat n) := by
  by_cases h1 : n < 128
  · rw [varint_one h1, List.singleton_append, remLenLoop]
    have ht : ¬ UInt8.ofNat n &&& 128 ≠ 0 := by
      rw [top_bit_ne, ofNat_toNat_of_lt (by omega)]; omega
    rw [if_neg ht, Option.some_inj, ← UInt16.toNat_inj]
    have hl := low7_toNat (UInt8.ofNat n)
    rw [ofNat_toNat_of_lt (by omega)] at hl
    simp only [UInt16.toNat_add, UInt16.toNat_mul, UInt8.toNat_toUInt16, hl, UInt16.toNat_ofNat']
    have e0 : (0 : UInt16).toNat = 0 := rfl
    have e1 : (1 : UInt16).toNat = 1 := rfl
    rw [e0, e1]
    omega
  · have ht : UInt8.ofNat (n % 128 + 128) &&& 128 ≠ 0 := by
      rw [top_bit_ne, ofNat_toNat_of_lt (by omega)]; omega
    have ht' : ¬ UInt8.ofNat (n / 128) &&& 128 ≠ 0 := by
      rw [top_bit_ne, ofNat_toNat_of_lt (by omega)]; omega
    rw [varint_two (by omega) h, List.cons_append, List.singleton_append, remLenLoop, if_pos ht,
      remLenLoop, if_neg ht', Option.some_inj, ← UInt16.toNat_inj]
    have hl := low7_toNat (UInt8.ofNat (n % 128 + 128))
    have hl' := low7_toNat (UInt8.ofNat (n / 128))
    rw [ofNat_toNat_of_lt (by omega)] at hl hl'
    simp only [UInt16.toNat_add, UInt16.toNat_mul, UInt8.toNat_toUInt16, hl, hl', UInt16.toNat_ofNat']
    have e0 : (0 : UInt16).toNat = 0 := rfl
    have e1 : (1 : UInt16).toNat = 1 := rfl
    have e2 : (128 : UInt16).toNat = 128 := rfl
    rw [e0, e1, e2]
    omega

theorem numRemLen_varint {h : UInt8} (hn : n < 16384) :
    mqttNumRemLenBytes (h :: (varint n ++ rest)) = (varint n).length := by
  by_cases h1 : n < 128
  · have h2 : ¬ 128 ≤ (UInt8.ofNat n).toNat := by rw [ofNat_toNat_of_lt (by omega)]; omega
    unfold mqttNumRemLenBytes
    simp only [varint_one h1, List.singleton_append, List.getD_cons_succ, List.getD_cons_zero,
      top_bit_eq]
    rw [if_neg h2]; rfl
  · have h2 : 128 ≤ (UInt8.ofNat (n % 128 + 128)).toNat := by
      rw [ofNat_toNat_of_lt (by omega)]; omega
    have h3 : ¬ 128 ≤ (UInt8.ofNat (n / 128)).toNat := by
      rw [ofNat_toNat_of_lt (by omega)]; omega
    unfold mqttNumRemLenBytes
    simp only [varint_two (show 128 ≤ n by omega) hn, List.cons_append, List.getD_cons_succ,
      List.getD_cons_zero, top_bit_eq]
    rw [if_pos h2, if_neg h3]; rfl

end

end GizwitsSdk
