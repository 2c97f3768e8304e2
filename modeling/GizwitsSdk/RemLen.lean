import GizwitsSdk.MqttLib
import Mathlib.Data.Nat.Digits.Defs

/-!
# The two decoders of a remaining length

`mqtt_num_rem_len_bytes` stops at four bytes, `mqtt_parse_rem_len` at a byte
without the top bit, and it adds up in 16 bits. They agree on the fields of at
most four bytes whose number fits.
-/

namespace GizwitsSdk

open Lib

/-- `remLenLoop`, and how many bytes it reads. -/
def remLenRun : List UInt8 → UInt16 → UInt16 → Nat → Nat × Option UInt16
  | [], _, _, reads => (reads, none)
  | digit :: buf, multiplier, value, reads =>
    let value := value + (digit &&& 127).toUInt16 * multiplier
    let multiplier := multiplier * 128
    if digit &&& 128 ≠ 0 then remLenRun buf multiplier value (reads + 1) else (reads + 1, some value)

def remLenReads (buf : List UInt8) : Nat := (remLenRun (buf.drop 1) 1 0 0).1

/-- The sum of `(b_i & 127) * 128^i`. -/
def fieldSum (bs : List UInt8) : Nat := Nat.ofDigits 128 (bs.map fun b => (b &&& 127).toNat)

/-- The bytes up to the first one without the top bit. -/
def lengthField : List UInt8 → List UInt8
  | [] => []
  | b :: bs => if b &&& 128 ≠ 0 then b :: lengthField bs else [b]

/-- One of the first four length bytes has its top bit clear. -/
def EndsInFour (buf : List UInt8) : Prop := ∃ b ∈ (buf.drop 1).take 4, b &&& 128 = 0

/-- What is asked of a buffer, whatever lies behind it. -/
def RemLenAgrees (buf : List UInt8) : Prop :=
  (EndsInFour buf → remLenReads buf = mqttNumRemLenBytes buf ∧
    (mqttParseRemLen buf).map UInt16.toNat = some (fieldSum ((buf.drop 1).take (mqttNumRemLenBytes buf)))) ∧
  ∀ behind, remLenReads (buf ++ behind) ≤ 4

section
variable {ds rest buf : List UInt8} {d h : UInt8}

theorem remLenRun_value (buf : List UInt8) (m v : UInt16) (n : Nat) :
    (remLenRun buf m v n).2 = remLenLoop buf m v := by
  induction buf generalizing m v n with
  | nil => rfl
  | cons b buf ih =>
    rw [remLenRun, remLenLoop]
    by_cases hb : b &&& 128 ≠ 0
    · simp only [if_pos hb, ih]
    · simp only [if_neg hb]

/-! ## The loop -/

theorem fieldSum_cons (b : UInt8) (bs : List UInt8) :
    UInt16.ofNat (fieldSum (b :: bs)) = (b &&& 127).toUInt16 + 128 * .ofNat (fieldSum bs) := by
  rw [fieldSum, List.map_cons, Nat.ofDigits_cons, UInt16.ofNat_add, UInt16.ofNat_mul, UInt16.ofNat_uInt8ToNat]
  rfl

theorem fieldSum_one (b : UInt8) : UInt16.ofNat (fieldSum [b]) = (b &&& 127).toUInt16 := by
  rw [fieldSum_cons]
  exact UInt16.add_zero _

theorem remLenRun_more (rest : List UInt8) (hds : ∀ b ∈ ds, b &&& 128 ≠ 0) (m v : UInt16) (n : Nat) :
    ∃ m' v', remLenRun (ds ++ rest) m v n = remLenRun rest m' v' (n + ds.length) := by
  induction ds generalizing m v n with
  | nil => exact ⟨m, v, rfl⟩
  | cons b ds ih =>
    obtain ⟨hb, hds'⟩ := List.forall_mem_cons.mp hds
    obtain ⟨m', v', he⟩ := ih hds' (m * 128) (v + (b &&& 127).toUInt16 * m) (n + 1)
    refine ⟨m', v', ?_⟩
    rw [List.cons_append, remLenRun, if_pos hb, he, List.length_cons, Nat.add_right_comm, Nat.add_assoc]

theorem remLenRun_le (buf : List UInt8) (m v : UInt16) (n : Nat) : n ≤ (remLenRun buf m v n).1 := by
  induction buf generalizing m v n with
  | nil => exact Nat.le_refl n
  | cons b buf ih =>
    rw [remLenRun]
    by_cases hb : b &&& 128 ≠ 0
    · rw [if_pos hb]
      exact Nat.le_of_succ_le (ih _ _ _)
    · rw [if_neg hb]
      exact Nat.le_succ n

theorem remLenRun_first (b : UInt8) (buf : List UInt8) (m v : UInt16) (n : Nat) :
    n < (remLenRun (b :: buf) m v n).1 := by
  rw [remLenRun]
  by_cases hb : b &&& 128 ≠ 0
  · rw [if_pos hb]
    exact remLenRun_le _ _ _ _
  · rw [if_neg hb]
    exact Nat.lt_succ_self n

/-- A field that ends is read to its last byte, and its digits are added up in 16 bits. -/
theorem remLenRun_field (hds : ∀ b ∈ ds, b &&& 128 ≠ 0) (hd : d &&& 128 = 0) (m v : UInt16) (n : Nat) :
    remLenRun (ds ++ d :: rest) m v n = (n + ds.length + 1, some (v + m * .ofNat (fieldSum (ds ++ [d])))) := by
  induction ds generalizing m v n with
  | nil =>
    rw [List.nil_append, remLenRun, if_neg (not_not.mpr hd), List.nil_append, fieldSum_one, UInt16.mul_comm]
    rfl
  | cons b ds ih =>
    obtain ⟨hb, hds'⟩ := List.forall_mem_cons.mp hds
    have hsum : v + (b &&& 127).toUInt16 * m + m * 128 * .ofNat (fieldSum (ds ++ [d])) =
        v + m * .ofNat (fieldSum (b :: (ds ++ [d]))) := by
      rw [fieldSum_cons]
      grind
    rw [List.cons_append, remLenRun, if_pos hb, ih hds', List.cons_append, hsum, List.length_cons,
      Nat.add_right_comm n 1, Nat.add_assoc n]

/-! ## Fields of four bytes -/

theorem first_clear {l : List UInt8} {n : Nat} (hl : ∃ b ∈ l.take n, b &&& 128 = 0) :
    ∃ ds d rest, l = ds ++ d :: rest ∧ (∀ b ∈ ds, b &&& 128 ≠ 0) ∧ d &&& 128 = 0 ∧ ds.length < n := by
  induction l generalizing n with
  | nil => simp at hl
  | cons c l ih =>
    cases n with
    | zero => simp at hl
    | succ n =>
      by_cases hc : c &&& 128 = 0
      · exact ⟨[], c, l, rfl, by simp, hc, Nat.succ_pos n⟩
      · rw [List.take_succ_cons] at hl
        obtain ⟨b, hb, hz⟩ := hl
        rcases List.mem_cons.mp hb with rfl | hb
        · exact absurd hz hc
        · obtain ⟨ds, d, rest, rfl, hds, hd, hlen⟩ := ih ⟨b, hb, hz⟩
          exact ⟨c :: ds, d, rest, rfl, List.forall_mem_cons.mpr ⟨hc, hds⟩, hd, Nat.succ_lt_succ hlen⟩

theorem endsInFour_parts (hb : EndsInFour buf) :
    ∃ h ds d rest, buf = h :: (ds ++ d :: rest) ∧ (∀ b ∈ ds, b &&& 128 ≠ 0) ∧ d &&& 128 = 0 ∧ ds.length < 4 := by
  cases buf with
  | nil =>
    obtain ⟨b, hm, -⟩ := hb
    cases hm
  | cons h t =>
    obtain ⟨ds, d, rest, he, hparts⟩ := first_clear (l := t) hb
    exact ⟨h, ds, d, rest, congrArg (h :: ·) he, hparts⟩

theorem lengthField_eq (hds : ∀ b ∈ ds, b &&& 128 ≠ 0) (hd : d &&& 128 = 0) :
    lengthField (ds ++ d :: rest) = ds ++ [d] := by
  induction ds with
  | nil => rw [List.nil_append, lengthField, if_neg (not_not.mpr hd), List.nil_append]
  | cons b ds ih =>
    obtain ⟨hb, hds'⟩ := List.forall_mem_cons.mp hds
    rw [List.cons_append, lengthField, if_pos hb, ih hds', List.cons_append]

theorem numRemLen_eq (hds : ∀ b ∈ ds, b &&& 128 ≠ 0) (hd : d &&& 128 = 0) (hlen : ds.length < 4) :
    mqttNumRemLenBytes (h :: (ds ++ d :: rest)) = ds.length + 1 := by
  have hd' : ¬ d &&& 0x80 = 0x80 := by
    rw [hd]
    decide
  have hset : ∀ b ∈ ds, b &&& 0x80 = 0x80 := fun b hb => (top_bit_eq b).mpr ((top_bit_ne b).mp (hds b hb))
  unfold mqttNumRemLenBytes
  match ds, hset, hlen with
  | [], _, _ => exact if_neg hd'
  | [b], hset, _ =>
    simp only [List.forall_mem_cons] at hset
    simp [hset, hd']
  | [b, b'], hset, _ =>
    simp only [List.forall_mem_cons] at hset
    simp [hset, hd']
  | [b, b', b''], hset, _ =>
    simp only [List.forall_mem_cons] at hset
    simp [hset]

theorem reads_behind {l : List UInt8} (hset : ∀ b ∈ l.take 4, b &&& 128 ≠ 0) (hlen : 4 < l.length) (m v : UInt16) :
    4 < (remLenRun l m v 0).1 := by
  obtain ⟨m', v', he⟩ := remLenRun_more (l.drop 4) hset m v 0
  rw [List.take_append_drop, List.length_take, Nat.min_eq_left (Nat.le_of_lt hlen)] at he
  cases hrest : l.drop 4 with
  | nil => exact absurd (List.drop_eq_nil_iff.mp hrest) (Nat.not_le.mpr hlen)
  | cons c rest =>
    rw [he, hrest]
    exact remLenRun_first c rest m' v' _

/-- Where none of the four ends the field, a fifth byte is read. -/
theorem reads_five (hb : ¬ EndsInFour buf) : 4 < remLenReads (buf ++ List.replicate 6 0x80) := by
  refine reads_behind (fun b hm => ?_) ?_ 1 0
  · cases buf with
    | nil =>
      rw [List.eq_of_mem_replicate (List.mem_of_mem_drop (List.mem_of_mem_take hm))]
      decide
    | cons h t =>
      rw [List.cons_append, List.drop_one, List.tail_cons, List.take_append, List.mem_append] at hm
      rcases hm with hm | hm
      · exact fun hz => hb ⟨b, hm, hz⟩
      · rw [List.eq_of_mem_replicate (List.mem_of_mem_take hm)]
        decide
  · simp only [List.length_drop, List.length_append, List.length_replicate]
    omega

/-- Both agree just on the fields of four bytes that denote a number of 16 bits. -/
theorem remLen_agrees_iff (buf : List UInt8) :
    RemLenAgrees buf ↔ EndsInFour buf ∧ fieldSum (lengthField (buf.drop 1)) < 65536 := by
  by_cases hb : EndsInFour buf
  · obtain ⟨h, ds, d, rest, rfl, hds, hd, hlen⟩ := endsInFour_parts hb
    have hfield : lengthField ((h :: (ds ++ d :: rest)).drop 1) = ds ++ [d] := lengthField_eq hds hd
    have htake : ((h :: (ds ++ d :: rest)).drop 1).take (ds.length + 1) = ds ++ [d] := by
      rw [List.drop_one, List.tail_cons, List.take_length_add_append]
      rfl
    have hreads : ∀ behind, remLenReads (h :: (ds ++ d :: rest) ++ behind) = ds.length + 1 := by
      intro behind
      rw [remLenReads, List.cons_append, List.append_assoc, List.drop_one, List.tail_cons, List.cons_append,
        remLenRun_field hds hd, Nat.zero_add]
    have hvalue : mqttParseRemLen (h :: (ds ++ d :: rest)) = some (.ofNat (fieldSum (ds ++ [d]))) := by
      rw [mqttParseRemLen, List.drop_one, List.tail_cons, ← remLenRun_value _ _ _ 0, remLenRun_field hds hd,
        UInt16.zero_add, UInt16.one_mul]
    rw [RemLenAgrees, numRemLen_eq hds hd hlen, htake, hvalue, hfield, Option.map_some, Option.some_inj]
    constructor
    · intro hag
      rw [← (hag.1 hb).2]
      exact ⟨hb, UInt16.toNat_lt _⟩
    · intro hc
      refine ⟨fun _ => ⟨?_, UInt16.toNat_ofNat_of_lt hc.2⟩, fun behind => ?_⟩
      · exact (congrArg remLenReads (List.append_nil _)).symm.trans (hreads [])
      · rw [hreads]
        omega
  · refine iff_of_false (fun hag => ?_) (fun hc => hb hc.1)
    have hfive := reads_five hb
    have hfour := hag.2 (List.replicate 6 0x80)
    omega

end

/-- A field of three bytes for 65536, and one without an end. -/
theorem remLen_disagree :
    ¬ RemLenAgrees [0x30, 0x80, 0x80, 0x04] ∧ ¬ RemLenAgrees [0x30, 0x80, 0x80, 0x80, 0x80, 0x01] := by
  constructor
  · intro h
    have hv := (h.1 ⟨0x04, by decide, by decide⟩).2
    revert hv
    decide
  · intro h
    have hr := h.2 []
    revert hr
    decide

end GizwitsSdk
