import GizwitsSdk.Lib.Buffer
import GizwitsSdk.Lib.Search
import Mathlib.Data.List.TakeWhile

/-!
# The replies of the HTTP server: `http.c`

A place in the reply buffer is what is left of the buffer there. A search ends
at a NUL, or where the buffer ends without one: what is read there, or at a place
that a search did not find, has no result.
-/

namespace GizwitsSdk

open Lib

/-! ## The functions -/

/-- The loop over `n` of `GAgent_strstr`. -/
def sameStart : List UInt8 → List UInt8 → Option Bool
  | _, [] => some true
  | [], _ :: _ => none
  | c :: s1, d :: s2 => if c = d then sameStart s1 s2 else some false

def strstrLoop (s2 : List UInt8) : List UInt8 → Option (Option (List UInt8))
  | [] => none
  | c :: s1 =>
    if c = 0 then some none
    else (sameStart (c :: s1) s2).bind fun same => if same then some (some (c :: s1)) else strstrLoop s2 s1

/-- `some none` is `NULL`. -/
def gAgentStrstr (s1 s2 : List UInt8) : Option (Option (List UInt8)) :=
  if s2 = [] then some (some s1) else strstrLoop s2 s1

def decimalDigit (c : UInt8) : Bool := 0x30 ≤ c && c ≤ 0x39

-- the sum is unsigned and wraps
def atoi : List UInt8 → UInt32 → Option UInt32
  | [], _ => none
  | c :: s, value => if decimalDigit c then atoi s (value * 10 + (c - 0x30).toUInt32) else some value

def between (pStart pEnd : List UInt8) : List UInt8 := pStart.take (pStart.length - pEnd.length)

/-- A copy to an array of ten, and `atoi` on it. -/
def copiedNumber (bs : List UInt8) : Option UInt32 :=
  (put (List.Vector.replicate 10 0) 0 bs).bind fun b => atoi b.1 0

/-- `" "`, `"did="`, `"host="`, `"&"` and `"port="`. -/
def space : List UInt8 := [0x20]
def didWord : List UInt8 := [0x64, 0x69, 0x64, 0x3d]
def hostWord : List UInt8 := [0x68, 0x6f, 0x73, 0x74, 0x3d]
def ampersand : List UInt8 := [0x26]
def portWord : List UInt8 := [0x70, 0x6f, 0x72, 0x74, 0x3d]

-- the second search starts at `++p_start`, which is the address 1 when there is no space
def httpResponseCode (httpRecevieBuf : List UInt8) : Option UInt32 :=
  (gAgentStrstr httpRecevieBuf space).bind fun r => r.elim none fun pStart =>
    let pStart := pStart.drop 1
    (gAgentStrstr pStart space).bind fun r =>
      r.elim (atoi (List.replicate 10 0) 0) fun pEnd => copiedNumber (between pStart pEnd)

structure DidReply where
  ret : Int
  did : List.Vector UInt8 24

def httpResponseDID (httpRecevieBuf : List UInt8) : Option DidReply :=
  let did : List.Vector UInt8 24 := .replicate 24 0
  (gAgentStrstr httpRecevieBuf didWord).bind fun r => r.elim (some ⟨1, did⟩) fun pStart =>
    (slice (pStart.drop 4) 0 22).bind fun bs =>
      (put did 0 bs).bind fun did => (put did 22 [0]).map fun did => ⟨0, did⟩

structure DomainReply where
  ret : Int
  domain : List.Vector UInt8 100
  port : Int32

-- the length of the last copy is the difference to `NULL` when no `&` is behind the port
def httpGetdomainPort (httpRecevieBuf : List UInt8) (port : Int32) : Option DomainReply :=
  let domain : List.Vector UInt8 100 := .replicate 100 0
  (gAgentStrstr httpRecevieBuf hostWord).bind fun r => r.elim (some ⟨1, domain, port⟩) fun pStart =>
    let pStart := pStart.drop 5
    (gAgentStrstr pStart ampersand).bind fun r => r.elim (some ⟨1, domain, port⟩) fun pEnd =>
      let host := between pStart pEnd
      ((put domain 0 host).bind fun domain => put domain host.length [0]).bind fun domain =>
        (gAgentStrstr (pEnd.drop 1) portWord).bind fun r => r.elim (some ⟨1, domain, port⟩) fun pStart =>
          let pStart := pStart.drop 5
          (gAgentStrstr pStart ampersand).bind fun r => r.elim none fun pEnd =>
            (copiedNumber (between pStart pEnd)).map fun value => ⟨0, domain, value.toInt32⟩

/-! ## Searches in a buffer -/

section
variable {t w z a b : List UInt8} {β : Type}

/-- The string `t` ends in the buffer, or the buffer ends with it. -/
def EndsText (z : List UInt8) : Prop := ∀ c ∈ z.head?, c = 0

theorem sameStart_eq (hz : EndsText z) (hw : 0 ∉ w) :
    sameStart (t ++ z) w = if w <+: t then some true else if z = [] ∧ t <+: w then none else some false := by
  induction w generalizing t with
  | nil => rw [sameStart, if_pos List.nil_prefix]
  | cons d w ih =>
    obtain ⟨hd, hw'⟩ := not_or.mp (mt List.mem_cons.mpr hw)
    cases t with
    | nil =>
      rw [List.nil_append, if_neg (by simp)]
      cases z with
      | nil => rw [sameStart, if_pos ⟨rfl, List.nil_prefix⟩]
      | cons c z =>
        obtain rfl : c = 0 := hz c rfl
        rw [sameStart, if_neg hd, if_neg (by simp)]
    | cons c t =>
      rw [List.cons_append, sameStart]
      by_cases hcd : c = d
      · subst hcd
        simp only [if_true, ih hw', List.cons_prefix_cons, true_and]
      · rw [if_neg hcd, if_neg fun h => hcd (List.cons_prefix_cons.mp h).1.symm,
          if_neg fun h => hcd (List.cons_prefix_cons.mp h.2).1]

theorem strstr_eq (hz : EndsText z) (ht : 0 ∉ t) (hw : 0 ∉ w) (hne : w ≠ []) :
    gAgentStrstr (t ++ z) w =
      match cut w t with
      | some p => some (some (w ++ (p.2 ++ z)))
      | none => if z = [] then none else some none := by
  rw [gAgentStrstr, if_neg hne]
  induction t with
  | nil =>
    rw [cut, if_neg hne]
    cases z with
    | nil => rfl
    | cons c z =>
      obtain rfl : c = 0 := hz c rfl
      rfl
  | cons c t ih =>
    obtain ⟨hc, ht'⟩ := not_or.mp (mt List.mem_cons.mpr ht)
    rw [List.cons_append, strstrLoop, if_neg (Ne.symm hc), ← List.cons_append, sameStart_eq hz hw]
    by_cases hp : w <+: c :: t
    · rw [if_pos hp, cut_head hp]
      obtain ⟨b, hb⟩ := hp
      simp only [Option.bind_some, if_true, ← hb, List.drop_left, List.append_assoc]
    · rw [if_neg hp, cut_step hp]
      by_cases hend : z = [] ∧ c :: t <+: w
      · have hnone : cut w t = none := by
          refine cut_none_iff.mpr fun a b he => ?_
          have hlen := hend.2.length_le
          rw [he] at hlen
          simp only [List.length_cons, List.length_append] at hlen
          omega
        rw [if_pos hend, hnone, hend.1]
        rfl
      · rw [if_neg hend, Option.bind_some, if_neg (by decide), ih ht']
        cases cut w t with
        | none => rfl
        | some p => rfl

theorem strstr_found (hz : EndsText z) (ht : 0 ∉ t) (hw : 0 ∉ w) (hne : w ≠ []) (hc : cut w t = some (a, b)) :
    gAgentStrstr (t ++ z) w = some (some (w ++ (b ++ z))) := by
  rw [strstr_eq hz ht hw hne, hc]

/-- The rule for what is done after a search. -/
theorem strstr_isSome (hz : EndsText z) (ht : 0 ∉ t) (hw : 0 ∉ w) (hne : w ≠ [])
    (f : Option (List UInt8) → Option β) :
    ((gAgentStrstr (t ++ z) w).bind f).isSome ↔
      Cuts w t (fun _ b => (f (some (w ++ (b ++ z)))).isSome) (z ≠ [] ∧ (f none).isSome) := by
  rw [strstr_eq hz ht hw hne, Cuts]
  cases cut w t with
  | some p => rfl
  | none =>
    by_cases hnil : z = [] <;> simp [hnil]

theorem between_eq (a b w z : List UInt8) : between (a ++ (w ++ b) ++ z) (w ++ (b ++ z)) = a := by
  have hlen : (a ++ (w ++ b) ++ z).length - (w ++ (b ++ z)).length = a.length := by
    simp only [List.length_append]
    omega
  rw [between, hlen, List.append_assoc, List.take_left]

theorem clear_after (ht : 0 ∉ t) (hc : cut w t = some (a, b)) : 0 ∉ b := by
  intro hm
  refine ht ?_
  rw [cut_parts hc]
  exact List.mem_append_right a (List.mem_append_right w hm)

/-! ## Numbers -/

theorem atoi_isSome (v : UInt32) : (atoi b v).isSome ↔ ∃ c ∈ b, decimalDigit c = false := by
  induction b generalizing v with
  | nil => simp [atoi]
  | cons c b ih =>
    unfold atoi
    by_cases hc : decimalDigit c = true
    · rw [if_pos hc, ih]
      simp [hc]
    · rw [if_neg hc]
      simp [hc]

/-- Ten bytes have room for it, and one of them is no digit. -/
def FitsNumber (bs : List UInt8) : Prop :=
  bs.length ≤ 9 ∨ (bs.length = 10 ∧ ∃ c ∈ bs, decimalDigit c = false)

theorem zeros_after {bs : List UInt8} {b : List.Vector UInt8 10} (h : put (List.Vector.replicate 10 0) 0 bs = some b) :
    b.1 = bs ++ List.replicate (10 - bs.length) 0 := by
  rw [(put_toList h).2, List.take_zero, List.nil_append, Nat.zero_add]
  exact congrArg (bs ++ ·) (List.drop_replicate ..)

theorem copiedNumber_isSome (bs : List UInt8) : (copiedNumber bs).isSome ↔ FitsNumber bs := by
  have h : ∀ b, put (List.Vector.replicate 10 0) 0 bs = some b →
      ((atoi b.1 0).isSome ↔ bs.length < 10 ∨ ∃ c ∈ bs, decimalDigit c = false) := by
    intro b hb
    rw [atoi_isSome, zeros_after hb]
    constructor
    · rintro ⟨c, hc, hd⟩
      rcases List.mem_append.mp hc with hc | hc
      · exact .inr ⟨c, hc, hd⟩
      · exact .inl (Nat.lt_of_sub_pos (Nat.pos_of_ne_zero fun h0 => by simp [h0] at hc))
    · rintro (hlt | ⟨c, hc, hd⟩)
      · refine ⟨0, List.mem_append_right bs ?_, rfl⟩
        rw [List.mem_replicate]
        exact ⟨by omega, rfl⟩
      · exact ⟨c, List.mem_append_left _ hc, hd⟩
  rw [copiedNumber, bind_isSome h, put_isSome, FitsNumber]
  constructor
  · rintro ⟨hle, hlt | hc⟩
    · exact .inl (by omega)
    · rcases Nat.lt_or_ge bs.length 10 with hlt | hge
      · exact .inl (by omega)
      · exact .inr ⟨by omega, hc⟩
  · rintro (hle | ⟨he, hc⟩)
    · exact ⟨by omega, .inl (by omega)⟩
    · exact ⟨by omega, .inr hc⟩

def decimalValue (n : Nat) (bs : List UInt8) : Nat := bs.foldl (fun n c => n * 10 + (c.toNat - 0x30)) n

theorem atoi_digits {bs : List UInt8} (hd : ∀ c ∈ bs, decimalDigit c = true) (n : Nat) (rest : List UInt8) :
    atoi (bs ++ 0 :: rest) (.ofNat n) = some (.ofNat (decimalValue n bs)) := by
  induction bs generalizing n with
  | nil => rfl
  | cons c bs ih =>
    obtain ⟨hc, hd⟩ := List.forall_mem_cons.mp hd
    have hstep : UInt32.ofNat n * 10 + (c - 0x30).toUInt32 = UInt32.ofNat (n * 10 + (c.toNat - 0x30)) := by
      have hle : (0x30 : UInt8) ≤ c := by
        simp only [decimalDigit, Bool.and_eq_true, decide_eq_true_eq] at hc
        exact hc.1
      rw [UInt32.ofNat_add, UInt32.ofNat_mul]
      congr 1
      rw [← UInt32.toNat_inj, UInt8.toNat_toUInt32, UInt8.toNat_sub_of_le _ _ hle, UInt32.toNat_ofNat']
      have := c.toNat_lt
      exact (Nat.mod_eq_of_lt (by omega)).symm
    rw [List.cons_append, atoi, if_pos hc, hstep, ih hd]
    rfl

theorem decimalValue_lt {bs : List UInt8} (hd : ∀ c ∈ bs, decimalDigit c = true) (n : Nat) :
    decimalValue n bs < (n + 1) * 10 ^ bs.length := by
  induction bs generalizing n with
  | nil => simp [decimalValue]
  | cons c bs ih =>
    obtain ⟨hc, hd⟩ := List.forall_mem_cons.mp hd
    have hle : c.toNat ≤ 0x39 := by
      simp only [decimalDigit, Bool.and_eq_true, decide_eq_true_eq] at hc
      exact hc.2
    calc decimalValue n (c :: bs) < (n * 10 + (c.toNat - 0x30) + 1) * 10 ^ bs.length := ih hd _
      _ ≤ ((n + 1) * 10) * 10 ^ bs.length := Nat.mul_le_mul_right _ (by omega)
      _ = (n + 1) * 10 ^ (c :: bs).length := by rw [List.length_cons, Nat.pow_succ', Nat.mul_assoc]

theorem copiedNumber_digits {bs : List UInt8} (hd : ∀ c ∈ bs, decimalDigit c = true) (hlen : bs.length ≤ 9) :
    copiedNumber bs = some (.ofNat (decimalValue 0 bs)) := by
  obtain ⟨b, hb⟩ := put_of_le (i := 0) (List.Vector.replicate 10 0) bs (by omega)
  have hz : List.replicate (10 - bs.length) (0 : UInt8) = 0 :: List.replicate (9 - bs.length) 0 := by
    rw [← List.replicate_succ]
    congr 1
    omega
  rw [copiedNumber, hb, Option.bind_some, zeros_after hb, hz]
  exact atoi_digits hd 0 _

end

/-! ## Replies -/

/-- What `recv` has put into the cleared buffer. -/
structure ServerReply where
  bytes : List UInt8
  nonempty : 0 < bytes.length
  fits : bytes.length ≤ 1024

namespace ServerReply

def buf (r : ServerReply) : List UInt8 := r.bytes ++ List.replicate (1024 - r.bytes.length) 0

/-- The reply up to its first NUL. -/
def text (r : ServerReply) : List UInt8 := r.bytes.takeWhile (· ≠ 0)

/-- Up to its first `host=` and from there on a reply tells of a host and a port. -/
structure TellsM2m (r : ServerReply) (front host port back : List UInt8) : Prop where
  short : r.bytes.length < 1024
  first : cut hostWord r.bytes = some (front, host ++ 0x26 :: (portWord ++ (port ++ 0x26 :: back)))
  hostLength : 1 ≤ host.length ∧ host.length ≤ 99
  hostClear : 0x26 ∉ host ∧ 0 ∉ host
  portLength : 1 ≤ port.length ∧ port.length ≤ 9
  portDigits : ∀ c ∈ port, decimalDigit c = true

/-- The three functions stay in their arrays, and the host and the port are found. -/
structure WellParsed (r : ServerReply) : Prop where
  code : (httpResponseCode r.buf).isSome
  did : (httpResponseDID r.buf).isSome
  domain : ∀ port, (httpGetdomainPort r.buf port).isSome
  found : ∀ front host port back, r.TellsM2m front host port back → ∀ port₀, ∃ d,
    httpGetdomainPort r.buf port₀ = some d ∧ d.ret = 0 ∧ (host ++ [0]) <+: d.domain.1 ∧
      d.port.toInt = decimalValue 0 port

/-- Two spaces are around a number, or only one is there and a NUL behind it. -/
def CodeFits (r : ServerReply) : Prop :=
  Cuts space r.text
    (fun _ rest => Cuts space rest (fun code _ => FitsNumber code) (r.text.length < 1024)) False

/-- Twenty-two bytes are left behind `did=`. -/
def DidFits (r : ServerReply) : Prop :=
  Cuts didWord r.text (fun front _ => front.length + 26 ≤ 1024) (r.text.length < 1024)

/-- The host is short and an `&` is behind it; a port too, if one is there. -/
def DomainFits (r : ServerReply) : Prop :=
  Cuts hostWord r.text
    (fun _ rest => Cuts ampersand rest
      (fun host rest => host.length ≤ 99 ∧
        Cuts portWord rest
          (fun _ rest => Cuts ampersand rest (fun port _ => FitsNumber port) False) (r.text.length < 1024))
      (r.text.length < 1024))
    (r.text.length < 1024)

/-- No NUL hides the host from the search. -/
def Visible (r : ServerReply) : Prop := ∀ front host port back, r.TellsM2m front host port back → 0 ∉ front

variable {r : ServerReply}

theorem length_buf (r : ServerReply) : r.buf.length = 1024 := by
  have := r.fits
  rw [buf, List.length_append, List.length_replicate]
  omega

theorem buf_split (r : ServerReply) :
    ∃ z, r.buf = r.text ++ z ∧ EndsText z ∧ (z ≠ [] ↔ r.text.length < 1024) := by
  refine ⟨r.bytes.dropWhile (· ≠ 0) ++ List.replicate (1024 - r.bytes.length) 0, ?_, ?_, ?_⟩
  · rw [buf, text, ← List.append_assoc, List.takeWhile_append_dropWhile]
  · intro c hc
    rw [List.head?_append] at hc
    cases hd : (r.bytes.dropWhile (· ≠ 0)).head? with
    | none =>
      rw [hd, Option.none_or, List.head?_replicate] at hc
      split at hc
      · cases hc
      · exact (Option.some.inj hc).symm
    | some d =>
      rw [hd] at hc
      have hn := List.head?_dropWhile_not (· ≠ (0 : UInt8)) r.bytes
      rw [hd] at hn
      obtain rfl : d = c := Option.some.inj hc
      simpa using hn
  · have hlen : r.buf.length = 1024 := length_buf r
    have hsplit : r.buf = r.text ++ (r.bytes.dropWhile (· ≠ 0) ++ List.replicate (1024 - r.bytes.length) 0) := by
      rw [buf, text, ← List.append_assoc, List.takeWhile_append_dropWhile]
    rw [hsplit, List.length_append] at hlen
    rw [← List.length_pos_iff]
    omega

theorem text_clear (r : ServerReply) : 0 ∉ r.text := by
  intro h
  simpa using List.mem_takeWhile_imp h

/-! ## Where the functions stay in their arrays -/

theorem code_isSome (r : ServerReply) : (httpResponseCode r.buf).isSome ↔ r.CodeFits := by
  obtain ⟨z, hbuf, hz, hend⟩ := r.buf_split
  have ht := r.text_clear
  rw [httpResponseCode, hbuf, strstr_isSome hz ht (by decide) (by decide)]
  refine cuts_congr (fun a b hc => ?_) (by simp)
  have hb := clear_after ht hc
  simp only [Option.elim_some]
  show ((gAgentStrstr (b ++ z) space).bind _).isSome ↔ _
  rw [strstr_isSome hz hb (by decide) (by decide)]
  refine cuts_congr (fun a' b' hc' => ?_) ?_
  · rw [cut_parts hc']
    show (copiedNumber (between (a' ++ (space ++ b') ++ z) (space ++ (b' ++ z)))).isSome ↔ _
    rw [between_eq, copiedNumber_isSome]
  · exact (and_iff_left rfl).trans hend

theorem did_isSome (r : ServerReply) : (httpResponseDID r.buf).isSome ↔ r.DidFits := by
  obtain ⟨z, hbuf, hz, hend⟩ := r.buf_split
  have ht := r.text_clear
  have hlen := length_buf r
  rw [hbuf, List.length_append] at hlen
  rw [httpResponseDID, hbuf, strstr_isSome hz ht (by decide) (by decide)]
  refine cuts_congr (fun a b hc => ?_) ?_
  · have htext := congrArg List.length (cut_parts hc)
    simp only [List.length_append] at htext
    have hw : didWord.length = 4 := rfl
    show ((slice (b ++ z) 0 22).bind _).isSome ↔ _
    rw [bind_isSome (P := True), slice_isSome, List.length_append, and_true]
    · omega
    · intro bs hbs
      refine iff_of_true ?_ trivial
      have hl := length_slice hbs
      obtain ⟨d, hd⟩ := put_of_le (i := 0) (List.Vector.replicate 24 (0 : UInt8)) bs (by omega)
      obtain ⟨d', hd'⟩ := put_of_le (i := 22) d [0] (by decide)
      rw [hd, Option.bind_some, hd']
      rfl
  · exact (and_iff_left rfl).trans hend

theorem domain_isSome (r : ServerReply) (port : Int32) : (httpGetdomainPort r.buf port).isSome ↔ r.DomainFits := by
  obtain ⟨z, hbuf, hz, hend⟩ := r.buf_split
  have ht := r.text_clear
  rw [httpGetdomainPort, hbuf, strstr_isSome hz ht (by decide) (by decide)]
  refine cuts_congr (fun a b hc => ?_) ((and_iff_left rfl).trans hend)
  have hb := clear_after ht hc
  have hdrop (l : List UInt8) : (hostWord ++ l).drop 5 = l := rfl
  simp only [Option.elim_some, hdrop]
  rw [strstr_isSome hz hb (by decide) (by decide)]
  refine cuts_congr (fun host l hc => ?_) ((and_iff_left rfl).trans hend)
  have hl := clear_after hb hc
  rw [cut_parts hc]
  simp only [Option.elim_some, between_eq]
  rw [bind_isSome (P := Cuts portWord l (fun _ rest => Cuts ampersand rest (fun port _ => FitsNumber port) False)
    (r.text.length < 1024)), put_terminated_isSome, Nat.lt_succ_iff]
  intro domain _
  show ((gAgentStrstr (l ++ z) portWord).bind _).isSome ↔ _
  rw [strstr_isSome hz hl (by decide) (by decide)]
  refine cuts_congr (fun a' l' hc => ?_) ((and_iff_left rfl).trans hend)
  have hl' := clear_after hl hc
  have hdrop (l : List UInt8) : (portWord ++ l).drop 5 = l := rfl
  simp only [Option.elim_some, hdrop]
  rw [strstr_isSome hz hl' (by decide) (by decide)]
  refine cuts_congr (fun value back hc => ?_) (by simp)
  rw [cut_parts hc]
  simp only [Option.elim_some, between_eq, Option.isSome_map, copiedNumber_isSome]

/-! ## A host and a port -/

section
variable {front host port back : List UInt8}

theorem text_prefix (r : ServerReply) : r.text <+: r.bytes := List.takeWhile_prefix _

theorem digits_clear (h : r.TellsM2m front host port back) {c : UInt8} (hc : decimalDigit c = false) : c ∉ port := by
  intro hm
  rw [h.portDigits c hm] at hc
  cases hc

theorem text_tells (h : r.TellsM2m front host port back) (hv : 0 ∉ front) :
    cut hostWord r.text =
      some (front, host ++ 0x26 :: (portWord ++ (port ++ 0x26 :: back.takeWhile (· ≠ 0)))) := by
  have hbytes := cut_parts h.first
  have hport : 0 ∉ port := digits_clear h rfl
  have hclear : 0 ∉ front ++ (hostWord ++ (host ++ 0x26 :: (portWord ++ (port ++ [0x26])))) := by
    simp only [List.mem_append, List.mem_cons, not_or]
    exact ⟨hv, by decide, h.hostClear.2, by decide, by decide, hport, by decide, by decide⟩
  have htext : r.text = front ++ (hostWord ++ (host ++ 0x26 :: (portWord ++ (port ++ 0x26 :: back.takeWhile (· ≠ 0))))) := by
    have hw := takeWhile_append_clear hclear back
    simp only [List.append_assoc, List.cons_append, List.nil_append] at hw
    rw [text, hbytes]
    exact hw
  have hback : back = back.takeWhile (· ≠ 0) ++ back.dropWhile (· ≠ 0) := List.takeWhile_append_dropWhile.symm
  have hfirst := h.first
  rw [hbytes, hback] at hfirst
  rw [htext]
  refine cut_shorter (l := back.dropWhile (· ≠ 0)) ?_
  simp only [List.append_assoc, List.cons_append] at hfirst ⊢
  exact hfirst

theorem cut_ampersand {a : List UInt8} (h : 0x26 ∉ a) (b : List UInt8) :
    cut ampersand (a ++ 0x26 :: b) = some (a, b) := cut_single h

theorem tells_found (h : r.TellsM2m front host port back) (hv : 0 ∉ front) (port₀ : Int32) : ∃ d,
    httpGetdomainPort r.buf port₀ = some d ∧ d.ret = 0 ∧ (host ++ [0]) <+: d.domain.1 ∧
      d.port.toInt = decimalValue 0 port := by
  obtain ⟨z, hbuf, hz, -⟩ := r.buf_split
  have h1 := text_tells h hv
  have ht1 := clear_after r.text_clear h1
  have h2 := cut_ampersand h.hostClear.1 (portWord ++ (port ++ 0x26 :: back.takeWhile (· ≠ 0)))
  have ht2 := clear_after ht1 h2
  have h3 := cut_front portWord (port ++ 0x26 :: back.takeWhile (· ≠ 0))
  have ht3 := clear_after ht2 h3
  have h4 := cut_ampersand (digits_clear h (c := 0x26) rfl) (back.takeWhile (· ≠ 0))
  obtain ⟨domain, hd, hpre⟩ := put_terminated (List.Vector.replicate 100 0) (0 : UInt8)
    (s := host) (Nat.lt_succ_of_le h.hostLength.2)
  have hdrop (l : List UInt8) : (hostWord ++ l).drop 5 = l := rfl
  have hdrop' (l : List UInt8) : (portWord ++ l).drop 5 = l := rfl
  have hdrop1 (l : List UInt8) : (ampersand ++ l).drop 1 = l := rfl
  have hb1 : between (host ++ 0x26 :: (portWord ++ (port ++ 0x26 :: back.takeWhile (· ≠ 0))) ++ z)
      (ampersand ++ (portWord ++ (port ++ 0x26 :: back.takeWhile (· ≠ 0)) ++ z)) = host := between_eq host _ ampersand z
  have hb2 : between (port ++ 0x26 :: back.takeWhile (· ≠ 0) ++ z) (ampersand ++ (back.takeWhile (· ≠ 0) ++ z)) = port :=
    between_eq port _ ampersand z
  refine ⟨⟨0, domain, (UInt32.ofNat (decimalValue 0 port)).toInt32⟩, ?_, rfl, hpre, ?_⟩
  · rw [httpGetdomainPort, hbuf, strstr_found hz r.text_clear (by decide) (by decide) h1]
    simp only [Option.bind_some, Option.elim_some, hdrop]
    rw [strstr_found hz ht1 (by decide) (by decide) h2]
    simp only [Option.bind_some, Option.elim_some, hb1, hd, hdrop1]
    rw [strstr_found hz ht2 (by decide) (by decide) h3]
    simp only [Option.bind_some, Option.elim_some, hdrop']
    rw [strstr_found hz ht3 (by decide) (by decide) h4]
    simp only [Option.bind_some, Option.elim_some, hb2, copiedNumber_digits h.portDigits h.portLength.2, Option.map_some]
  · have hlt := decimalValue_lt h.portDigits 0
    have hpow : 10 ^ port.length ≤ 10 ^ 9 := Nat.pow_le_pow_right (by decide) h.portLength.2
    show (Int32.ofNat (decimalValue 0 port)).toInt = _
    rw [Int32.toInt_ofNat_of_lt (by omega)]

example : ((httpGetdomainPort (hostWord ++ 0x61 :: 0x26 :: (portWord ++ [0x31, 0x38, 0x26, 0])) 0).map
    DomainReply.port) = some 18 := by decide +kernel

/-- A NUL in front of the host ends the search. -/
theorem hidden_missing (h : r.TellsM2m front host port back) (hv : 0 ∈ front) : cut hostWord r.text = none := by
  obtain ⟨hbytes, hfirst⟩ := cut_some_iff.mp h.first
  refine cut_none_iff.mpr fun a b he => ?_
  obtain ⟨l, hl⟩ := text_prefix r
  have hle : front.length ≤ a.length := by
    refine hfirst a (b ++ l) ?_
    rw [← hl, he, List.append_assoc, List.append_assoc]
  have hsplit := (split_at hv).1
  have hlt : r.text.length < front.length := by
    have htext : r.text = front.takeWhile (· ≠ 0) := by
      rw [text, hbytes]
      conv_lhs => rw [hsplit, List.append_assoc, List.cons_append]
      exact takeWhile_append_stop (split_at hv).2 _
    have hlen := congrArg List.length hsplit
    rw [List.length_append, List.length_cons] at hlen
    rw [htext]
    omega
  have hlen := congrArg List.length he
  simp only [List.length_append] at hlen
  omega

theorem hidden_ret (h : r.TellsM2m front host port back) (hv : 0 ∈ front) {port₀ : Int32} {d : DomainReply}
    (hd : httpGetdomainPort r.buf port₀ = some d) : d.ret = 1 := by
  obtain ⟨z, hbuf, hz, -⟩ := r.buf_split
  rw [httpGetdomainPort, hbuf, strstr_eq hz r.text_clear (by decide) (by decide), hidden_missing h hv] at hd
  by_cases hnil : z = []
  · rw [if_pos hnil] at hd
    cases hd
  · rw [if_neg hnil] at hd
    exact congrArg DomainReply.ret (Option.some.inj hd).symm

end

/-- **The replies are parsed as they should be** exactly when two spaces are
around a short code, the identity is all there, an `&` is behind a short host
and a short port, and no NUL is in front of a host that is told. -/
theorem http_replies_iff (r : ServerReply) :
    r.WellParsed ↔ r.CodeFits ∧ r.DidFits ∧ r.DomainFits ∧ r.Visible := by
  constructor
  · intro h
    refine ⟨(code_isSome r).mp h.code, (did_isSome r).mp h.did, (domain_isSome r 0).mp (h.domain 0), ?_⟩
    intro front host port back ht hv
    obtain ⟨d, hd, hret, -⟩ := h.found front host port back ht 0
    rw [hidden_ret ht hv hd] at hret
    cases hret
  · rintro ⟨hc, hd, hp, hv⟩
    refine ⟨(code_isSome r).mpr hc, (did_isSome r).mpr hd, fun port => (domain_isSome r port).mpr hp, ?_⟩
    intro front host port back ht
    exact tells_found ht (hv front host port back ht)

def spaceless : ServerReply := ⟨[0x48], by decide, by decide⟩

theorem spaceless_not_parsed : ¬ ∀ r : ServerReply, r.WellParsed := by
  intro hall
  have h := (hall spaceless).code
  exact absurd h (by decide +kernel)

end ServerReply

end GizwitsSdk
