import GizwitsSdk.DnsWalk

/-!
# The DNS server

`DNSS_RecvCb` copies a datagram, looks at the flags, finds the end of the name
and behind it the type and the class, and replies. The reads of the datagram and
the writes of a reply are checked. The filter lets a query through when its type
or its class is right.
-/

namespace GizwitsSdk

open Lib

inductive DnsReaction
  | silent
  | nameErr (reply : List UInt8)
  | answer (reply : List UInt8)
  deriving DecidableEq

def dnsHeaderSize : Nat := 12

/-- A record type or class in network order; `A` and `IN` are both 1. -/
def dnsRRTypeA : List UInt8 := [0, 1]
def dnsRRClassIn : List UInt8 := [0, 1]

/-! ## Replies -/

def dnsHeader (transactionId : List UInt8) (dnsFlag2 answerRR : UInt8) : List UInt8 :=
  transactionId ++ [0x80, dnsFlag2, 0, 1, 0, answerRR, 0, 0, 0, 0]

/-- Pieces that are written one behind the other to a block of `size` bytes, and
sent; `none` if they do not fit. -/
def dnsReply (size : Nat) (pieces : List (List UInt8)) : Option (List UInt8) :=
  (putAll (List.Vector.replicate size 0) 0 pieces).bind fun block => slice block.1 0 pieces.flatten.length

/-- The block of a reply, in whole words. -/
def dnsReplySize (n : Nat) : Nat := (n + 3) / 4 * 4

def dnsNameErr (dnsQuery queryName transactionId : List UInt8) : Option (List UInt8) :=
  dnsReply (dnsReplySize (dnsHeaderSize + (queryName.length + 1) + 4))
    [dnsHeader transactionId 0x03 0, queryName ++ [0], dnsQuery]

/-- The name as an offset, type, class, time to live, length and address. -/
def dnsAnswer (hostIp dnsQuery queryName transactionId : List UInt8) : Option (List UInt8) :=
  dnsReply (dnsReplySize (dnsHeaderSize + (queryName.length + 1) + 4 + 2 + 8 + 2 + 4))
    [dnsHeader transactionId 0x00 1, queryName ++ [0], dnsQuery, [0xc0, 12],
      dnsRRTypeA ++ dnsRRClassIn ++ [0, 0, 0x0e, 0x10], [0, 4], hostIp]

/-! ## A datagram -/

def hostIpOf (srv : Mem) : List UInt8 := (List.range 4).map fun k => srv (36 + k)

def dnsFlagsFiltered (dnsFlag1 : UInt8) : Prop := dnsFlag1 &&& 0x80 ≠ 0 ∨ dnsFlag1 &&& 0x78 ≠ 0

instance (f : UInt8) : Decidable (dnsFlagsFiltered f) := inferInstanceAs (Decidable (_ ∨ _))

/-- The name up to its first 0, the type and the class behind it. -/
def questionOf (msg : List UInt8) : Option (List UInt8 × List UInt8 × List UInt8) :=
  (strlenIn (msg.drop dnsHeaderSize)).bind fun len =>
    (slice msg (dnsHeaderSize + len + 1) 4).map fun query =>
      ((msg.drop dnsHeaderSize).take len, query.take 2, query.drop 2)

/-- `DNSS_RecvCb` with memory for the copy and the reply: no result when a byte
is read behind the copy or written behind the block of the reply. -/
def dnssRecvCb (srv : Mem) (msg : List UInt8) : Option DnsReaction :=
  msg[2]?.bind fun dnsFlag1 =>
    if dnsFlagsFiltered dnsFlag1 then some .silent
    else
      (questionOf msg).bind fun (name, type, cls) =>
        if cls ≠ dnsRRClassIn ∧ type ≠ dnsRRTypeA then some .silent
        else
          (dnsCompareName srv (msg.drop dnsHeaderSize)).bind fun differs =>
            (slice msg 0 2).bind fun transactionId =>
              if differs ≠ 0 then (dnsNameErr (type ++ cls) name transactionId).map .nameErr
              else (dnsAnswer (hostIpOf srv) (type ++ cls) name transactionId).map .answer

/-! ## The law -/

def standardQuery (msg : List UInt8) : Prop := ∃ f, msg[2]? = some f ∧ ¬ dnsFlagsFiltered f

/-- A reply has the transaction id and the question of the message. -/
def DnsEcho (msg r : List UInt8) : Prop :=
  r.take 2 = msg.take 2 ∧ ∃ name type cls, questionOf msg = some (name, type, cls) ∧
    (r.drop dnsHeaderSize).take (name.length + 5) = name ++ 0 :: (type ++ cls)

structure DnsLaw (srv : Mem) (msg : List UInt8) : Prop where
  inBounds : (dnssRecvCb srv msg).isSome
  answers : ∀ r, dnssRecvCb srv msg = some (.answer r) → standardQuery msg ∧
    ∃ name, questionOf msg = some (name, dnsRRTypeA, dnsRRClassIn) ∧ OwnName srv name
  others : standardQuery msg → ∀ name, questionOf msg = some (name, dnsRRTypeA, dnsRRClassIn) →
    ¬ OwnName srv name → ∃ r, dnssRecvCb srv msg = some (.nameErr r)
  ignored : ∀ f, msg[2]? = some f → dnsFlagsFiltered f → dnssRecvCb srv msg = some .silent
  filtered : standardQuery msg → ∀ name type cls, questionOf msg = some (name, type, cls) →
    ¬ (type = dnsRRTypeA ∧ cls = dnsRRClassIn) → dnssRecvCb srv msg = some .silent
  echo : ∀ r, dnssRecvCb srv msg = some (.nameErr r) ∨ dnssRecvCb srv msg = some (.answer r) → DnsEcho msg r

/-- The flags are there, and if they are those of a query its fields are there as
well; type and class are both right or both wrong; and if they are right, the
walk over the name ends well. -/
def DnsClear (srv : Mem) (msg : List UInt8) : Prop :=
  ∃ f, msg[2]? = some f ∧ (dnsFlagsFiltered f ∨ ∃ name type cls, questionOf msg = some (name, type, cls) ∧
    (type ≠ dnsRRTypeA ∧ cls ≠ dnsRRClassIn ∨
      type = dnsRRTypeA ∧ cls = dnsRRClassIn ∧ QueryClear srv (msg.drop dnsHeaderSize)))

/-! ## What is sent -/

theorem le_dnsReplySize (n : Nat) : n ≤ dnsReplySize n := by
  unfold dnsReplySize
  omega

theorem dnsReply_eq {size : Nat} {pieces : List (List UInt8)} (h : pieces.flatten.length ≤ size) :
    dnsReply size pieces = some pieces.flatten := putAll_slice _ _ h

section
variable {msg name type cls : List UInt8} {f : UInt8} {srv : Mem}

theorem questionOf_some (h : questionOf msg = some (name, type, cls)) :
    (type ++ cls).length = 4 ∧ 2 ≤ msg.length ∧
      0 ∈ msg.drop dnsHeaderSize ∧ name = (msg.drop dnsHeaderSize).takeWhile (· ≠ 0) := by
  unfold questionOf at h
  obtain ⟨len, hs, h⟩ := Option.bind_eq_some_iff.mp h
  obtain ⟨query, hq, h⟩ := Option.map_eq_some_iff.mp h
  obtain ⟨rfl, hqc⟩ := Prod.mk.inj h
  obtain ⟨rfl, rfl⟩ := Prod.mk.inj hqc
  unfold strlenIn at hs
  split at hs
  · rename_i h0
    obtain rfl := Option.some.inj hs
    have hname := (List.prefix_iff_eq_take.mp (List.takeWhile_prefix (· ≠ 0) (l := msg.drop dnsHeaderSize))).symm
    unfold slice at hq
    split at hq
    · rename_i hle
      have hlen : query.length = 4 := by
        rw [← Option.some.inj hq, List.length_take, List.length_drop]
        omega
      rw [List.take_append_drop, hlen]
      exact ⟨rfl, by omega, h0, hname⟩
    · cases hq
  · cases hs

/-- A reply that begins with the header, the name and the query, and fits its block. -/
theorem dnsReply_echo (hq : questionOf msg = some (name, type, cls)) (flag2 answers : UInt8)
    (more : List (List UInt8)) (size : Nat)
    (h : dnsHeaderSize + (name.length + 1) + 4 + more.flatten.length ≤ size) :
    ∃ r, dnsReply size (dnsHeader (msg.take 2) flag2 answers :: (name ++ [0]) :: (type ++ cls) :: more) = some r ∧
      DnsEcho msg r := by
  obtain ⟨h4, hmsg, -⟩ := questionOf_some hq
  have htid : (msg.take 2).length = 2 := by
    rw [List.length_take]
    omega
  have hhead : (dnsHeader (msg.take 2) flag2 answers).length = dnsHeaderSize := by
    unfold dnsHeader
    rw [List.length_append, htid]
    rfl
  have hflat : (dnsHeader (msg.take 2) flag2 answers :: (name ++ [0]) :: (type ++ cls) :: more).flatten =
      dnsHeader (msg.take 2) flag2 answers ++ ((name ++ [0]) ++ ((type ++ cls) ++ more.flatten)) := rfl
  refine ⟨_, dnsReply_eq ?_, ?_, name, type, cls, hq, ?_⟩
  · rw [hflat, List.length_append, List.length_append, List.length_append, List.length_append, hhead, h4]
    exact Nat.le_trans (Nat.le_of_eq (by simp only [List.length_singleton]; omega)) h
  · rw [hflat]
    unfold dnsHeader
    rw [List.append_assoc, List.take_left' htid]
  · rw [hflat, List.drop_left' hhead, ← List.append_assoc, List.take_left', List.append_assoc]
    · rfl
    · rw [List.length_append, List.length_append, h4]
      rfl

/-- A query with all its fields is let through by its type or its class, and what
the comparison says decides between two replies that echo it. -/
theorem recv_query (hf : msg[2]? = some f) (hn : ¬ dnsFlagsFiltered f)
    (hq : questionOf msg = some (name, type, cls)) : ∃ r₁ r₂, DnsEcho msg r₁ ∧ DnsEcho msg r₂ ∧
      dnssRecvCb srv msg =
        if cls ≠ dnsRRClassIn ∧ type ≠ dnsRRTypeA then some .silent
        else (dnsCompareName srv (msg.drop dnsHeaderSize)).map fun v =>
          if v ≠ 0 then .nameErr r₁ else .answer r₂ := by
  have hmsg := (questionOf_some hq).2.1
  obtain ⟨r₁, h₁, e₁⟩ := dnsReply_echo hq 0x03 0 [] _ (le_dnsReplySize (dnsHeaderSize + (name.length + 1) + 4))
  obtain ⟨r₂, h₂, e₂⟩ := dnsReply_echo hq 0x00 1
    [[0xc0, 12], dnsRRTypeA ++ dnsRRClassIn ++ [0, 0, 0x0e, 0x10], [0, 4], hostIpOf srv] _
    (le_dnsReplySize (dnsHeaderSize + (name.length + 1) + 4 + 2 + 8 + 2 + 4))
  refine ⟨r₁, r₂, e₁, e₂, ?_⟩
  unfold dnssRecvCb
  rw [hf, Option.bind_some, if_neg hn, hq, Option.bind_some]
  dsimp only
  split
  · rfl
  · cases dnsCompareName srv (msg.drop dnsHeaderSize) with
    | none => rfl
    | some v =>
      rw [Option.bind_some, slice_of_le (by omega), List.drop_zero, Option.bind_some]
      unfold dnsNameErr dnsAnswer
      rw [h₁, h₂]
      by_cases hv : v ≠ 0
      · simp only [if_pos hv, Option.map_some]
      · simp only [if_neg hv, Option.map_some]

theorem DnsLaw.of_silent (hr : dnssRecvCb srv msg = some .silent)
    (hno : standardQuery msg → ∀ name, questionOf msg ≠ some (name, dnsRRTypeA, dnsRRClassIn)) :
    DnsLaw srv msg := by
  constructor
  · rw [hr]
    rfl
  · intro r h
    rw [hr] at h
    cases h
  · intro hstd name hq
    exact absurd hq (hno hstd name)
  · intro _ _ _
    exact hr
  · intro _ _ _ _ _ _
    exact hr
  · intro r h
    rw [hr] at h
    rcases h with h | h <;> cases h

theorem DnsLaw.of_reply {r₁ r₂ : List UInt8} {v : Int} (hstd : standardQuery msg)
    (hq : questionOf msg = some (name, dnsRRTypeA, dnsRRClassIn)) (e₁ : DnsEcho msg r₁) (e₂ : DnsEcho msg r₂)
    (hr : dnssRecvCb srv msg = some (if v ≠ 0 then .nameErr r₁ else .answer r₂))
    (hown : v = 0 → OwnName srv name) : DnsLaw srv msg := by
  have hfields {name' type' cls' : List UInt8} (hq' : questionOf msg = some (name', type', cls')) :
      name' = name ∧ type' = dnsRRTypeA ∧ cls' = dnsRRClassIn := by
    obtain ⟨h1, h2⟩ := Prod.mk.inj (Option.some.inj (hq'.symm.trans hq))
    exact ⟨h1, Prod.mk.inj h2⟩
  constructor
  · rw [hr]
    rfl
  · intro r h
    rw [hr] at h
    by_cases hv : v = 0
    · exact ⟨hstd, name, hq, hown hv⟩
    · rw [if_pos hv] at h
      cases h
  · intro _ name' hq' hno
    rw [(hfields hq').1] at hno
    exact ⟨r₁, by rw [hr, if_pos fun hv => hno (hown hv)]⟩
  · intro f hf hfil
    obtain ⟨f', hf', hn⟩ := hstd
    rw [Option.some.inj (hf'.symm.trans hf)] at hn
    exact absurd hfil hn
  · intro _ name' type' cls' hq' hne
    exact absurd (hfields hq').2 hne
  · intro r h
    rw [hr] at h
    by_cases hv : v = 0
    · rw [if_neg (not_not.mpr hv)] at h
      obtain h | h := h
      · cases h
      · cases h
        exact e₂
    · rw [if_pos hv] at h
      obtain h | h := h
      · cases h
        exact e₁
      · cases h

theorem dnsClear_of_law (h : DnsLaw srv msg) : DnsClear srv msg := by
  obtain ⟨x, hx⟩ := Option.isSome_iff_exists.mp h.inBounds
  have hx' := hx
  unfold dnssRecvCb at hx'
  obtain ⟨f, hf, hx'⟩ := Option.bind_eq_some_iff.mp hx'
  refine ⟨f, hf, ?_⟩
  by_cases hn : dnsFlagsFiltered f
  · exact .inl hn
  rw [if_neg hn] at hx'
  obtain ⟨⟨name, type, cls⟩, hq, -⟩ := Option.bind_eq_some_iff.mp hx'
  refine .inr ⟨name, type, cls, hq, ?_⟩
  obtain ⟨r₁, r₂, e₁, e₂, hr⟩ := @recv_query _ _ _ _ _ srv hf hn hq
  have hstd : standardQuery msg := ⟨f, hf, hn⟩
  by_cases hfil : cls ≠ dnsRRClassIn ∧ type ≠ dnsRRTypeA
  · exact .inl ⟨hfil.2, hfil.1⟩
  rw [if_neg hfil] at hr
  obtain ⟨-, -, h0, hname⟩ := questionOf_some hq
  cases hv : dnsCompareName srv (msg.drop dnsHeaderSize) with
  | none =>
    rw [hv] at hr
    rw [hr] at hx
    cases hx
  | some v =>
    rw [hv, Option.map_some] at hr
    have hboth : type = dnsRRTypeA ∧ cls = dnsRRClassIn := by
      by_contra hno
      have hs := hr.symm.trans (h.filtered hstd name type cls hq hno)
      split at hs <;> cases hs
    refine .inr ⟨hboth.1, hboth.2, (compareName_clear h0).mp ⟨v, hv, fun hv0 => ?_⟩⟩
    rw [if_neg (not_not.mpr hv0)] at hr
    rw [← hname]
    obtain ⟨-, name', hq', hown⟩ := h.answers r₂ hr
    obtain ⟨rfl, -⟩ := Prod.mk.inj (Option.some.inj (hq.symm.trans hq'))
    exact hown

theorem dnsLaw_of_clear (h : DnsClear srv msg) : DnsLaw srv msg := by
  obtain ⟨f, hf, hcase⟩ := h
  by_cases hn : dnsFlagsFiltered f
  · have hr : dnssRecvCb srv msg = some .silent := by
      unfold dnssRecvCb
      rw [hf, Option.bind_some, if_pos hn]
    have hno : ¬ standardQuery msg := by
      rintro ⟨f', hf', hn'⟩
      rw [Option.some.inj (hf.symm.trans hf')] at hn
      exact hn' hn
    exact DnsLaw.of_silent hr fun h => absurd h hno
  · obtain ⟨name, type, cls, hq, hcase⟩ := hcase.resolve_left hn
    obtain ⟨r₁, r₂, e₁, e₂, hr⟩ := @recv_query _ _ _ _ _ srv hf hn hq
    rcases hcase with ⟨htype, hcls⟩ | ⟨htype, hcls, hclear⟩
    · rw [if_pos ⟨hcls, htype⟩] at hr
      apply DnsLaw.of_silent hr
      intro _ name' hq'
      obtain ⟨-, htc⟩ := Prod.mk.inj (Option.some.inj (hq.symm.trans hq'))
      exact htype (Prod.mk.inj htc).1
    · subst htype hcls
      obtain ⟨-, -, h0, hname⟩ := questionOf_some hq
      obtain ⟨v, hv, hown⟩ := (compareName_clear h0).mpr hclear
      rw [← hname] at hown
      rw [if_neg (by simp), hv, Option.map_some] at hr
      exact DnsLaw.of_reply ⟨f, hf, hn⟩ hq e₁ e₂ hr hown

end

end GizwitsSdk
