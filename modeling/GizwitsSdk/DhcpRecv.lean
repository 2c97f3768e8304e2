import GizwitsSdk.DhcpWalk

/-!
# What a short datagram leaves to the last one

A datagram is copied over the beginning of `DhcpMsg`, but the request is read
from the whole of it. So the handling depends on the datagram alone only when
the options stop before its end, and every value that the message type asks for
is in it.
-/

namespace GizwitsSdk

open Lib

/-! ## The datagram -/

/-- The bytes that the callback checks, with their places. -/
def dhcpHeader : List (Nat × UInt8) :=
  [(0, 1), (1, 1), (236, 0x63), (237, 0x82), (238, 0x53), (239, 0x63)]

/-- A byte of the datagram itself makes the callback drop it. -/
def Refused (d : List UInt8) : Prop := ∃ h ∈ dhcpHeader, h.1 < d.length ∧ d.getD h.1 0 ≠ h.2

/-- The handling of `d` is the same for any two leftovers. -/
def SameHandling (d : List UInt8) : Prop :=
  ∀ (t₁ t₂ : DhcpsState) (pbufAlloc : Bool), t₁.server = t₂.server →
    (∀ k, dhcpMsgSize ≤ k → t₁.mem k = t₂.mem k) →
    (dhcpsRecvCb t₁ d pbufAlloc).1.server = (dhcpsRecvCb t₂ d pbufAlloc).1.server ∧
      (dhcpsRecvCb t₁ d pbufAlloc).2 = (dhcpsRecvCb t₂ d pbufAlloc).2

theorem headerOk_iff (m : Mem) : headerOk m ↔ ∀ h ∈ dhcpHeader, m h.1 = h.2 := by
  have hmagic : htonl (wordAt m 236) = dhcpMagic ↔
      m 236 = 0x63 ∧ m 237 = 0x82 ∧ m 238 = 0x53 ∧ m 239 = 0x63 := by
    have hw : (wordAt m 236).toNat = load32 m 236 := UInt32.toNat_ofNat_of_lt' (load32_lt _ _)
    have hm : htonl dhcpMagic = 0x63538263 := by decide
    have hl : load32 m 236 = (m 236).toNat + 256 * (m 237).toNat + 65536 * (m 238).toNat +
        16777216 * (m 239).toNat := rfl
    rw [← htonl_inj, htonl_htonl, hm, ← UInt32.toNat_inj, hw, hl]
    simp only [← UInt8.toNat_inj, UInt8.reduceToNat, UInt32.reduceToNat]
    have h0 := (m 236).toNat_lt
    have h1 := (m 237).toNat_lt
    have h2 := (m 238).toNat_lt
    have h3 := (m 239).toNat_lt
    omega
  unfold headerOk
  rw [hmagic]
  simp only [dhcpHeader, List.forall_mem_cons, List.not_mem_nil, false_implies, implies_true, and_true,
    dhcpOpRequest, dhcpHwtypeEthernet]
  tauto

section
variable {d : List UInt8}

theorem blit_self {m : Mem} (h : ∀ k < d.length, m k = d.getD k 0) : blit m 0 d = m := by
  funext k
  by_cases hk : k < d.length
  · rw [blit_at (Nat.zero_le k) (by omega), Nat.sub_zero, h k hk]
  · exact if_neg (by omega)

theorem blit_get (m : Mem) {k : Nat} (h : k < d.length) : blit m 0 d k = d.getD k 0 := by
  rw [blit_at (Nat.zero_le k) (by omega), Nat.sub_zero]

/-- A datagram that passes the checks is served from the buffer it is copied to. -/
theorem recvCb_serves (t : DhcpsState) (hd : 0 < d.length) (hn : d.length ≤ dhcpMsgSize)
    (hm : headerOk (blit t.mem 0 d)) (pbufAlloc : Bool) :
    ((dhcpsRecvCb t d pbufAlloc).1.server, (dhcpsRecvCb t d pbufAlloc).2) =
      serveOptions t.server (macAt (blit t.mem 0 d) 28) (htonl (wordAt (blit t.mem 0 d) 4))
        (parseDhcpOptions (blit t.mem 0 d)) pbufAlloc := by
  unfold dhcpsRecvCb
  simp only [List.take_of_length_le hn]
  rw [if_neg (by rintro (h | h); omega; exact h hm)]
  generalize serveOptions t.server _ _ _ _ = r
  obtain ⟨s, reply⟩ := r
  cases reply <;> rfl

theorem recvCb_refused (t : DhcpsState) (hn : d.length ≤ dhcpMsgSize)
    (h : d.length = 0 ∨ ¬ headerOk (blit t.mem 0 d)) (pbufAlloc : Bool) :
    (dhcpsRecvCb t d pbufAlloc).1.server = t.server ∧ (dhcpsRecvCb t d pbufAlloc).2 = none := by
  unfold dhcpsRecvCb
  simp only [List.take_of_length_le hn, if_pos h, and_self]

theorem refused_not_ok (h : Refused d) (m : Mem) : ¬ headerOk (blit m 0 d) := by
  obtain ⟨x, hx, hlt, hne⟩ := h
  intro hm
  rw [headerOk_iff] at hm
  exact hne ((blit_get m hlt).symm.trans (hm x hx))

/-- Two memories with the datagram in them that are served differently. -/
theorem not_sameHandling (hd : 0 < d.length) (hn : d.length ≤ dhcpMsgSize) {m₁ m₂ : Mem}
    (h₁ : ∀ k < d.length, m₁ k = d.getD k 0) (h₂ : ∀ k < d.length, m₂ k = d.getD k 0)
    (hb : ∀ k, dhcpMsgSize ≤ k → m₁ k = m₂ k) (hk₁ : headerOk m₁) (hk₂ : headerOk m₂) {mac : Mac}
    {xid : UInt32} (hm₁ : macAt m₁ 28 = mac) (hm₂ : macAt m₂ 28 = mac)
    (hx₁ : htonl (wordAt m₁ 4) = xid) (hx₂ : htonl (wordAt m₂ 4) = xid)
    (hna : ¬ Alike mac xid (parseDhcpOptions m₁) (parseDhcpOptions m₂)) : ¬ SameHandling d := by
  intro hs
  apply hna
  intro s pbufAlloc
  obtain ⟨e1, e2⟩ := hs ⟨s, m₁⟩ ⟨s, m₂⟩ pbufAlloc rfl hb
  have r₁ := recvCb_serves ⟨s, m₁⟩ hd hn (by rw [blit_self h₁]; exact hk₁) pbufAlloc
  have r₂ := recvCb_serves ⟨s, m₂⟩ hd hn (by rw [blit_self h₂]; exact hk₂) pbufAlloc
  simp only [blit_self h₁, blit_self h₂, hm₁, hm₂, hx₁, hx₂] at r₁ r₂
  rw [← r₁, ← r₂, e1, e2]

theorem macAt_congr {m m' : Mem} {a : Nat} (h : ∀ k, a ≤ k → k < a + 6 → m k = m' k) :
    macAt m a = macAt m' a := by
  apply Vector.ext
  intro i hi
  simp only [macAt, Vector.getElem_ofFn]
  exact h _ (by omega) (by omega)

theorem wordAt_congr {m m' : Mem} {a : Nat} (h : ∀ k, a ≤ k → k < a + 4 → m k = m' k) :
    wordAt m a = wordAt m' a := by
  unfold wordAt
  rw [load32_congr h]

theorem headerOk_congr {m m' : Mem} (h : ∀ k < 240, m k = m' k) (hm : headerOk m') : headerOk m := by
  rw [headerOk_iff] at hm ⊢
  intro x hx
  have hlt : x.1 < 240 := by
    revert x
    decide
  rw [h _ hlt, hm x hx]

theorem tracks_start (b : Mem) (n : Nat) :
    Tracks b n ⟨none, true, true⟩ fun _ => ⟨0, 0xff, 0, 0⟩ := by
  refine ⟨fun m _ => ?_, fun m _ t ht => ?_, ⟨fun _ _ _ _ => rfl, nofun⟩, ⟨fun _ _ _ _ => rfl, nofun⟩⟩
  · exact iff_of_false (fun h => h rfl) (fun h => h rfl)
  · cases ht

/-- A buffer with the right header, and the datagram over it. -/
def headerMem : Mem := fun k => (dhcpHeader.lookup k).getD 0

theorem headerOk_blit (h : ¬ Refused d) : headerOk (blit headerMem 0 d) := by
  rw [headerOk_iff]
  intro x hx
  by_cases hlt : x.1 < d.length
  · rw [blit_get _ hlt]
    by_contra hne
    exact h ⟨x, hx, hlt, hne⟩
  · have hall : ∀ x ∈ dhcpHeader, headerMem x.1 = x.2 := by decide
    rw [blit, if_neg (by omega)]
    exact hall x hx

theorem not_sameHandling_header (h0 : 0 < d.length) (hn : d.length ≤ 240) (href : ¬ Refused d) :
    ¬ SameHandling d := by
  have hok := headerOk_blit href
  have hget : ∀ k < d.length, blit headerMem 0 d k = d.getD k 0 := fun k hk => blit_get _ hk
  generalize blit headerMem 0 d = b at hok hget
  have hS : ∀ m, Ext b 240 m → ((⟨0, 0xff, 0, 0⟩ : DhcpOptions).Speaks ↔ False) := fun m _ =>
    iff_of_false (fun h => h.1 rfl) id
  obtain ⟨m₁, m₂, hm, hna⟩ := leftover_code (macAt b 28) (htonl (wordAt b 4))
    (o := fun _ => ⟨0, 0xff, 0, 0⟩) 308 (Nat.le_refl 240) (by decide) (by decide) hS
  exact not_sameHandling h0 (hn.trans (by decide)) (fun k hk => (hm.left k (by omega)).trans (hget k hk))
    (fun k hk => (hm.right k (by omega)).trans (hget k hk)) hm.behind
    (headerOk_congr hm.left hok) (headerOk_congr hm.right hok)
    (macAt_congr fun k _ hk => hm.left k (by omega)) (macAt_congr fun k _ hk => hm.right k (by omega))
    (congrArg htonl (wordAt_congr fun k _ hk => hm.left k (by omega)))
    (congrArg htonl (wordAt_congr fun k _ hk => hm.right k (by omega))) hna

theorem sameHandling_options (hn : 240 < d.length) (hfull : d.length < dhcpMsgSize) (href : ¬ Refused d) :
    SameHandling d ↔ OptionsSettled d := by
  have hget : ∀ (m : Mem), ∀ k < d.length, blit m 0 d k = d.getD k 0 := fun m k hk => blit_get _ hk
  have hok : ∀ m, headerOk (blit m 0 d) := fun m => headerOk_congr
    (fun k hk => (hget m k (by omega)).trans (hget headerMem k (by omega)).symm) (headerOk_blit href)
  unfold OptionsSettled
  have hbase := hget fun _ => 0
  have hokb := hok fun _ => 0
  generalize blit (fun _ => 0) 0 d = b at hbase hokb ⊢
  rw [settledLoop_iff (macAt b 28) (htonl (wordAt b 4)) hfull (tracks_start b d.length)
    (by decide)]
  have hmac : ∀ m, Ext b d.length m → macAt m 28 = macAt b 28 := fun m hm =>
    macAt_congr fun k _ hk => hm k (by omega)
  have hxid : ∀ m, Ext b d.length m → htonl (wordAt m 4) = htonl (wordAt b 4) := fun m hm =>
    congrArg htonl (wordAt_congr fun k _ hk => hm k (by omega))
  constructor
  · intro hs m₁ m₂ hm
    by_contra hna
    exact not_sameHandling (by omega) (by omega) (fun k hk => (hm.left k hk).trans (hbase k hk))
      (fun k hk => (hm.right k hk).trans (hbase k hk)) hm.behind
      (headerOk_congr (fun k hk => hm.left k (by omega)) hokb)
      (headerOk_congr (fun k hk => hm.right k (by omega)) hokb) (hmac _ hm.left) (hmac _ hm.right)
      (hxid _ hm.left) (hxid _ hm.right) hna hs
  · intro hal t₁ t₂ pbufAlloc he hb
    have hext : ∀ m, Ext b d.length (blit m 0 d) := fun m k hk => (hget m k hk).trans (hbase k hk).symm
    have htwin : Twin b d.length (blit t₁.mem 0 d) (blit t₂.mem 0 d) := by
      refine ⟨hext _, hext _, fun k hk => ?_⟩
      rw [blit, blit, if_neg (by omega), if_neg (by omega), hb k hk]
    have r₁ := recvCb_serves t₁ (by omega) (by omega) (hok t₁.mem) pbufAlloc
    have r₂ := recvCb_serves t₂ (by omega) (by omega) (hok t₂.mem) pbufAlloc
    rw [hmac _ htwin.left, hxid _ htwin.left] at r₁
    rw [hmac _ htwin.right, hxid _ htwin.right] at r₂
    have ha := hal _ _ htwin t₁.server pbufAlloc
    have hr := r₁.trans (ha.trans ((congrArg (fun s => serveOptions s _ _ _ _) he).trans r₂.symm))
    exact Prod.mk.inj hr

/-- **Only the datagram.** The handling of a datagram depends on nothing left
over in the buffer exactly when the datagram is empty, or fills the buffer, or
is dropped for a byte of its own, or has in it all that is read of its options. -/
theorem datagram_only_iff (d : List UInt8) :
    SameHandling d ↔ d.length = 0 ∨ dhcpMsgSize ≤ d.length ∨ Refused d ∨ 240 < d.length ∧ OptionsSettled d := by
  by_cases h0 : d.length = 0
  · refine iff_of_true (fun t₁ t₂ pbufAlloc he _ => ?_) (.inl h0)
    obtain ⟨e1, e2⟩ := recvCb_refused t₁ (by omega) (.inl h0) pbufAlloc
    obtain ⟨e3, e4⟩ := recvCb_refused t₂ (by omega) (.inl h0) pbufAlloc
    exact ⟨e1.trans (he.trans e3.symm), e2.trans e4.symm⟩
  rw [or_iff_right h0]
  by_cases hfull : dhcpMsgSize ≤ d.length
  · refine iff_of_true (fun t₁ t₂ pbufAlloc he hb => ?_) (.inl hfull)
    have hmem : blit t₁.mem 0 (d.take dhcpMsgSize) = blit t₂.mem 0 (d.take dhcpMsgSize) := by
      have hl : (d.take dhcpMsgSize).length = dhcpMsgSize := by
        rw [List.length_take]; omega
      funext k
      by_cases hk : k < dhcpMsgSize
      · rw [blit_get _ (by omega), blit_get _ (by omega)]
      · rw [blit, blit, if_neg (by omega), if_neg (by omega), hb k (by omega)]
    unfold dhcpsRecvCb
    simp only [hmem, he, and_self]
  rw [or_iff_right hfull]
  by_cases href : Refused d
  · refine iff_of_true (fun t₁ t₂ pbufAlloc he _ => ?_) (.inl href)
    obtain ⟨e1, e2⟩ := recvCb_refused t₁ (by omega) (.inr (refused_not_ok href _)) pbufAlloc
    obtain ⟨e3, e4⟩ := recvCb_refused t₂ (by omega) (.inr (refused_not_ok href _)) pbufAlloc
    exact ⟨e1.trans (he.trans e3.symm), e2.trans e4.symm⟩
  rw [or_iff_right href]
  by_cases hn : 240 < d.length
  · rw [sameHandling_options hn (by omega) href, and_iff_right hn]
  · exact iff_of_false (not_sameHandling_header (by omega) (by omega) href) fun h => hn h.1

end

/-- A datagram of one byte. After an offer, which is still in the buffer, it is
taken for a message of that client and refused; in a clear buffer it is dropped. -/
theorem datagram_one_byte :
    let s := (dhcpsStart bootServer true 0x0100a8c0 0x00ffffff true).1
    let offer := dhcpOfferGen s 0 (Vector.replicate 6 1) 7
    (dhcpsRecvCb ⟨s, replyMem (fun _ => 0) offer⟩ [1] true).2 =
        some (dhcpNakGen s (Vector.replicate 6 1) 7) ∧
      (dhcpsRecvCb ⟨s, fun _ => 0⟩ [1] true).2 = none ∧ ¬ SameHandling [1] := by
  intro s offer
  have h1 : (dhcpsRecvCb ⟨s, replyMem (fun _ => 0) offer⟩ [1] true).2 =
      some (dhcpNakGen s (Vector.replicate 6 1) 7) := by decide +kernel
  have h2 : (dhcpsRecvCb ⟨s, fun _ => 0⟩ [1] true).2 = none := by decide +kernel
  apply And.intro h1
  apply And.intro h2
  intro h
  have hopt : offer.options.length ≤ 50 := by decide
  have hb : ∀ k, dhcpMsgSize ≤ k → replyMem (fun _ => 0) offer k = (fun _ => 0 : Mem) k := fun k hk =>
    replyMem_behind (fun _ => 0) hopt hk
  generalize replyMem (fun _ => 0) offer = m at h1 hb
  have he := (h ⟨s, m⟩ ⟨s, fun _ => 0⟩ true rfl hb).2
  rw [h1, h2] at he
  cases he

end GizwitsSdk
