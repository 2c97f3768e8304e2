import GizwitsSdk.DhcpMsg
import GizwitsSdk.DhcpSame

/-!
# The option walk over a partly overwritten buffer

The options are read from the whole of `DhcpMsg`, of which a datagram has
overwritten the first bytes. The walk is followed with what is known of each
value; where it comes to a left-over code, length or type, two leftovers are
given that are served differently.
-/

namespace GizwitsSdk

open Lib

/-! ## The walk over the received options -/

/-- What the walk knows of the request: its type, if one was seen, and whether
the address and the server are the datagram's own. -/
structure Known where
  msgType : Option UInt8
  req : Bool
  sid : Bool

/-- The values that the type asks for are known. -/
def Known.ok (w : Known) : Prop := ∀ t, w.msgType = some t →
  (t = dhcpMsgDiscover ∨ t = dhcpMsgRequest → w.req = true) ∧ (t = dhcpMsgRequest → w.sid = true)

/-- No byte of the word at `a` is left over, `n` bytes received. -/
def wordKnown (n a : Nat) : Bool := a + 4 ≤ n ∨ dhcpMsgSize ≤ a

def Known.see (m : Mem) (n p : Nat) (w : Known) : Known :=
  if m p = dhcpOptionMsgType then { w with msgType := some (m (p + 2)) }
  else if m p = dhcpOptionReqIpAddr then { w with req := wordKnown n (p + 2) }
  else if m p = dhcpOptionServerId then { w with sid := wordKnown n (p + 2) }
  else w

/-- The options from `p` on are read without a leftover that matters, `n` bytes
of `m` received. -/
def settledLoop (m : Mem) (n : Nat) : Nat → Nat → Known → Prop
  | 0, _, w => w.ok
  | fuel + 1, p, w =>
    if dhcpMsgSize ≤ p then w.ok
    else if n ≤ p then False
    else if m p = dhcpOptionEnd then w.ok
    else if m p = dhcpOptionPad then settledLoop m n fuel (p + 1) w
    else if p + 1 < n then
      if m p = dhcpOptionMsgType ∧ n ≤ p + 2 then False
      else settledLoop m n fuel (p + 2 + (m (p + 1)).toNat) (w.see m n p)
    -- the length is left over: no matter if the buffer ends behind it
    else dhcpMsgSize ≤ p + 2 ∧
      if m p = dhcpOptionMsgType then w.req = true ∧ w.sid = true else (w.see m n p).ok

/-- The option walk of the datagram takes what it uses from the datagram. -/
def OptionsSettled (d : List UInt8) : Prop :=
  settledLoop (blit (fun _ => 0) 0 d) d.length 308 240 ⟨none, true, true⟩

/-! ## Two memories with one datagram -/

def Ext (b : Mem) (n : Nat) (m : Mem) : Prop := ∀ k < n, m k = b k

/-- Two memories that differ in what is left over in the buffer. -/
structure Twin (b : Mem) (n : Nat) (m₁ m₂ : Mem) : Prop where
  left : Ext b n m₁
  right : Ext b n m₂
  behind : ∀ k, dhcpMsgSize ≤ k → m₁ k = m₂ k

/-- Both option records are served alike. -/
def Alike (mac : Mac) (xid : UInt32) (o₁ o₂ : DhcpOptions) : Prop :=
  ∀ s pbufAlloc, serveOptions s mac xid o₁ pbufAlloc = serveOptions s mac xid o₂ pbufAlloc

/-- The caller is told of a message type. -/
def DhcpOptions.Seen (o : DhcpOptions) : Prop := ¬ o.ret &&& 0x01 = 0

/-- The word `f m` is the same in both of two twins, or it is one with a
left-over byte. -/
structure TracksWord (b : Mem) (n : Nat) (known : Bool) (f : Mem → UInt32) : Prop where
  same : known = true → ∀ m₁ m₂, Twin b n m₁ m₂ → f m₁ = f m₂
  left : known = false → ∃ a, wordKnown n a = false ∧ ∀ m, Ext b n m → f m = wordAt m a

/-- `w` describes the options `o m` read so far, for every memory `m`. -/
structure Tracks (b : Mem) (n : Nat) (w : Known) (o : Mem → DhcpOptions) : Prop where
  seen : ∀ m, Ext b n m → ((o m).Seen ↔ w.msgType ≠ none)
  msgType : ∀ m, Ext b n m → ∀ t, w.msgType = some t → (o m).msgType = t
  req : TracksWord b n w.req fun m => (o m).reqIpAddr
  sid : TracksWord b n w.sid fun m => (o m).serverId

/-! ## One option -/

theorem ret_bit (r c : UInt8) :
    (r ||| c) &&& (0x01 : UInt8) = (r &&& (0x01 : UInt8)) ||| (c &&& (0x01 : UInt8)) := by
  apply UInt8.toBitVec_inj.mp
  simp only [UInt8.toBitVec_and, UInt8.toBitVec_or, BitVec.and_or_distrib_right]

theorem or_one (r : UInt8) : (r &&& (0x01 : UInt8)) ||| (0x01 : UInt8) = (0x01 : UInt8) := by
  apply UInt8.toBitVec_inj.mp
  apply BitVec.eq_of_getLsbD_eq
  intro i hi
  simp only [UInt8.toBitVec_and, UInt8.toBitVec_or, BitVec.getLsbD_or, BitVec.getLsbD_and]
  cases r.toBitVec.getLsbD i <;> simp

section
variable (m : Mem) (n p : Nat) (o : DhcpOptions) (w : Known)

theorem parseOption_seen : (parseOption m p o).Seen ↔ m p = dhcpOptionMsgType ∨ o.Seen := by
  unfold parseOption
  split
  · rename_i h
    refine iff_of_true ?_ (.inl h)
    unfold DhcpOptions.Seen
    rw [ret_bit, show (0x01 : UInt8) &&& (0x01 : UInt8) = (0x01 : UInt8) from rfl, or_one]
    decide
  · rename_i h
    have hret : ∀ c : UInt8, c &&& (0x01 : UInt8) = 0 →
        (¬ (o.ret ||| c) &&& (0x01 : UInt8) = 0 ↔ m p = dhcpOptionMsgType ∨ o.Seen) := by
      intro c hc
      rw [ret_bit, hc, UInt8.or_zero, or_iff_right h]; rfl
    split
    · exact hret 0x02 rfl
    split
    · exact hret 0x04 rfl
    · exact (or_iff_right h).symm

theorem parseOption_msgType : (parseOption m p o).msgType =
    if m p = dhcpOptionMsgType then m (p + 2) else o.msgType := by
  unfold parseOption; split_ifs <;> rfl

theorem parseOption_req : (parseOption m p o).reqIpAddr =
    if m p = dhcpOptionReqIpAddr then wordAt m (p + 2) else o.reqIpAddr := by
  unfold parseOption
  by_cases h : m p = dhcpOptionReqIpAddr
  · simp [h, dhcpOptionReqIpAddr, dhcpOptionMsgType]
  · rw [if_neg h]; split_ifs <;> rfl

theorem parseOption_sid : (parseOption m p o).serverId =
    if m p = dhcpOptionServerId then wordAt m (p + 2) else o.serverId := by
  unfold parseOption
  by_cases h : m p = dhcpOptionServerId
  · simp [h, dhcpOptionServerId, dhcpOptionReqIpAddr, dhcpOptionMsgType]
  · rw [if_neg h]; split_ifs <;> rfl

theorem see_msgType : (w.see m n p).msgType =
    if m p = dhcpOptionMsgType then some (m (p + 2)) else w.msgType := by
  unfold Known.see; split_ifs <;> rfl

theorem see_req : (w.see m n p).req =
    if m p = dhcpOptionReqIpAddr then wordKnown n (p + 2) else w.req := by
  unfold Known.see
  by_cases h : m p = dhcpOptionReqIpAddr
  · simp [h, dhcpOptionReqIpAddr, dhcpOptionMsgType]
  · rw [if_neg h]; split_ifs <;> rfl

theorem see_sid : (w.see m n p).sid =
    if m p = dhcpOptionServerId then wordKnown n (p + 2) else w.sid := by
  unfold Known.see
  by_cases h : m p = dhcpOptionServerId
  · simp [h, dhcpOptionServerId, dhcpOptionReqIpAddr, dhcpOptionMsgType]
  · rw [if_neg h]; split_ifs <;> rfl

end

section
variable {b : Mem} {n : Nat} {w : Known} {o : Mem → DhcpOptions}

theorem tracksWord_congr {known : Bool} {f g : Mem → UInt32} (h : TracksWord b n known f)
    (hfg : ∀ m, Ext b n m → g m = f m) : TracksWord b n known g := by
  refine ⟨fun hk m₁ m₂ hm => ?_, fun hk => ?_⟩
  · rw [hfg _ hm.left, hfg _ hm.right]; exact h.same hk m₁ m₂ hm
  · obtain ⟨a, ha, hw⟩ := h.left hk
    exact ⟨a, ha, fun m hm => (hfg m hm).trans (hw m hm)⟩

theorem tracksWord_read (b : Mem) (n a : Nat) : TracksWord b n (wordKnown n a) fun m => wordAt m a := by
  refine ⟨fun hk m₁ m₂ hm => ?_, fun hk => ⟨a, hk, fun _ _ => rfl⟩⟩
  have ha : a + 4 ≤ n ∨ dhcpMsgSize ≤ a := by simpa only [wordKnown, decide_eq_true_eq] using hk
  simp only [wordAt]
  rw [load32_congr fun x h1 h2 => ?_]
  rcases ha with ha | ha
  · rw [hm.left x (by omega), hm.right x (by omega)]
  · exact hm.behind x (by omega)

theorem tracksWord_option {known : Bool} {f : Mem → UInt32} (h : TracksWord b n known f) {p : Nat}
    (hp : p < n) (code : UInt8) :
    TracksWord b n (if b p = code then wordKnown n (p + 2) else known)
      fun m => if m p = code then wordAt m (p + 2) else f m := by
  by_cases hc : b p = code
  · rw [if_pos hc]
    exact tracksWord_congr (tracksWord_read b n (p + 2)) fun m hm => if_pos ((hm p hp).trans hc)
  · rw [if_neg hc]
    exact tracksWord_congr h fun m hm => if_neg fun he => hc ((hm p hp).symm.trans he)

theorem tracks_see {p : Nat} (h : Tracks b n w o) (hp : p < n)
    (ht : b p = dhcpOptionMsgType → p + 2 < n) :
    Tracks b n (w.see b n p) (fun m => parseOption m p (o m)) := by
  refine ⟨fun m hm => ?_, fun m hm t he => ?_, ?_, ?_⟩
  · rw [parseOption_seen, hm p hp, see_msgType, h.seen m hm]
    by_cases hc : b p = dhcpOptionMsgType <;> simp [hc]
  · rw [see_msgType] at he
    rw [parseOption_msgType, hm p hp]
    by_cases hc : b p = dhcpOptionMsgType
    · rw [if_pos hc] at he ⊢
      rw [hm _ (ht hc)]; exact Option.some.inj he
    · rw [if_neg hc] at he ⊢
      exact h.msgType m hm t he
  · simp only [parseOption_req, see_req]
    exact tracksWord_option h.req hp _
  · simp only [parseOption_sid, see_sid]
    exact tracksWord_option h.sid hp _

end

/-! ## Requests served alike -/

/-- The request is answered, when a buffer can be had. -/
def DhcpOptions.Speaks (o : DhcpOptions) : Prop := o.Seen ∧ ¬ Silent o.msgType

section
variable {mac : Mac} {xid : UInt32} {o₁ o₂ : DhcpOptions}

theorem alike_of_same (hs : o₁.Seen ↔ o₂.Seen) (ht : o₁.Seen → o₁.msgType = o₂.msgType)
    (hr : o₁.Seen → o₁.msgType = dhcpMsgDiscover ∨ o₁.msgType = dhcpMsgRequest →
      o₁.reqIpAddr = o₂.reqIpAddr)
    (hi : o₁.Seen → o₁.msgType = dhcpMsgRequest → o₁.serverId = o₂.serverId) :
    Alike mac xid o₁ o₂ := by
  intro s pbufAlloc
  unfold serveOptions
  by_cases h : o₁.Seen
  · rw [if_neg h, if_neg (hs.mp h)]
    have hsame : SameRequest ⟨mac, o₁.msgType, o₁.reqIpAddr, o₁.serverId, xid⟩
        ⟨mac, o₂.msgType, o₂.reqIpAddr, o₂.serverId, xid⟩ := ⟨rfl, rfl, ht h, hr h, hi h⟩
    exact dhcpsHandle_same hsame s pbufAlloc
  · rw [if_pos (not_not.mp h), if_pos (not_not.mp (mt hs.mpr h))]

theorem serve_isSome (mac : Mac) (xid : UInt32) (s : DhcpServer) (o : DhcpOptions) :
    (serveOptions s mac xid o true).2.isSome = true ↔ o.Speaks := by
  unfold serveOptions DhcpOptions.Speaks
  by_cases h : o.Seen
  · rw [if_neg h, handle_isSome]; simp [h]
  · rw [if_pos (not_not.mp h)]; simp [h]

theorem alike_speaks (h : Alike mac xid o₁ o₂) : o₁.Speaks ↔ o₂.Speaks := by
  rw [← serve_isSome mac xid bootServer o₁, h bootServer true, serve_isSome]

variable (h₁ : o₁.Seen) (h₂ : o₂.Seen) (ht : o₁.msgType = o₂.msgType)
include h₁ h₂ ht

/-- A server of which every entry has the first address acknowledges the one request
and refuses the other. -/
theorem not_alike_refused (hd : o₁.msgType = dhcpMsgRequest)
    (hno : ¬ ((o₂.serverId = 0 ∨ o₂.serverId = o₁.serverId) ∧ o₂.reqIpAddr = o₁.reqIpAddr)) :
    ¬ Alike mac xid o₁ o₂ := by
  intro ha
  have := congrArg (fun r => r.2.map DhcpReply.msgType)
    (ha (idleServer o₁.serverId o₁.reqIpAddr o₁.reqIpAddr) true)
  unfold serveOptions at this
  rw [if_neg h₁, if_neg h₂, ← ht, hd] at this
  rw [request_idle (idleServer_idle _ _ _), request_idle (idleServer_idle _ _ _),
    if_pos ⟨.inr rfl, idleServer_first _ _ _⟩, if_neg] at this
  · exact absurd (Option.some.inj this) (by decide)
  · rintro ⟨h, i, hi⟩
    refine hno ⟨h.imp_right Eq.symm, ?_⟩
    simpa only [idleServer, ite_self, eq_comm] using hi

theorem not_alike_req (hd : o₁.msgType = dhcpMsgDiscover ∨ o₁.msgType = dhcpMsgRequest)
    (hr : o₁.reqIpAddr ≠ o₂.reqIpAddr) : ¬ Alike mac xid o₁ o₂ := by
  rcases hd with hd | hd
  · intro ha
    -- one entry has the first address and the others the second
    have := congrArg (fun r => r.2.map DhcpReply.yiaddr)
      (ha (idleServer 0 o₁.reqIpAddr o₂.reqIpAddr) true)
    unfold serveOptions at this
    rw [if_neg h₁, if_neg h₂, ← ht, hd] at this
    rw [discover_idle (idleServer_idle _ _ _) (idleServer_first _ _ _),
      discover_idle (idleServer_idle _ _ _) (idleServer_rest _ _ _)] at this
    exact hr (Option.some.inj this)
  · exact not_alike_refused h₁ h₂ ht hd fun h => hr h.2.symm

theorem not_alike_sid (hd : o₁.msgType = dhcpMsgRequest)
    (h0 : o₂.serverId ≠ 0) (hi : o₁.serverId ≠ o₂.serverId) : ¬ Alike mac xid o₁ o₂ :=
  not_alike_refused h₁ h₂ ht hd fun h => h.1.elim h0 fun h => hi h.symm

end

/-! ## The end of the walk -/

section
variable {b : Mem} {n : Nat}

/-- A word with a left-over byte differs in two twins, and is zero in neither. -/
theorem word_differs {a : Nat} (hn : n < dhcpMsgSize) (ha : wordKnown n a = false) :
    ∃ k, n ≤ k ∧ k < dhcpMsgSize ∧ ∀ m : Mem,
      wordAt (store8 m k 1) a ≠ wordAt (store8 m k 2) a ∧ wordAt (store8 m k 2) a ≠ 0 := by
  have ha : ¬ (a + 4 ≤ n ∨ dhcpMsgSize ≤ a) := by
    simpa only [wordKnown, decide_eq_false_iff_not] using ha
  refine ⟨max a n, by omega, by omega, fun m => ?_⟩
  have hk : max a n = a ∨ max a n = a + 1 ∨ max a n = a + 2 ∨ max a n = a + 3 := by omega
  generalize max a n = k at hk
  have h1 := load32_lt (store8 m k 1) a
  have h2 := load32_lt (store8 m k 2) a
  have hb : ∀ v : UInt8, load32 (store8 m k v) a =
      load32 (store8 m k 0) a + v.toNat * 256 ^ (k - a) := by
    intro v
    unfold load32 store8
    rcases hk with rfl | rfl | rfl | rfl <;> simp <;> omega
  have hpos : 0 < 256 ^ (k - a) := Nat.pow_pos (by decide)
  have e1 := hb 1
  have e2 := hb 2
  simp only [UInt8.reduceToNat] at e1 e2
  have hw : ∀ v : UInt8, (wordAt (store8 m k v) a).toNat = load32 (store8 m k v) a := fun v =>
    UInt32.toNat_ofNat_of_lt' (load32_lt _ _)
  constructor
  · intro he
    have := congrArg UInt32.toNat he
    rw [hw, hw] at this
    omega
  · intro he
    have := congrArg UInt32.toNat he
    rw [hw, UInt32.toNat_zero] at this
    omega

theorem twin_store (m : Mem) (hm : Ext b n m) {k : Nat} (h : n ≤ k) (hk : k < dhcpMsgSize) (v v' : UInt8) :
    Twin b n (store8 m k v) (store8 m k v') := by
  refine ⟨fun x hx => ?_, fun x hx => ?_, fun x hx => ?_⟩
  · rw [store8_other (by omega)]; exact hm x hx
  · rw [store8_other (by omega)]; exact hm x hx
  · rw [store8_other (by omega), store8_other (by omega)]

variable (mac : Mac) (xid : UInt32) {w : Known} {o : Mem → DhcpOptions}

theorem left_differs (hn : n < dhcpMsgSize) {m : Mem} (hm : Ext b n m) {p : Mem → DhcpOptions}
    (hs : ∀ m', Ext b n m' → (p m').Seen) (hreq : TracksWord b n w.req fun m => (p m).reqIpAddr)
    (hsid : TracksWord b n w.sid fun m => (p m).serverId) {t : UInt8}
    (ht : ∀ k v, n ≤ k → k < dhcpMsgSize → (p (store8 m k v)).msgType = t)
    (hw : (t = dhcpMsgDiscover ∨ t = dhcpMsgRequest) ∧ w.req = false ∨
      t = dhcpMsgRequest ∧ w.sid = false) :
    ∃ m₁ m₂, Twin b n m₁ m₂ ∧ ¬ Alike mac xid (p m₁) (p m₂) := by
  rcases hw with ⟨hd, hw⟩ | ⟨hd, hw⟩
  · obtain ⟨a, ha, hpa⟩ := hreq.left hw
    obtain ⟨k, hk1, hk2, hk⟩ := word_differs hn ha
    have htw := twin_store m hm hk1 hk2 1 2
    refine ⟨_, _, htw, not_alike_req (hs _ htw.left) (hs _ htw.right) ?_ ?_ ?_⟩
    · rw [ht k 1 hk1 hk2, ht k 2 hk1 hk2]
    · rw [ht k 1 hk1 hk2]; exact hd
    · rw [hpa _ htw.left, hpa _ htw.right]; exact (hk m).1
  · obtain ⟨a, ha, hpa⟩ := hsid.left hw
    obtain ⟨k, hk1, hk2, hk⟩ := word_differs hn ha
    have htw := twin_store m hm hk1 hk2 1 2
    refine ⟨_, _, htw, not_alike_sid (hs _ htw.left) (hs _ htw.right) ?_ ?_ ?_ ?_⟩
    · rw [ht k 1 hk1 hk2, ht k 2 hk1 hk2]
    · rw [ht k 1 hk1 hk2]; exact hd
    · rw [hpa _ htw.right]; exact (hk m).2
    · rw [hpa _ htw.left, hpa _ htw.right]; exact (hk m).1

theorem ok_iff (h : Tracks b n w o) (hn : n < dhcpMsgSize) :
    w.ok ↔ ∀ m₁ m₂, Twin b n m₁ m₂ → Alike mac xid (o m₁) (o m₂) := by
  constructor
  · intro hok m₁ m₂ hm
    have hseen := (h.seen _ hm.left).trans (h.seen _ hm.right).symm
    have htype : (o m₁).Seen → ∃ t, w.msgType = some t ∧ (o m₁).msgType = t ∧ (o m₂).msgType = t := by
      intro hs
      obtain ⟨t, ht⟩ := Option.ne_none_iff_exists'.mp ((h.seen _ hm.left).mp hs)
      exact ⟨t, ht, h.msgType _ hm.left t ht, h.msgType _ hm.right t ht⟩
    refine alike_of_same hseen (fun hs => ?_) (fun hs hd => ?_) (fun hs hd => ?_)
    · obtain ⟨t, -, h1, h2⟩ := htype hs
      rw [h1, h2]
    · obtain ⟨t, ht, h1, -⟩ := htype hs
      rw [h1] at hd
      exact h.req.same ((hok t ht).1 hd) m₁ m₂ hm
    · obtain ⟨t, ht, h1, -⟩ := htype hs
      rw [h1] at hd
      exact h.sid.same ((hok t ht).2 hd) m₁ m₂ hm
  · intro hal t ht
    by_contra hc
    have hw : (t = dhcpMsgDiscover ∨ t = dhcpMsgRequest) ∧ w.req = false ∨
        t = dhcpMsgRequest ∧ w.sid = false := by
      by_cases h1 : (t = dhcpMsgDiscover ∨ t = dhcpMsgRequest) → w.req = true
      · have h2 : ¬ (t = dhcpMsgRequest → w.sid = true) := fun h2 => hc ⟨h1, h2⟩
        push Not at h2
        exact .inr ⟨h2.1, by simpa using h2.2⟩
      · push Not at h1
        exact .inl ⟨h1.1, by simpa using h1.2⟩
    have hs : ∀ m', Ext b n m' → (o m').Seen := fun m' hm' => (h.seen m' hm').mpr (by rw [ht]; nofun)
    obtain ⟨m₁, m₂, hm, hna⟩ := left_differs mac xid hn (m := b) (fun _ _ => rfl) hs
      h.req h.sid (fun k v h1 h2 => h.msgType _ (twin_store b (fun _ _ => rfl) h1 h2 v v).left t ht) hw
    exact hna (hal m₁ m₂ hm)

theorem ok_last (h : Tracks b n w o) (hn : n < dhcpMsgSize) {p : Nat} (hp : p + 1 = n)
    (hend : dhcpMsgSize ≤ p + 2) :
    (if b p = dhcpOptionMsgType then w.req = true ∧ w.sid = true else (w.see b n p).ok) ↔
      ∀ m₁ m₂, Twin b n m₁ m₂ →
        Alike mac xid (parseOption m₁ p (o m₁)) (parseOption m₂ p (o m₂)) := by
  by_cases ht : b p = dhcpOptionMsgType
  · rw [if_pos ht]
    have hcode : ∀ m, Ext b n m → m p = dhcpOptionMsgType := fun m hm => (hm p (by omega)).trans ht
    have hseen : ∀ m, Ext b n m → (parseOption m p (o m)).Seen := fun m hm =>
      (parseOption_seen m p (o m)).mpr (.inl (hcode m hm))
    have htype : ∀ m, Ext b n m → (parseOption m p (o m)).msgType = m (p + 2) := fun m hm => by
      rw [parseOption_msgType, if_pos (hcode m hm)]
    have hreq : TracksWord b n w.req fun m => (parseOption m p (o m)).reqIpAddr :=
      tracksWord_congr h.req fun m hm => by
        rw [parseOption_req, if_neg (by rw [hcode m hm]; decide)]
    have hsid : TracksWord b n w.sid fun m => (parseOption m p (o m)).serverId :=
      tracksWord_congr h.sid fun m hm => by
        rw [parseOption_sid, if_neg (by rw [hcode m hm]; decide)]
    constructor
    · rintro ⟨hr, hi⟩ m₁ m₂ hm
      refine alike_of_same (iff_of_true (hseen _ hm.left) (hseen _ hm.right)) (fun _ => ?_)
        (fun _ _ => hreq.same hr m₁ m₂ hm) (fun _ _ => hsid.same hi m₁ m₂ hm)
      rw [htype _ hm.left, htype _ hm.right, hm.behind _ hend]
    · intro hal
      by_contra hc
      have hw : (dhcpMsgRequest = dhcpMsgDiscover ∨ dhcpMsgRequest = dhcpMsgRequest) ∧ w.req = false ∨
          dhcpMsgRequest = dhcpMsgRequest ∧ w.sid = false := by
        cases hr : w.req with
        | false => exact .inl ⟨.inr rfl, rfl⟩
        | true => exact .inr ⟨rfl, by simpa [hr] using hc⟩
      -- a request whose type lies behind the buffer
      have hm : Ext b n (store8 b (p + 2) dhcpMsgRequest) := fun x hx => store8_other (by omega)
      obtain ⟨m₁, m₂, hm, hna⟩ := left_differs mac xid hn hm hseen hreq hsid
        (fun k v h1 h2 => by
          rw [htype _ (twin_store _ hm h1 h2 v v).left, store8_other (by omega), store8_self]) hw
      exact hna (hal m₁ m₂ hm)
  · rw [if_neg ht]
    exact ok_iff mac xid (tracks_see h (by omega) fun hc => absurd hc ht) hn

end

/-! ## Leftovers that the walk comes to -/

section
variable {m : Mem} {p : Nat}

theorem loop_stop (h : m p = dhcpOptionEnd ∨ dhcpMsgSize ≤ p) (fuel : Nat) (o : DhcpOptions) :
    optionsLoop m fuel p o = o := by
  rcases h with h | h
  · cases fuel with
    | zero => rfl
    | succ fuel => exact if_neg fun hc => hc.1 h
  · exact optionsLoop_end h fuel o

theorem loop_pad (h : m p = dhcpOptionPad) (hp : p < dhcpMsgSize) (fuel : Nat) (o : DhcpOptions) :
    optionsLoop m (fuel + 1) p o = optionsLoop m fuel (p + 1) o := by
  have he : m p ≠ dhcpOptionEnd := by rw [h]; decide
  simp only [optionsLoop]
  rw [if_pos ⟨he, hp⟩, if_pos h]

theorem loop_option (h0 : m p ≠ dhcpOptionPad) (h1 : m p ≠ dhcpOptionEnd) (hp : p < dhcpMsgSize)
    (fuel : Nat) (o : DhcpOptions) : optionsLoop m (fuel + 1) p o =
      optionsLoop m fuel (p + 2 + (m (p + 1)).toNat) (parseOption m p o) := by
  simp only [optionsLoop]
  rw [if_pos ⟨h1, hp⟩, if_neg h0]

end

/-- At `p` an option `c` of the one byte `x`, and the end. -/
def codeMem (b : Mem) (p : Nat) (x c : UInt8) : Mem := blit b p [c, 1, x, dhcpOptionEnd]

/-- From `n` on `x`, and nothing that is an option of interest, whatever the
length `x` stands for. -/
def typeMem (b : Mem) (n : Nat) (x : UInt8) : Mem := fun k =>
  if k < n then b k else if k = n then x else if k = n + 1 then dhcpOptionPad else dhcpOptionEnd

section
variable {b : Mem} {n p : Nat}

theorem codeMem_at (b : Mem) (p : Nat) (x c : UInt8) {k : Nat} (hk : k < 4) :
    codeMem b p x c (p + k) = [c, 1, x, dhcpOptionEnd].getD k 0 := by
  rw [codeMem, blit_at (by omega) (by simp only [List.length_cons, List.length_nil]; omega), Nat.add_sub_cancel_left]

theorem codeMem_twin (hp : n ≤ p) (hp' : p < dhcpMsgSize) (x c c' : UInt8) :
    Twin b n (codeMem b p x c) (codeMem b p x c') where
  left k hk := blit_before (by omega)
  right k hk := blit_before (by omega)
  behind k hk := by
    by_cases hk4 : k < p + 4
    · obtain ⟨j, rfl⟩ : ∃ j, k = p + (j + 1) := ⟨k - p - 1, by omega⟩
      rw [codeMem_at b p x c (by omega), codeMem_at b p x c' (by omega)]
      rfl
    · simp only [codeMem, blit]
      rw [if_neg (by simp only [List.length_cons, List.length_nil]; omega),
        if_neg (by simp only [List.length_cons, List.length_nil]; omega)]

theorem typeMem_self (b : Mem) (n : Nat) (x : UInt8) : typeMem b n x n = x := by simp [typeMem]

theorem typeMem_pad (b : Mem) (n : Nat) (x : UInt8) : typeMem b n x (n + 1) = dhcpOptionPad := by simp [typeMem]

theorem typeMem_end (b : Mem) (x : UInt8) {k : Nat} (hk : n + 2 ≤ k) : typeMem b n x k = dhcpOptionEnd := by
  rw [typeMem, if_neg (by omega), if_neg (by omega), if_neg (by omega)]

theorem typeMem_twin (hn : n < dhcpMsgSize) (x x' : UInt8) : Twin b n (typeMem b n x) (typeMem b n x') where
  left _ hk := if_pos hk
  right _ hk := if_pos hk
  behind k hk := by
    unfold typeMem
    rw [if_neg (show ¬ k < n by omega), if_neg (show ¬ k = n by omega), if_neg (show ¬ k < n by omega),
      if_neg (show ¬ k = n by omega)]

theorem typeMem_skip (b : Mem) (n : Nat) (x : UInt8) (fuel : Nat) (o : DhcpOptions) :
    optionsLoop (typeMem b n x) fuel (n + 1) o = o := by
  by_cases hend : dhcpMsgSize ≤ n + 1
  · exact optionsLoop_end hend fuel o
  cases fuel with
  | zero => rfl
  | succ fuel => rw [loop_pad (typeMem_pad b n x) (by omega), loop_stop (.inl (typeMem_end b x (by omega)))]

/-- `x` is no option of interest either, where the length is 0. -/
theorem typeMem_rest (hn : n < dhcpMsgSize) {x : UInt8} (hx : x = dhcpMsgDiscover ∨ x = dhcpMsgRelease)
    (fuel len : Nat) (o : DhcpOptions) : optionsLoop (typeMem b n x) fuel (n + len) o = o := by
  match len with
  | 0 =>
    cases fuel with
    | zero => rfl
    | succ fuel =>
      have hcode : ∀ c, c ≠ dhcpMsgDiscover → c ≠ dhcpMsgRelease → typeMem b n x n ≠ c := fun c h1 h2 e => by
        rw [typeMem_self] at e
        rcases hx with hx | hx
        · exact h1 (e.symm.trans hx)
        · exact h2 (e.symm.trans hx)
      have hpar : parseOption (typeMem b n x) n o = o := by
        unfold parseOption
        rw [if_neg (hcode _ (by decide) (by decide)), if_neg (hcode _ (by decide) (by decide)),
          if_neg (hcode _ (by decide) (by decide))]
      change optionsLoop (typeMem b n x) (fuel + 1) n o = o
      rw [loop_option (hcode dhcpOptionPad (by decide) (by decide))
        (hcode dhcpOptionEnd (by decide) (by decide)) hn, typeMem_pad, hpar]
      exact loop_stop (.inl (typeMem_end b x (by omega))) fuel o
  | 1 => exact typeMem_skip b n x fuel o
  | len + 2 => exact loop_stop (.inl (typeMem_end b x (by omega))) fuel o

end

section
variable (mac : Mac) (xid : UInt32) {b : Mem} {n : Nat} {o : Mem → DhcpOptions}

theorem leftover_code (fuel : Nat) {p : Nat} (hp : n ≤ p) (hp' : p < dhcpMsgSize) (hf : dhcpMsgSize ≤ p + fuel)
    {S : Prop} (hS : ∀ m, Ext b n m → ((o m).Speaks ↔ S)) : ∃ m₁ m₂, Twin b n m₁ m₂ ∧
      ¬ Alike mac xid (optionsLoop m₁ fuel p (o m₁)) (optionsLoop m₂ fuel p (o m₂)) := by
  -- a type that is answered just when the options so far are not
  obtain ⟨x, hx⟩ : ∃ x, ¬ Silent x ↔ ¬ S := by
    by_cases h : S
    · exact ⟨dhcpMsgRelease, iff_of_false (not_not.mpr (.inl rfl)) (not_not.mpr h)⟩
    · exact ⟨dhcpMsgDiscover, iff_of_true (by unfold Silent; decide) h⟩
  obtain ⟨fuel, rfl⟩ : ∃ f, fuel = f + 1 := ⟨fuel - 1, by omega⟩
  have htwin := codeMem_twin (b := b) hp hp' x dhcpOptionEnd dhcpOptionMsgType
  have hat := codeMem_at b p x
  generalize codeMem b p x = mm at htwin hat
  have h0 : ∀ c, mm c p = c := fun c => hat c (k := 0) (by decide)
  refine ⟨_, _, htwin, fun ha => ?_⟩
  have hstop : ((optionsLoop (mm dhcpOptionEnd) (fuel + 1) p (o (mm dhcpOptionEnd))).Speaks ↔ S) := by
    rw [loop_stop (.inl (h0 _))]
    exact hS _ htwin.left
  have htype : ((optionsLoop (mm dhcpOptionMsgType) (fuel + 1) p (o (mm dhcpOptionMsgType))).Speaks ↔
      ¬ Silent x) := by
    have hc := h0 dhcpOptionMsgType
    have hnext : p + 2 + (mm dhcpOptionMsgType (p + 1)).toNat = p + 3 := by
      rw [hat _ (k := 1) (by decide)]
      rfl
    have hval : mm dhcpOptionMsgType (p + 2) = x := hat _ (k := 2) (by decide)
    have hend : mm dhcpOptionMsgType (p + 3) = dhcpOptionEnd := hat _ (k := 3) (by decide)
    rw [loop_option (by rw [hc]; decide) (by rw [hc]; decide) hp', hnext, loop_stop (.inl hend)]
    unfold DhcpOptions.Speaks
    rw [parseOption_seen, parseOption_msgType, if_pos hc, hval]
    exact and_iff_right (.inl hc)
  have hs := alike_speaks ha
  rw [hstop, htype, hx] at hs
  exact iff_not_self hs

theorem leftover_type (fuel : Nat) {p : Nat} (hp : p + 2 = n) (hn : n < dhcpMsgSize)
    (ht : b p = dhcpOptionMsgType) : ∃ m₁ m₂, Twin b n m₁ m₂ ∧
      ¬ Alike mac xid (optionsLoop m₁ (fuel + 1) p (o m₁)) (optionsLoop m₂ (fuel + 1) p (o m₂)) := by
  have htwin := typeMem_twin (b := b) hn dhcpMsgDiscover dhcpMsgRelease
  have hval : ∀ x, x = dhcpMsgDiscover ∨ x = dhcpMsgRelease →
      ((optionsLoop (typeMem b n x) (fuel + 1) p (o (typeMem b n x))).Speaks ↔ ¬ Silent x) := by
    intro x hx
    have hpn : p < n := by omega
    have hc : typeMem b n x p = dhcpOptionMsgType := (if_pos hpn).trans ht
    rw [loop_option (by rw [hc]; decide) (by rw [hc]; decide) (by omega), hp, typeMem_rest hn hx]
    unfold DhcpOptions.Speaks
    rw [parseOption_seen, parseOption_msgType, if_pos hc, hp, typeMem_self]
    exact and_iff_right (.inl hc)
  refine ⟨_, _, htwin, fun ha => ?_⟩
  have hs := alike_speaks ha
  rw [hval _ (.inl rfl), hval _ (.inr rfl)] at hs
  exact hs.mp (by unfold Silent; decide) (.inl rfl)

theorem leftover_length {fuel p : Nat} (hp : p + 1 = n) (hn : p + 2 < dhcpMsgSize)
    (hf : dhcpMsgSize ≤ p + (fuel + 1)) (h0 : b p ≠ dhcpOptionPad) (h1 : b p ≠ dhcpOptionEnd) {S : Prop}
    (hS : ∀ m, Ext b n m → ((o m).Speaks ↔ S)) : ∃ m₁ m₂, Twin b n m₁ m₂ ∧
      ¬ Alike mac xid (optionsLoop m₁ (fuel + 1) p (o m₁)) (optionsLoop m₂ (fuel + 1) p (o m₂)) := by
  -- as if a length of 0 had been received
  have hext : ∀ m, Ext (store8 b n 0) (n + 1) m → Ext b n m := fun m hm k hk => by
    rw [hm k (by omega), store8_other (by omega)]
  have hmono : ∀ m₁ m₂, Twin (store8 b n 0) (n + 1) m₁ m₂ → Twin b n m₁ m₂ := fun m₁ m₂ hm =>
    ⟨hext _ hm.left, hext _ hm.right, hm.behind⟩
  by_cases ht : b p = dhcpOptionMsgType
  · obtain ⟨m₁, m₂, hm, hna⟩ := leftover_type mac xid (b := store8 b n 0) (n := n + 1)
      (o := o) fuel (p := p) (by omega) (by omega) (by rw [store8_other (by omega)]; exact ht)
    exact ⟨m₁, m₂, hmono _ _ hm, hna⟩
  · have hS' : ∀ m, Ext (store8 b n 0) (n + 1) m → ((parseOption m p (o m)).Speaks ↔ S) := by
      intro m hm
      have hc : ¬ m p = dhcpOptionMsgType := by rw [hext m hm p (by omega)]; exact ht
      rw [← hS m (hext m hm)]
      unfold DhcpOptions.Speaks
      rw [parseOption_seen, parseOption_msgType, if_neg hc, or_iff_right hc]
    obtain ⟨m₁, m₂, hm, hna⟩ := leftover_code mac xid (b := store8 b n 0) (n := n + 1)
      (o := fun m => parseOption m p (o m)) fuel (p := n + 1) (Nat.le_refl _) (by omega) (by omega) hS'
    have hloop : ∀ m, Ext (store8 b n 0) (n + 1) m →
        optionsLoop m (fuel + 1) p (o m) = optionsLoop m fuel (n + 1) (parseOption m p (o m)) := by
      intro m hm
      have hc := hext m hm p (by omega)
      have hlen : m (p + 1) = 0 := by rw [hp, hm n (by omega), store8_self]
      rw [loop_option (by rw [hc]; exact h0) (by rw [hc]; exact h1) (by omega), hlen, ← hp]
      rfl
    refine ⟨m₁, m₂, hmono _ _ hm, ?_⟩
    rw [hloop m₁ hm.left, hloop m₂ hm.right]
    exact hna

theorem tracks_speaks {w : Known} (h : Tracks b n w o) (m : Mem) (hm : Ext b n m) :
    (o m).Speaks ↔ ∃ t, w.msgType = some t ∧ ¬ Silent t := by
  unfold DhcpOptions.Speaks
  rw [h.seen m hm]
  cases ht : w.msgType with
  | none => simp
  | some t => rw [h.msgType m hm t ht]; simp

/-- The walk, from any option on. -/
theorem settledLoop_iff (hn : n < dhcpMsgSize) {fuel p : Nat} {w : Known} (h : Tracks b n w o)
    (hf : dhcpMsgSize ≤ p + fuel) : settledLoop b n fuel p w ↔ ∀ m₁ m₂, Twin b n m₁ m₂ →
      Alike mac xid (optionsLoop m₁ fuel p (o m₁)) (optionsLoop m₂ fuel p (o m₂)) := by
  induction fuel generalizing p w o with
  | zero => exact ok_iff mac xid h hn
  | succ fuel ih =>
    have hfalse : (∃ m₁ m₂, Twin b n m₁ m₂ ∧ ¬ Alike mac xid (optionsLoop m₁ (fuel + 1) p (o m₁))
        (optionsLoop m₂ (fuel + 1) p (o m₂))) → (False ↔ ∀ m₁ m₂, Twin b n m₁ m₂ →
          Alike mac xid (optionsLoop m₁ (fuel + 1) p (o m₁)) (optionsLoop m₂ (fuel + 1) p (o m₂))) := by
      rintro ⟨m₁, m₂, hm, hna⟩
      exact iff_of_false id fun hal => hna (hal m₁ m₂ hm)
    unfold settledLoop
    by_cases hend : dhcpMsgSize ≤ p
    · rw [if_pos hend]
      simp only [optionsLoop_end hend]
      exact ok_iff mac xid h hn
    rw [if_neg hend]
    by_cases hp : n ≤ p
    · rw [if_pos hp]
      exact hfalse (leftover_code mac xid (fuel + 1) hp (by omega) hf (tracks_speaks h))
    rw [if_neg hp]
    have hcode : ∀ m, Ext b n m → m p = b p := fun m hm => hm p (by omega)
    by_cases hstop : b p = dhcpOptionEnd
    · rw [if_pos hstop, ok_iff mac xid h hn]
      refine forall₂_congr fun m₁ m₂ => forall_congr' fun hm => ?_
      rw [loop_stop (.inl ((hcode m₁ hm.left).trans hstop)), loop_stop (.inl ((hcode m₂ hm.right).trans hstop))]
    rw [if_neg hstop]
    by_cases hpad : b p = dhcpOptionPad
    · rw [if_pos hpad, ih (p := p + 1) h (by omega)]
      refine forall₂_congr fun m₁ m₂ => forall_congr' fun hm => ?_
      rw [loop_pad ((hcode m₁ hm.left).trans hpad) (by omega), loop_pad ((hcode m₂ hm.right).trans hpad) (by omega)]
    rw [if_neg hpad]
    have hloop : ∀ m, Ext b n m → optionsLoop m (fuel + 1) p (o m) =
        optionsLoop m fuel (p + 2 + (m (p + 1)).toNat) (parseOption m p (o m)) := fun m hm =>
      loop_option (by rw [hcode m hm]; exact hpad) (by rw [hcode m hm]; exact hstop) (by omega) _ _
    by_cases hlen : p + 1 < n
    · rw [if_pos hlen]
      by_cases ht : b p = dhcpOptionMsgType ∧ n ≤ p + 2
      · rw [if_pos ht]
        exact hfalse (leftover_type mac xid fuel (by omega) hn ht.1)
      · rw [if_neg ht]
        have hsee := tracks_see h (p := p) (by omega) fun hc => by
          have := not_and.mp ht hc
          omega
        rw [ih (p := p + 2 + (b (p + 1)).toNat) hsee (by omega)]
        refine forall₂_congr fun m₁ m₂ => forall_congr' fun hm => ?_
        rw [hloop m₁ hm.left, hloop m₂ hm.right, hm.left _ hlen, hm.right _ hlen]
    · rw [if_neg hlen]
      by_cases hroom : dhcpMsgSize ≤ p + 2
      · rw [ok_last mac xid h hn (by omega) hroom]
        refine (and_iff_right hroom).trans (forall₂_congr fun m₁ m₂ => forall_congr' fun hm => ?_)
        rw [hloop m₁ hm.left, hloop m₂ hm.right, optionsLoop_end (by omega), optionsLoop_end (by omega)]
      · refine Iff.trans (iff_of_false (fun hc => hroom hc.1) id) (hfalse ?_)
        exact leftover_length mac xid (by omega) (by omega) hf hpad hstop (tracks_speaks h)

end

end GizwitsSdk
