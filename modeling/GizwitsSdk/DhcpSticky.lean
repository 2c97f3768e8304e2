import GizwitsSdk.DhcpHistory
import GizwitsSdk.DhcpOffer

/-!
# A client gets its address again

A client that was bound to an address leaves its hardware address in the entry,
whichever way the binding ends, and a `DISCOVER` without an address finds that
entry. The entry forgets the client when it negotiates for the address once
more and nothing comes of it.
-/

namespace GizwitsSdk

open Lib

def BoundTo (s : DhcpServer) (mac : Mac) (a : UInt32) : Prop :=
  ∃ i, (s.clients i).state = .bind ∧ (s.clients i).macAddr = mac ∧ (s.clients i).ipAddr = a

def BoundOnlyTo (s : DhcpServer) (mac : Mac) (a : UInt32) : Prop :=
  ∀ i, (s.clients i).state = .bind → (s.clients i).macAddr = mac → (s.clients i).ipAddr = a

/-- Another client is offered the address, or bound to it. -/
def GivenAway (mac : Mac) (a : UInt32) (s : DhcpServer) : DhcpEvent → Prop
  | .message m _ => m.mac ≠ mac ∧ ∃ i, servedEntry s m = some i ∧ (s.clients i).ipAddr = a
  | .tick _ => False
  | .clientDelete _ => False

/-- Since its binding ended the address was not given away, and the client is not
bound to another one. -/
structure LeftAlone (mac : Mac) (a : UInt32) (s : DhcpServer) (e : DhcpEvent) : Prop where
  away : ¬ BoundTo s mac a → ¬ GivenAway mac a s e
  only : BoundOnlyTo (dhcpStep s e) mac a

/-- The client has the address, and gives it up; or its offer of it runs out. -/
def Lapses (mac : Mac) (a : UInt32) (s : DhcpServer) : DhcpEvent → Prop
  | .message m _ => m.mac = mac ∧ ∃ j, GivesUp s m j ∧ (s.clients j).ipAddr = a
  | .tick _ => s.enable = true ∧ ∃ j, (s.clients j).state = .request ∧ (s.clients j).timeout = 1 ∧
      (s.clients j).macAddr = mac ∧ (s.clients j).ipAddr = a
  | .clientDelete _ => False

/-- The client has an offer of another address. -/
def Elsewhere (s : DhcpServer) (mac : Mac) (a : UInt32) : Prop :=
  ∃ i, (s.clients i).state = .request ∧ (s.clients i).macAddr = mac ∧ (s.clients i).ipAddr ≠ a

/-- A `DISCOVER` without an address is answered with an `OFFER` of `a`. -/
def OfferedAgain (s : DhcpServer) (mac : Mac) (a : UInt32) : Prop :=
  ∀ serverId xid, ∃ r, (dhcpsHandle s ⟨mac, dhcpMsgDiscover, 0, serverId, xid⟩ true).2 = some r ∧
    r.msgType = dhcpMsgOffer ∧ r.yiaddr = a ∧ r.chaddr = mac

section
variable (s : DhcpServer) (mac : Mac) (a : UInt32)

instance : Decidable (BoundTo s mac a) := inferInstanceAs (Decidable (∃ _, _))

instance : Decidable (BoundOnlyTo s mac a) := inferInstanceAs (Decidable (∀ _, _))

instance : ∀ e, Decidable (GivenAway mac a s e)
  | .message _ _ => inferInstanceAs (Decidable (_ ∧ _))
  | .tick _ => instDecidableFalse
  | .clientDelete _ => instDecidableFalse

instance (e : DhcpEvent) : Decidable (LeftAlone mac a s e) :=
  decidable_of_iff ((¬ BoundTo s mac a → ¬ GivenAway mac a s e) ∧ BoundOnlyTo (dhcpStep s e) mac a)
    ⟨fun h => ⟨h.1, h.2⟩, fun h => ⟨h.1, h.2⟩⟩

instance : ∀ e, Decidable (Lapses mac a s e)
  | .message _ _ => inferInstanceAs (Decidable (_ ∧ _))
  | .tick _ => inferInstanceAs (Decidable (_ ∧ _))
  | .clientDelete _ => instDecidableFalse

instance : Decidable (Elsewhere s mac a) := inferInstanceAs (Decidable (∃ _, _))

end

/-! ## The entry of the client -/

structure Remembered (mac : Mac) (a : UInt32) (s : DhcpServer) : Prop where
  history : HistoryOk s
  nonzero : ∀ i, (s.clients i).ipAddr ≠ 0
  home : ∃ i, (s.clients i).macAddr = mac ∧ (s.clients i).ipAddr = a
  only : BoundOnlyTo s mac a

section
variable {s : DhcpServer} {mac : Mac} {a : UInt32}

theorem home_message {m : DhcpRequest} {pbufAlloc : Bool} (h : Remembered mac a s)
    (hal : LeftAlone mac a s (.message m pbufAlloc)) (hl : ¬ Lapses mac a s (.message m pbufAlloc)) :
    ∃ i, ((dhcpStep s (.message m pbufAlloc)).clients i).macAddr = mac ∧
      ((dhcpStep s (.message m pbufAlloc)).clients i).ipAddr = a := by
  have hok : MessageOk s m (dhcpStep s (.message m pbufAlloc)) := dhcpsHandle_message s m pbufAlloc
  have hip := (dhcpStep_frame s (.message m pbufAlloc)).2
  have honly := hal.only
  generalize dhcpStep s (.message m pbufAlloc) = s' at *
  by_cases hm : m.mac = mac
  · by_cases hb : ∃ i, servedEntry s m = some i ∧ (s'.clients i).state = .bind
    · obtain ⟨i, hi, hb⟩ := hb
      have hmac := (hok.served i hi).1.trans hm
      exact ⟨i, hmac, honly i hb hmac⟩
    · obtain ⟨i, hi, ha⟩ := h.home
      refine ⟨i, ?_, (hip i).trans ha⟩
      by_cases hr : servedEntry s m = some i
      · exact (hok.served i hr).1.trans hm
      · cases hok.other i hr with
        | same he => rw [he, hi]
        | kept _ _ he => rw [he, hi]
        | gaveUp hg => exact absurd ⟨hm, i, hg, ha⟩ hl
        | forgotten hb' => exact absurd hb' hb
  · -- another client leaves what is not idle alone
    have hkeep (i : Fin 8) (hi : (s.clients i).macAddr = mac) (hr : servedEntry s m ≠ some i) :
        (s'.clients i).macAddr = mac := by
      have hne : (s.clients i).macAddr ≠ m.mac := fun e => hm (e.symm.trans hi)
      cases hok.other i hr with
      | same he => rw [he, hi]
      | kept _ hm' => exact absurd hm' hne
      | gaveUp hg => exact absurd hg.2.1 hne
      | forgotten _ hm' => exact absurd hm' hne
    by_cases hb : BoundTo s mac a
    · obtain ⟨i, hbi, hi, ha⟩ := hb
      refine ⟨i, hkeep i hi fun hr => ?_, (hip i).trans ha⟩
      rcases (hok.served i hr).2.2 with hs | hs
      · rw [hbi] at hs
        cases hs
      · exact hm (hs.symm.trans hi)
    · obtain ⟨i, hi, ha⟩ := h.home
      exact ⟨i, hkeep i hi fun hr => hal.away hb ⟨hm, i, hr, ha⟩, (hip i).trans ha⟩

theorem tickClient_mac (station : Bool) (c : DhcpClient) (h : ¬ (c.state = .request ∧ c.timeout = 1)) :
    (tickClient station c).macAddr = c.macAddr := by
  unfold tickClient
  split <;> rename_i hc
  · split
    · next ht =>
      have h1 : ¬ c.timeout - 1 = 0 := fun h1 => h ⟨hc, by omega⟩
      rw [if_neg h1]
    · rfl
  · split
    · rfl
    · cases station <;> rfl
  · rfl

theorem remembered_step {e : DhcpEvent} (h : Remembered mac a s) (hal : LeftAlone mac a s e)
    (hl : ¬ Lapses mac a s e) : Remembered mac a (dhcpStep s e) := by
  have hip := (dhcpStep_frame s e).2
  refine ⟨historyOk_step h.history e, fun i => by rw [hip]; exact h.nonzero i, ?_, hal.only⟩
  cases e with
  | message m pbufAlloc => exact home_message h hal hl
  | tick station =>
    obtain ⟨i, hi, ha⟩ := h.home
    refine ⟨i, ?_, (hip i).trans ha⟩
    simp only [dhcpStep, dhcpTickHandle]
    split
    · next hen => exact (tickClient_mac _ _ fun hc => hl ⟨hen, i, hc.1, hc.2, hi, ha⟩).trans hi
    · exact hi
  | clientDelete mac' =>
    obtain ⟨i, hi, ha⟩ := h.home
    refine ⟨i, ?_, (hip i).trans ha⟩
    simp only [dhcpStep]
    rcases dhcpsClientDelete_ok s mac' with he | ⟨j, -, he⟩
    · rw [he, hi]
    · rw [he, DhcpServer.setState]
      by_cases hij : i = j
      · subst hij
        rw [setClient_self, hi]
      · rw [setClient_other _ _ _ _ hij, hi]

/-! ## The offer -/

/-- A `DISCOVER` with an idle entry `i` at hand is answered with an offer of it. -/
theorem discover_reply (xid : UInt32) {s₁ : DhcpServer} {i : Fin 8} {serverId : UInt32}
    (h : lookupSwitch s (lookupScan s.clients mac 0) dhcpMsgDiscover serverId = (s₁, some i))
    (hs : (s₁.clients i).state = .idle) :
    ∃ r, (dhcpsHandle s ⟨mac, dhcpMsgDiscover, 0, serverId, xid⟩ true).2 = some r ∧
      r.msgType = dhcpMsgOffer ∧ r.yiaddr = (s₁.clients i).ipAddr ∧ r.chaddr = mac := by
  have hidle : ((s₁.setMac i mac).clients i).state = .idle := by
    rw [DhcpServer.setMac, setClient_self]
    exact hs
  unfold dhcpsHandle clientTableLookup
  simp only [h]
  unfold dhcpClientSmeHandle
  simp only [hidle, if_true]
  refine ⟨_, rfl, rfl, ?_, ?_⟩ <;>
    simp [offerClient, dhcpOfferGen, dhcpGrantGen, DhcpServer.setState, DhcpServer.setMac]

theorem offeredAgain_of_remembered (h : Remembered mac a s) (h0 : mac ≠ zeroMac) (he : ¬ Elsewhere s mac a) :
    OfferedAgain s mac a := by
  intro serverId xid
  have hl := lookupScan_ok s.clients mac 0
  have hreq : (lookupScan s.clients mac 0).pReqClient = none := by
    by_contra hn
    obtain ⟨k, hk⟩ := Option.ne_none_iff_exists'.mp hn
    exact h.nonzero k (hl.req.some k hk).2
  obtain ⟨i, hi, ha⟩ := h.home
  cases hmy : (lookupScan s.clients mac 0).pMyClient with
  | some my =>
    obtain ⟨hs, hm⟩ := hl.my.some my hmy
    have hip : (s.clients my).ipAddr = a := by
      rcases (active_iff h.history.table).mpr hs with hs | hs
      · by_contra hne
        exact he ⟨my, hs, hm, hne⟩
      · exact h.only my hs hm
    have hsw : lookupSwitch s (lookupScan s.clients mac 0) dhcpMsgDiscover serverId =
        (s.setState my .idle, some my) := by
      unfold lookupSwitch
      simp only [hmy, hreq, if_true]
    obtain ⟨r, h1, h2, h3, h4⟩ := discover_reply xid hsw (by simp [DhcpServer.setState])
    refine ⟨r, h1, h2, h3.trans ?_, h4⟩
    simp [DhcpServer.setState, hip]
  | none =>
    have hidle : (s.clients i).state = .idle := by
      by_contra hs
      exact hl.my.none hmy i (List.mem_finRange i) ⟨hs, hi⟩
    cases hh : (lookupScan s.clients mac 0).pMyHistoryClient with
    | none => exact absurd ⟨hidle, hi⟩ (hl.myHistory.none hh i (List.mem_finRange i))
    | some k =>
      obtain ⟨hk, hkm⟩ := hl.myHistory.some k hh
      obtain rfl : k = i := h.history.idle k i hk hidle (hkm.trans hi.symm) (hkm ▸ h0)
      have hsw : lookupSwitch s (lookupScan s.clients mac 0) dhcpMsgDiscover serverId = (s, some k) := by
        unfold lookupSwitch
        simp only [hmy, hreq, hh, if_true, Option.none_or, Option.some_or]
      obtain ⟨r, h1, h2, h3, h4⟩ := discover_reply xid hsw hk
      exact ⟨r, h1, h2, h3.trans ha, h4⟩

end

/-! ## Runs -/

section
variable {s₀ s : DhcpServer} {netifIsUp udpNew : Bool} {ip netmask : UInt32}

theorem poolAddr_ne_zero (base netmask i : UInt32) : poolAddr base netmask i ≠ 0 := by
  have hhost (host : UInt32) : poolHost (htonl netmask) host i ≠ 0 := by
    unfold poolHost
    split
    · assumption
    · decide
  intro h
  unfold poolAddr at h
  rw [show (0 : UInt32) = htonl 0 from rfl, htonl_inj, ← UInt32.toNat_inj, UInt32.toNat_or, UInt32.toNat_zero,
    Nat.or_eq_zero_iff] at h
  exact hhost _ (UInt32.toNat_inj.mp h.2)

theorem dhcpsStart_nonzero (h : dhcpsStart s₀ netifIsUp ip netmask udpNew = (s, .success)) (i : Fin 8) :
    (s.clients i).ipAddr ≠ 0 := by
  unfold dhcpsStart at h
  split at h
  · cases h
  split at h
  · simp only [Prod.mk.injEq, and_true] at h
    subst h
    exact poolAddr_ne_zero _ _ _
  · cases h

theorem dhcpsStart_fresh (h : dhcpsStart s₀ netifIsUp ip netmask udpNew = (s, .success)) (i : Fin 8) :
    (s.clients i).macAddr = zeroMac := by
  unfold dhcpsStart at h
  split at h
  · cases h
  split at h
  · simp only [Prod.mk.injEq, and_true] at h
    subst h
    rfl
  · cases h

/-- **Sticky addresses**: a client that was bound to an address is offered it
again, unless it negotiated for the address once more to no avail; and no client
is remembered by two idle entries. -/
theorem sticky_addresses (h : dhcpsStart s₀ netifIsUp ip netmask udpNew = (s, .success)) {mac : Mac}
    (h0 : mac ≠ zeroMac) :
    (∀ pre post a, BoundTo (dhcpRun s pre) mac a →
      Meets dhcpStep (fun t e => LeftAlone mac a t e ∧ ¬ Lapses mac a t e) (dhcpRun s pre) post →
      ¬ Elsewhere (dhcpRun s (pre ++ post)) mac a → OfferedAgain (dhcpRun s (pre ++ post)) mac a) ∧
    ∀ es i j, ((dhcpRun s es).clients i).state = .idle → ((dhcpRun s es).clients j).state = .idle →
      ((dhcpRun s es).clients i).macAddr = mac → ((dhcpRun s es).clients j).macAddr = mac → i = j := by
  have hstart := dhcpsStart_ok h
  have hhist (es : List DhcpEvent) : HistoryOk (dhcpRun s es) := by
    refine historyOk_run ⟨hstart.1, fun i j _ _ _ hz => ?_, fun i j hb => ?_⟩ es
    · exact absurd (dhcpsStart_fresh h i) hz
    · rw [hstart.2.2 i] at hb
      cases hb
  refine ⟨fun pre post a hb hm he => ?_, fun es i j hi hj hmi hmj => ?_⟩
  · obtain ⟨i, hbi, hmi, hai⟩ := hb
    have hrem : Remembered mac a (dhcpRun s pre) := by
      refine ⟨hhist pre, fun k => ?_, ⟨i, hmi, hai⟩, fun k hbk hmk => ?_⟩
      · rw [(dhcpRun_frame s pre).2]
        exact dhcpsStart_nonzero h k
      · obtain rfl :=
          (hhist pre).table.unique k i (by rw [hbk]; decide) (by rw [hbi]; decide) (hmk.trans hmi.symm)
        exact hai
    have hrun : dhcpRun s (pre ++ post) = run dhcpStep (dhcpRun s pre) post := run_append post
    rw [hrun] at he ⊢
    have hpost :=
      Meets.preserves hrem (fun _ _ hr hok => remembered_step hr hok.1 hok.2) hm post (List.prefix_refl post)
    exact offeredAgain_of_remembered hpost h0 he
  · exact (hhist es).idle i j hi hj (hmi.trans hmj.symm) (hmi ▸ h0)

end

/-- A client that is bound to 192.168.0.3 leaves, and is offered the address when it is back. -/
theorem sticky_addresses_back :
    OfferedAgain (dhcpRun (dhcpsStart bootServer true 0x0100a8c0 0x00ffffff true).1
      ([.message ⟨Vector.replicate 6 1, dhcpMsgRequest, 0x0300a8c0, 0, 7⟩ true] ++ [.tick fun _ => false]))
      (Vector.replicate 6 1) 0x0300a8c0 :=
  (@sticky_addresses bootServer _ true true 0x0100a8c0 0x00ffffff rfl (Vector.replicate 6 1) (by decide)).1 _ _ _
    (by decide +kernel) (by decide +kernel) (by decide +kernel)

/-- The client comes back, is offered 192.168.0.3 and does not ask for it within
the ten ticks of the offer: the next offer is 192.168.0.2. -/
theorem lapsed_offer_moves :
    ¬ ∀ (s₀ s : DhcpServer) (netifIsUp udpNew : Bool) (ip netmask : UInt32),
      dhcpsStart s₀ netifIsUp ip netmask udpNew = (s, .success) → ∀ mac : Mac, mac ≠ zeroMac →
        ∀ pre post a, BoundTo (dhcpRun s pre) mac a →
          Meets dhcpStep (fun t e => LeftAlone mac a t e) (dhcpRun s pre) post →
            OfferedAgain (dhcpRun s (pre ++ post)) mac a := by
  intro h
  have ho := h bootServer _ true true 0x0100a8c0 0x00ffffff rfl (Vector.replicate 6 1) (by decide)
    [.message ⟨Vector.replicate 6 1, dhcpMsgRequest, 0x0300a8c0, 0, 7⟩ true]
    ([.tick fun _ => false, .message ⟨Vector.replicate 6 1, dhcpMsgDiscover, 0, 0, 8⟩ true] ++
      List.replicate 10 (.tick fun _ => false))
    0x0300a8c0 (by decide +kernel) (by decide +kernel)
  obtain ⟨r, h1, -, h3, -⟩ := ho 0 9
  have hr := congrArg (Option.map DhcpReply.yiaddr) h1
  rw [Option.map_some, h3] at hr
  revert hr
  decide +kernel

end GizwitsSdk
