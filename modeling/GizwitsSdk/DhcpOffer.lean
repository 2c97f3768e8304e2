import GizwitsSdk.DhcpTable

/-!
# Offers are honoured

An offer makes the entry of the address wait for its client. Other clients
and deletions leave such an entry alone and each tick takes one from its
timeout, so for nine ticks the client finds it and is bound to it.
-/

namespace GizwitsSdk

/-- Entry `i` waits for client `mac` with address `a`, `k` ticks at least. -/
structure Offered (s : DhcpServer) (i : Fin 8) (mac : Mac) (a : UInt32) (k : Nat) : Prop where
  state : (s.clients i).state = .request
  mac : (s.clients i).macAddr = mac
  ip : (s.clients i).ipAddr = a
  timeout : k ≤ (s.clients i).timeout

def DhcpEvent.ticks : DhcpEvent → Nat
  | .tick _ => 1
  | _ => 0

def DhcpEvent.NotFrom (mac : Mac) : DhcpEvent → Prop
  | .message m _ => m.mac ≠ mac
  | _ => True

section
variable {s : DhcpServer} {i : Fin 8} {mac : Mac} {a : UInt32} {k : Nat}

/-! ## What every event keeps -/

theorem dhcpStep_frame (s : DhcpServer) (e : DhcpEvent) :
    (dhcpStep s e).serverIpAddr = s.serverIpAddr ∧
      ∀ j, ((dhcpStep s e).clients j).ipAddr = (s.clients j).ipAddr := by
  cases e with
  | message m pbufAlloc =>
    obtain ⟨r, ⟨h1, h2, -, -⟩, -⟩ := dhcpsHandle_ok s m pbufAlloc
    refine ⟨?_, h2⟩
    simp only [dhcpStep]; rw [h1]
  | tick station =>
    simp only [dhcpStep, dhcpTickHandle]
    split
    · exact ⟨rfl, fun j => (tickClient_ok (station j) (s.clients j)).1⟩
    · exact ⟨rfl, fun j => rfl⟩
  | clientDelete mac =>
    rcases dhcpsClientDelete_ok s mac with h | ⟨i, -, h⟩
    · simp only [dhcpStep, h, implies_true, and_self]
    · simp only [dhcpStep, h]
      refine ⟨rfl, fun j => ?_⟩
      by_cases hj : j = i
      · subst hj; simp [DhcpServer.setState]
      · rw [DhcpServer.setState, setClient_other _ _ _ _ hj]

theorem dhcpRun_frame (s : DhcpServer) (es : List DhcpEvent) :
    (dhcpRun s es).serverIpAddr = s.serverIpAddr ∧
      ∀ j, ((dhcpRun s es).clients j).ipAddr = (s.clients j).ipAddr := by
  induction es generalizing s with
  | nil => exact ⟨rfl, fun _ => rfl⟩
  | cons e es ih =>
    obtain ⟨h1, h2⟩ := dhcpStep_frame s e
    obtain ⟨h3, h4⟩ := ih (dhcpStep s e)
    exact ⟨h3.trans h1, fun j => (h4 j).trans (h2 j)⟩

/-! ## The offer -/

theorem sme_offer {msgType : UInt8} {xid : UInt32}
    (h : (dhcpClientSmeHandle s i msgType xid).2.msgType = dhcpMsgOffer) :
    Offered (dhcpClientSmeHandle s i msgType xid).1 i (s.clients i).macAddr
      (dhcpClientSmeHandle s i msgType xid).2.yiaddr dhcpDeffaultTimeout := by
  have hoffer : ∀ t : DhcpServer, Offered (offerClient t i xid).1 i (t.clients i).macAddr
      (offerClient t i xid).2.yiaddr dhcpDeffaultTimeout := fun t => by
    constructor <;> simp [offerClient, dhcpOfferGen, dhcpGrantGen]
  unfold dhcpClientSmeHandle at h ⊢
  split at h
  · split at h
    · rename_i hd
      have := hoffer (s.setState i .select)
      simpa [hd, DhcpServer.setState] using this
    · rename_i hd
      simp only [hd, if_false]
      split at h
      · cases h
      · rename_i hr
        simp only [hr, if_false]; exact hoffer s
  · exact hoffer s
  · cases h
  · cases h

theorem handle_offer {m : DhcpRequest} {pbufAlloc : Bool} {reply : DhcpReply}
    (h : (dhcpsHandle s m pbufAlloc).2 = some reply) (ht : reply.msgType = dhcpMsgOffer) :
    ∃ i, Offered (dhcpsHandle s m pbufAlloc).1 i m.mac reply.yiaddr dhcpDeffaultTimeout := by
  unfold dhcpsHandle clientTableLookup at h ⊢
  generalize lookupSwitch s (lookupScan s.clients m.mac m.reqIpAddr) m.msgType m.serverId = sw at *
  obtain ⟨s₁, r⟩ := sw
  cases r with
  | none =>
    simp only at h
    split at h
    · obtain rfl := Option.some.inj h; cases ht
    · cases h
  | some i =>
    simp only at h ⊢
    split at h
    · obtain rfl := Option.some.inj h
      have := sme_offer ht
      refine ⟨i, ?_⟩
      rwa [DhcpServer.setMac, setClient_self] at this
    · cases h

/-! ## Waiting -/

theorem offered_step {e : DhcpEvent} (h : Offered s i mac a (k + e.ticks))
    (hk : 0 < k) (he : e.NotFrom mac) : Offered (dhcpStep s e) i mac a k := by
  cases e with
  | message m pbufAlloc =>
    have hk' : k ≤ (s.clients i).timeout := h.timeout
    have hkeep : (dhcpsHandle s m pbufAlloc).1.clients i = s.clients i := by
      obtain ⟨r, ⟨-, -, hother, hserved⟩, -⟩ := dhcpsHandle_ok s m pbufAlloc
      have hne : ¬ ((s.clients i).state = .idle ∨ (s.clients i).macAddr = m.mac) := by
        rw [h.state, h.mac]
        exact not_or.mpr ⟨by decide, fun hm => he hm.symm⟩
      have hr : r ≠ some i := fun hr => hne (hserved i hr).1
      exact (hother i hr).resolve_right fun hh => hne hh.2
    constructor <;> simp only [dhcpStep, hkeep]
    · exact h.state
    · exact h.mac
    · exact h.ip
    · exact hk'
  | tick station =>
    have hk' : k + 1 ≤ (s.clients i).timeout := h.timeout
    obtain ⟨h1, h2, h3, -⟩ := h
    unfold dhcpStep dhcpTickHandle
    simp only
    split
    · have htick : tickClient (station i) (s.clients i) =
          { s.clients i with timeout := (s.clients i).timeout - 1 } := by
        unfold tickClient
        simp only [h1]
        rw [if_pos (by omega), if_neg (by omega)]
      constructor <;> simp only [htick]
      · exact h1
      · exact h2
      · exact h3
      · omega
    · exact ⟨h1, h2, h3, by omega⟩
  | clientDelete mac' =>
    have hk' : k ≤ (s.clients i).timeout := h.timeout
    obtain ⟨h1, h2, h3, -⟩ := h
    rcases dhcpsClientDelete_ok s mac' with hd | ⟨j, hj, hd⟩
    · simp only [dhcpStep, hd]; exact ⟨h1, h2, h3, hk'⟩
    · have hij : i ≠ j := fun e => by rw [e, hj] at h1; cases h1
      have hc : (s.setState j .idle).clients i = s.clients i := setClient_other s j i _ hij
      constructor <;> simp only [dhcpStep, hd, hc]
      · exact h1
      · exact h2
      · exact h3
      · exact hk'

theorem offered_run (es : List DhcpEvent)
    (h : Offered s i mac a (k + (es.map DhcpEvent.ticks).sum)) (hk : 0 < k)
    (he : ∀ e ∈ es, e.NotFrom mac) : Offered (dhcpRun s es) i mac a k := by
  induction es generalizing s with
  | nil => exact h
  | cons e es ih =>
    rw [List.map_cons, List.sum_cons] at h
    refine ih (offered_step ?_ (by omega) (he e List.mem_cons_self)) fun e' he' => he e' (List.mem_cons_of_mem _ he')
    rwa [show k + (e.ticks + (es.map DhcpEvent.ticks).sum) =
      k + (es.map DhcpEvent.ticks).sum + e.ticks by omega] at h

/-! ## The request -/

theorem lookup_offered (ht : TableOk s) (hd : ∀ j, (s.clients j).ipAddr = a → j = i)
    (h : Offered s i mac a k) : (lookupScan s.clients mac a).pMyClient = some i ∧
      (lookupScan s.clients mac a).pReqClient = none ∧
      (lookupScan s.clients mac a).ipUnavailable = false := by
  have hl := lookupScan_ok s.clients mac a
  generalize lookupScan s.clients mac a = l at *
  have hi : (s.clients i).state ≠ .idle := by rw [h.state]; decide
  refine ⟨?_, ?_, ?_⟩
  · cases hm : l.pMyClient with
    | none => exact absurd ⟨hi, h.mac⟩ (hl.my.none hm i (List.mem_finRange i))
    | some j =>
      obtain ⟨h1, h2⟩ := hl.my.some j hm
      rw [ht.unique j i h1 hi (by rw [h2, h.mac])]
  · cases hr : l.pReqClient with
    | none => rfl
    | some j =>
      obtain ⟨h1, h2⟩ := hl.req.some j hr
      rw [hd j h2] at h1
      exact absurd h1 hi
  · cases hu : l.ipUnavailable with
    | false => rfl
    | true =>
      obtain ⟨j, -, -, h2, h3⟩ := hl.taken.mp hu
      rw [hd j h3] at h2
      exact absurd h.mac h2

theorem handle_offered (ht : TableOk s) (hd : ∀ j, (s.clients j).ipAddr = a → j = i)
    (h : Offered s i mac a k) (xid : UInt32) :
    ∃ reply, (dhcpsHandle s ⟨mac, dhcpMsgRequest, a, s.serverIpAddr, xid⟩ true).2 = some reply ∧
      reply.msgType = dhcpMsgAck ∧ reply.yiaddr = a ∧
      ((dhcpsHandle s ⟨mac, dhcpMsgRequest, a, s.serverIpAddr, xid⟩ true).1.clients i).state = .bind ∧
      ((dhcpsHandle s ⟨mac, dhcpMsgRequest, a, s.serverIpAddr, xid⟩ true).1.clients i).macAddr = mac ∧
      ((dhcpsHandle s ⟨mac, dhcpMsgRequest, a, s.serverIpAddr, xid⟩ true).1.clients i).ipAddr = a := by
  obtain ⟨h1, h2, h3⟩ := lookup_offered ht hd h
  have hsw : lookupSwitch s (lookupScan s.clients mac a) dhcpMsgRequest s.serverIpAddr =
      (s, some i) := by
    unfold lookupSwitch
    simp [h1, h2, h3, dhcpMsgRequest, dhcpMsgDiscover]
  have hlook : clientTableLookup s mac dhcpMsgRequest a s.serverIpAddr =
      (s.setMac i mac, some i) := by
    unfold clientTableLookup; rw [hsw]
  have hset : (s.setMac i mac).clients i = { s.clients i with macAddr := mac } := setClient_self s i _
  have hsme : dhcpClientSmeHandle (s.setMac i mac) i dhcpMsgRequest xid =
      ackClient (s.setMac i mac) i xid := by
    unfold dhcpClientSmeHandle
    rw [hset]; simp only [h.state]
  unfold dhcpsHandle
  simp only [hlook, hsme, if_true]
  refine ⟨_, rfl, rfl, ?_, ?_⟩
  · simp only [ackClient, dhcpAckGen, dhcpGrantGen, hset, h.ip]
  · simp [ackClient, cleanClientHistory, hset, h.ip]

end

/-- **Offers are honoured.** When the pool addresses differ, the client that was
offered `a` and asks for it before ten ticks is bound to it, whatever the
others do meanwhile. -/
theorem offer_honoured {s₀ s : DhcpServer} {netifIsUp udpNew : Bool} {ip netmask : UInt32}
    (hs : dhcpsStart s₀ netifIsUp ip netmask udpNew = (s, .success))
    (hd : ∀ i j, (s.clients i).ipAddr = (s.clients j).ipAddr → i = j) (es₁ : List DhcpEvent)
    {d : DhcpRequest} {offer : DhcpReply}
    (ho : (dhcpsHandle (dhcpRun s es₁) d true).2 = some offer) (hot : offer.msgType = dhcpMsgOffer)
    {es₂ : List DhcpEvent} (hn : ∀ e ∈ es₂, e.NotFrom d.mac)
    (hk : (es₂.map DhcpEvent.ticks).sum < dhcpDeffaultTimeout) (xid : UInt32) :
    let s' := dhcpRun (dhcpsHandle (dhcpRun s es₁) d true).1 es₂
    let r := dhcpsHandle s' ⟨d.mac, dhcpMsgRequest, offer.yiaddr, s.serverIpAddr, xid⟩ true
    ∃ reply i, r.2 = some reply ∧ reply.msgType = dhcpMsgAck ∧ reply.yiaddr = offer.yiaddr ∧
      (r.1.clients i).ipAddr = offer.yiaddr ∧ (r.1.clients i).state = .bind ∧
      (r.1.clients i).macAddr = d.mac := by
  intro s' r
  have ht₁ := tableOk_run (dhcpsStart_ok hs).1 es₁
  have ht₂ := tableOk_handle ht₁ d true
  obtain ⟨i, hi⟩ := handle_offer ho hot
  have hrun : Offered s' i d.mac offer.yiaddr (dhcpDeffaultTimeout - (es₂.map DhcpEvent.ticks).sum) :=
    offered_run es₂ (by rwa [Nat.sub_add_cancel (Nat.le_of_lt hk)]) (Nat.sub_pos_of_lt hk) hn
  obtain ⟨f1, f2⟩ := dhcpRun_frame s es₁
  obtain ⟨f3, f4⟩ := dhcpStep_frame (dhcpRun s es₁) (.message d true)
  obtain ⟨f5, f6⟩ := dhcpRun_frame (dhcpsHandle (dhcpRun s es₁) d true).1 es₂
  have hip : ∀ j, (s'.clients j).ipAddr = (s.clients j).ipAddr := fun j =>
    (f6 j).trans ((f4 j).trans (f2 j))
  have hserver : s'.serverIpAddr = s.serverIpAddr := f5.trans (f3.trans f1)
  have hd' : ∀ j, (s'.clients j).ipAddr = offer.yiaddr → j = i := fun j hj =>
    hd j i (by rw [← hip j, ← hip i, hj, hrun.ip])
  obtain ⟨reply, h1, h2, h3, h4, h5, h6⟩ := handle_offered (tableOk_run ht₂ es₂) hd' hrun xid
  rw [hserver] at h1 h4 h5 h6
  exact ⟨reply, i, h1, h2, h3, h6, h4, h5⟩

/-- On 192.168.0.1/24 the first client is offered 192.168.0.2; a tick passes and
another client asks for the same address. -/
theorem offer_honoured_first :
    let m : Mac := Vector.replicate 6 1
    let s := (dhcpsStart bootServer true 0x0100a8c0 0x00ffffff true).1
    let s' := dhcpRun (dhcpsHandle s ⟨m, dhcpMsgDiscover, 0, 0, 7⟩ true).1
      [.tick fun _ => true, .message ⟨Vector.replicate 6 2, dhcpMsgDiscover, 0x0200a8c0, 0, 8⟩ true]
    let r := dhcpsHandle s' ⟨m, dhcpMsgRequest, 0x0200a8c0, 0x0100a8c0, 9⟩ true
    ∃ reply i, r.2 = some reply ∧ reply.msgType = dhcpMsgAck ∧ reply.yiaddr = 0x0200a8c0 ∧
      (r.1.clients i).ipAddr = 0x0200a8c0 ∧ (r.1.clients i).state = .bind ∧
      (r.1.clients i).macAddr = m :=
  @offer_honoured bootServer _ true true 0x0100a8c0 0x00ffffff rfl (by decide) []
    ⟨Vector.replicate 6 1, dhcpMsgDiscover, 0, 0, 7⟩
    (dhcpOfferGen (dhcpsStart bootServer true 0x0100a8c0 0x00ffffff true).1 0 (Vector.replicate 6 1) 7)
    (by decide) rfl [.tick fun _ => true,
      .message ⟨Vector.replicate 6 2, dhcpMsgDiscover, 0x0200a8c0, 0, 8⟩ true]
    (by simp [DhcpEvent.NotFrom]) (by decide) 9

end GizwitsSdk
