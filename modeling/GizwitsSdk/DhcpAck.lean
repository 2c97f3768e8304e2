import GizwitsSdk.DhcpTable

/-!
# What a request is granted

A request is answered from the entry the lookup chooses. An idle entry is
chosen by the address asked for; the client's own entry is chosen by its
hardware address alone, whatever address it holds.
-/

namespace GizwitsSdk

/-- A request of a client with an entry of its own, for an address that is in
no entry of the table. -/
def OutsidePool (s : DhcpServer) (m : DhcpRequest) : Prop :=
  (∃ i, (s.clients i).Active ∧ (s.clients i).macAddr = m.mac) ∧
    (m.serverId = 0 ∨ s.serverIpAddr = m.serverId) ∧ ∀ i, (s.clients i).ipAddr ≠ m.reqIpAddr

/-- The entry `r` the lookup found for a request, and the server after it. -/
structure LookupOk (s : DhcpServer) (m : DhcpRequest) (s' : DhcpServer) (r : Option (Fin 8)) :
    Prop where
  refused : r = none → ¬ OutsidePool s m ∧ ∀ j, (s'.clients j).state ≠ .idle →
    s'.clients j = s.clients j
  noSelect : ∀ i, r = some i → (s'.clients i).state ≠ .select
  granted : ∀ i, r = some i → (s'.clients i).ipAddr = (s.clients i).ipAddr ∧
    ((s.clients i).ipAddr = m.reqIpAddr ↔ ¬ OutsidePool s m)

section
variable {s : DhcpServer} {m : DhcpRequest} {l : LookupSt}

theorem notOutside_of_entry {i : Fin 8} (h : (s.clients i).ipAddr = m.reqIpAddr) : ¬ OutsidePool s m :=
  fun ho => ho.2.2 i h

theorem lookupOk_refused {s' : DhcpServer} (ho : ¬ OutsidePool s m)
    (h : ∀ j, (s'.clients j).state ≠ .idle → s'.clients j = s.clients j) : LookupOk s m s' none :=
  ⟨fun _ => ⟨ho, h⟩, nofun, nofun⟩

theorem lookupOk_req {s' : DhcpServer} {i : Fin 8} (h : (s.clients i).ipAddr = m.reqIpAddr)
    (hs : (s'.clients i).state ≠ .select) (hip : (s'.clients i).ipAddr = (s.clients i).ipAddr) :
    LookupOk s m s' (some i) := by
  refine ⟨nofun, fun j hj => ?_, fun j hj => ?_⟩
  · cases hj; exact hs
  · cases hj; exact ⟨hip, fun _ => notOutside_of_entry h, fun _ => h⟩

theorem drop_kept {k : Fin 8} (j : Fin 8) (h : ((dropClient s k).clients j).state ≠ .idle) :
    (dropClient s k).clients j = s.clients j := by
  by_cases hj : j = k
  · rw [hj] at h; exact absurd (dropClient_self s k).1 h
  · exact dropClient_other s k j hj

/-- A request is refused when the server id is another's, the client has no
entry, or another client has the address. -/
theorem refused_of (hl : ScanOk s.clients m.mac m.reqIpAddr (List.finRange 8) l) (ht : TableOk s)
    (h : ¬ (m.serverId = 0 ∨ s.serverIpAddr = m.serverId) ∨ l.pMyClient = none ∨ l.ipUnavailable = true) :
    ¬ OutsidePool s m := by
  rintro ⟨⟨i, hi, hmac⟩, hmine, hout⟩
  rcases h with h | h | h
  · exact h hmine
  · exact hl.my.none h i (List.mem_finRange i) ⟨(active_iff ht).mp hi, hmac⟩
  · obtain ⟨j, -, -, -, hj⟩ := hl.taken.mp h
    exact hout j hj

/-- Where no entry with the address is idle and no other client has it, an entry
that has it is the client's own. -/
theorem granted_mine {k : Fin 8} (ht : TableOk s) (hl : ScanOk s.clients m.mac m.reqIpAddr (List.finRange 8) l)
    (hmy : l.pMyClient = some k) (hu : l.ipUnavailable = false) (hreq : l.pReqClient = none)
    (hmine : m.serverId = 0 ∨ s.serverIpAddr = m.serverId) (ho : ¬ OutsidePool s m) :
    (s.clients k).ipAddr = m.reqIpAddr := by
  obtain ⟨hk1, hk2⟩ := hl.my.some k hmy
  have hex : ∃ i, (s.clients i).ipAddr = m.reqIpAddr := by
    by_contra hn
    exact ho ⟨⟨k, (active_iff ht).mpr hk1, hk2⟩, hmine, fun i hi => hn ⟨i, hi⟩⟩
  obtain ⟨i, hi⟩ := hex
  have hact : (s.clients i).state ≠ .idle := fun he =>
    hl.req.none hreq i (List.mem_finRange i) ⟨he, hi⟩
  have hmac : (s.clients i).macAddr = m.mac := by
    by_contra hne
    have htaken := hl.taken.mpr ⟨i, List.mem_finRange i, hact, hne, hi⟩
    rw [hu] at htaken
    cases htaken
  rw [← ht.unique i k hact hk1 (by rw [hmac, hk2])]
  exact hi

theorem lookupSwitch_request (ht : TableOk s)
    (hl : ScanOk s.clients m.mac m.reqIpAddr (List.finRange 8) l) :
    LookupOk s m (lookupSwitch s l dhcpMsgRequest m.serverId).1
      (lookupSwitch s l dhcpMsgRequest m.serverId).2 := by
  generalize hs' : (lookupSwitch s l dhcpMsgRequest m.serverId).1 = s'
  generalize hr : (lookupSwitch s l dhcpMsgRequest m.serverId).2 = r
  have hsw := lookupSwitch_cases s l dhcpMsgRequest m.serverId
  rw [hs', hr] at hsw
  cases hsw with
  | request _ hmy =>
    have hno := refused_of hl ht (.inr (.inl hmy))
    split
    · exact lookupOk_refused hno fun _ _ => rfl
    · split
      · cases hreq : l.pReqClient with
        | none => exact lookupOk_refused hno fun _ _ => rfl
        | some r => exact lookupOk_req (hl.req.some r hreq).2 (ht.noSelect r) rfl
      · exact lookupOk_refused hno fun _ _ => rfl
  | requestTaken _ hmy hu => exact lookupOk_refused (refused_of hl ht (.inr (.inr hu))) drop_kept
  | @requestMine k _ hmy hu hreq =>
    split
    · next hmine =>
      refine ⟨nofun, fun i hi => ?_, fun i hi => ?_⟩
      · cases hi; exact ht.noSelect k
      · cases hi
        exact ⟨rfl, notOutside_of_entry, granted_mine ht hl hmy hu hreq hmine⟩
    · next hmine => exact lookupOk_refused (refused_of hl ht (.inl hmine)) fun _ _ => rfl
  | @requestMoved k r _ hmy hu hreq =>
    split
    · obtain ⟨hk1, hk2⟩ := hl.my.some k hmy
      obtain ⟨hr1, hr2⟩ := hl.req.some r hreq
      have hrk : r ≠ k := fun e => hk1 (e ▸ hr1)
      have hd := dropClient_other s k r hrk
      exact lookupOk_req hr2 ((congrArg _ hd).trans_ne (ht.noSelect r)) (congrArg _ hd)
    · next hmine => exact lookupOk_refused (refused_of hl ht (.inl hmine)) drop_kept
  | ignored _ hne => exact absurd rfl hne
  | discover h | discoverMine h | discoverMoved h | released h => exact absurd h (by decide)

theorem sme_request {i : Fin 8} (h : (s.clients i).state ≠ .select) (xid : UInt32) :
    dhcpClientSmeHandle s i dhcpMsgRequest xid = ackClient s i xid := by
  unfold dhcpClientSmeHandle
  cases hs : (s.clients i).state with
  | idle => rfl
  | select => exact absurd hs h
  | request => rfl
  | bind => rfl

end

/-- The answer to a request is an `ACK` for the address asked for, or a `NAK`
that leaves nothing active but what was so before. -/
def AnswersRequest (s : DhcpServer) (m : DhcpRequest) (pbufAlloc : Bool) : Prop :=
  ∃ reply, (dhcpsHandle s m pbufAlloc).2 = some reply ∧
    (reply.msgType = dhcpMsgAck ∧ reply.yiaddr = m.reqIpAddr ∨
      reply.msgType = dhcpMsgNak ∧ ∀ i, ((dhcpsHandle s m pbufAlloc).1.clients i).Active →
        (dhcpsHandle s m pbufAlloc).1.clients i = s.clients i)

theorem answersRequest_iff {s : DhcpServer} {m : DhcpRequest} (ht : TableOk s)
    (hm : m.msgType = dhcpMsgRequest) (pbufAlloc : Bool) :
    AnswersRequest s m pbufAlloc ↔ pbufAlloc = true ∧ ¬ OutsidePool s m := by
  have hw := lookupSwitch_request ht (lookupScan_ok s.clients m.mac m.reqIpAddr)
  have hrd : dhcpMsgRequest ≠ dhcpMsgRelease ∧ dhcpMsgRequest ≠ dhcpMsgDecline ∧ true = true := by
    decide
  unfold AnswersRequest dhcpsHandle clientTableLookup
  rw [hm]
  generalize lookupSwitch s (lookupScan s.clients m.mac m.reqIpAddr) dhcpMsgRequest m.serverId = sw at *
  obtain ⟨s', r⟩ := sw
  simp only at hw
  cases r with
  | none =>
    obtain ⟨ho, hkeep⟩ := hw.refused rfl
    cases pbufAlloc with
    | false => simp
    | true =>
      refine iff_of_true ⟨dhcpNakGen s' m.mac m.xid, ?_, .inr ⟨rfl, fun i hi => hkeep i ?_⟩⟩ ⟨rfl, ho⟩
      · exact if_pos (e := none) hrd
      rcases hi with hi | hi <;> rw [hi] <;> decide
  | some i =>
    obtain ⟨hip, hiff⟩ := hw.granted i rfl
    have hset : (s'.setMac i m.mac).clients i = { s'.clients i with macAddr := m.mac } :=
      setClient_self s' i _
    have hsel : ((s'.setMac i m.mac).clients i).state ≠ .select := by
      rw [hset]; exact hw.noSelect i rfl
    have hy : (ackClient (s'.setMac i m.mac) i m.xid).2.yiaddr = (s.clients i).ipAddr := by
      rw [← hip]; simp only [ackClient, dhcpAckGen, dhcpGrantGen, hset]
    simp only [sme_request hsel]
    cases pbufAlloc with
    | false => simp
    | true =>
      simp only [if_true, true_and]
      constructor
      · rintro ⟨reply, he, h | h⟩
        · obtain rfl := Option.some.inj he
          rw [hy] at h
          exact hiff.mp h.2
        · obtain rfl := Option.some.inj he
          exact absurd h.1 (by decide : dhcpMsgAck ≠ dhcpMsgNak)
      · intro ho
        exact ⟨_, rfl, .inl ⟨rfl, hy.trans (hiff.mpr ho)⟩⟩

/-- **What a request is granted.** In every run of a started server, a request
is answered with the address it asks for or a `NAK` exactly when a reply can be
sent and the client of an active entry does not ask for an address outside the
table. -/
theorem ack_grants_iff {s₀ s : DhcpServer} {netifIsUp udpNew : Bool} {ip netmask : UInt32}
    (hs : dhcpsStart s₀ netifIsUp ip netmask udpNew = (s, .success)) (es : List DhcpEvent)
    {m : DhcpRequest} (hm : m.msgType = dhcpMsgRequest) (pbufAlloc : Bool) :
    AnswersRequest (dhcpRun s es) m pbufAlloc ↔
      pbufAlloc = true ∧ ¬ OutsidePool (dhcpRun s es) m :=
  answersRequest_iff (tableOk_run (dhcpsStart_ok hs).1 es) hm pbufAlloc

/-- A client that has been offered 192.168.0.2 asks for 192.168.0.3, which is idle. -/
theorem ack_grants_other :
    let m : DhcpRequest := ⟨Vector.replicate 6 1, dhcpMsgRequest, 0x0300a8c0, 0, 8⟩
    let s := dhcpRun (dhcpsStart bootServer true 0x0100a8c0 0x00ffffff true).1
      [.message ⟨Vector.replicate 6 1, dhcpMsgDiscover, 0, 0, 7⟩ true]
    AnswersRequest s m true ↔ true = true ∧ ¬ OutsidePool s m :=
  @ack_grants_iff bootServer _ true true 0x0100a8c0 0x00ffffff rfl _ _ rfl true

/-- The same client asks for 10.0.0.1 and is acknowledged with 192.168.0.2. -/
theorem ack_grants_outside :
    let m : DhcpRequest := ⟨Vector.replicate 6 1, dhcpMsgRequest, 0x0100000a, 0, 8⟩
    let s := dhcpRun (dhcpsStart bootServer true 0x0100a8c0 0x00ffffff true).1
      [.message ⟨Vector.replicate 6 1, dhcpMsgDiscover, 0, 0, 7⟩ true]
    (∃ reply, (dhcpsHandle s m true).2 = some reply ∧ reply.msgType = dhcpMsgAck ∧
      reply.yiaddr = 0x0200a8c0) ∧ ¬ AnswersRequest s m true := by
  intro m s
  have hack : (dhcpsHandle s m true).2 =
      some (dhcpAckGen s 0 (Vector.replicate 6 1) 8) := by decide
  refine ⟨⟨_, hack, rfl, by decide⟩, ?_⟩
  rintro ⟨reply, he, h | h⟩
  · obtain rfl := Option.some.inj (hack.symm.trans he)
    exact absurd h.2 (by decide)
  · obtain rfl := Option.some.inj (hack.symm.trans he)
    exact absurd h.1 (by decide)

end GizwitsSdk
