import GizwitsSdk.DhcpTable

/-!
# What the handling reads of a request

A discover asks for the address, a request for the address and the server; no
other message reads either. For each of them there is a table that tells two
values apart.
-/

namespace GizwitsSdk

/-! ## Requests handled alike -/

theorem scan_my (clients : Fin 8 → DhcpClient) (mac : Mac) (ip₁ ip₂ : UInt32) :
    (lookupScan clients mac ip₁).pMyClient = (lookupScan clients mac ip₂).pMyClient := by
  have hstep : ∀ ip l i, (lookupStep clients mac ip l i).pMyClient =
      if (clients i).state ≠ .idle ∧ (clients i).macAddr = mac then some i else l.pMyClient := by
    intro ip l i
    unfold lookupStep
    by_cases hs : (clients i).state = .idle
    · simp [hs]
    · by_cases hm : (clients i).macAddr = mac
      · simp [hs, hm]
      · by_cases ha : (clients i).ipAddr = ip <;> simp [hs, hm, ha]
  have key : ∀ (seen : List (Fin 8)) l₁ l₂, l₁.pMyClient = l₂.pMyClient →
      (seen.foldl (lookupStep clients mac ip₁) l₁).pMyClient =
        (seen.foldl (lookupStep clients mac ip₂) l₂).pMyClient := by
    intro seen
    induction seen with
    | nil => exact fun _ _ h => h
    | cons i seen ih =>
      intro l₁ l₂ h
      apply ih
      rw [hstep, hstep, h]
  exact key _ _ _ rfl

/-- Two requests that agree in what their type asks for. -/
structure SameRequest (m₁ m₂ : DhcpRequest) : Prop where
  mac : m₁.mac = m₂.mac
  xid : m₁.xid = m₂.xid
  msgType : m₁.msgType = m₂.msgType
  req : m₁.msgType = dhcpMsgDiscover ∨ m₁.msgType = dhcpMsgRequest → m₁.reqIpAddr = m₂.reqIpAddr
  sid : m₁.msgType = dhcpMsgRequest → m₁.serverId = m₂.serverId

theorem dhcpsHandle_same {m₁ m₂ : DhcpRequest} (h : SameRequest m₁ m₂) (s : DhcpServer)
    (pbufAlloc : Bool) : dhcpsHandle s m₁ pbufAlloc = dhcpsHandle s m₂ pbufAlloc := by
  obtain ⟨mac, t, ip₁, sid₁, xid⟩ := m₁
  obtain ⟨mac₂, t₂, ip₂, sid₂, xid₂⟩ := m₂
  obtain ⟨rfl, rfl, rfl, hreq, hsid⟩ := h
  simp only at hreq hsid
  have hsw : lookupSwitch s (lookupScan s.clients mac ip₁) t sid₁ =
      lookupSwitch s (lookupScan s.clients mac ip₂) t sid₂ := by
    by_cases hd : t = dhcpMsgDiscover
    · rw [hreq (.inl hd)]
      unfold lookupSwitch
      simp only [hd, if_true]
    by_cases hr : t = dhcpMsgRequest
    · rw [hreq (.inr hr), hsid hr]
    · unfold lookupSwitch
      simp only [hd, hr, if_false, scan_my s.clients mac ip₁ ip₂]
  have hlook : clientTableLookup s mac t ip₁ sid₁ = clientTableLookup s mac t ip₂ sid₂ := by
    unfold clientTableLookup; rw [hsw]
  unfold dhcpsHandle
  simp only [hlook]

/-- Releases and declines are not answered. -/
def Silent (msgType : UInt8) : Prop := msgType = dhcpMsgRelease ∨ msgType = dhcpMsgDecline

theorem handle_isSome (s : DhcpServer) (m : DhcpRequest) :
    (dhcpsHandle s m true).2.isSome = true ↔ ¬ Silent m.msgType := by
  have hlook : Silent m.msgType →
      (clientTableLookup s m.mac m.msgType m.reqIpAddr m.serverId).2 = none := by
    intro hs
    have hd : m.msgType ≠ dhcpMsgDiscover := by rcases hs with h | h <;> rw [h] <;> decide
    have hr : m.msgType ≠ dhcpMsgRequest := by rcases hs with h | h <;> rw [h] <;> decide
    unfold clientTableLookup lookupSwitch
    simp only [hd, hr, if_false, show m.msgType = dhcpMsgRelease ∨ m.msgType = dhcpMsgDecline from hs,
      if_true]
    cases (lookupScan s.clients m.mac m.reqIpAddr).pMyClient <;> rfl
  unfold dhcpsHandle
  generalize clientTableLookup s m.mac m.msgType m.reqIpAddr m.serverId = r at hlook ⊢
  obtain ⟨s', r⟩ := r
  cases r with
  | none =>
    unfold Silent
    by_cases h1 : m.msgType = dhcpMsgRelease
    · simp [h1]
    · by_cases h2 : m.msgType = dhcpMsgDecline <;> simp [h1, h2]
  | some i => exact iff_of_true rfl fun hs => nomatch hlook hs

/-! ## Tables that tell two requests apart -/

/-- Every entry idle, one with address `a` and the others with `b`. -/
def idleServer (ip a b : UInt32) : DhcpServer :=
  { bootServer with
    serverIpAddr := ip
    clients := fun i => ⟨.idle, 0, if i.val = 3 then a else b, zeroMac, 0⟩ }

theorem idleServer_idle (ip a b : UInt32) (i : Fin 8) :
    ((idleServer ip a b).clients i).state = .idle := rfl

theorem idleServer_first (ip a b : UInt32) : ∃ i, ((idleServer ip a b).clients i).ipAddr = a :=
  ⟨3, rfl⟩

theorem idleServer_rest (ip a b : UInt32) : ∃ i, ((idleServer ip a b).clients i).ipAddr = b :=
  ⟨0, rfl⟩

section
variable {s : DhcpServer} (hidle : ∀ i, (s.clients i).state = .idle) {mac : Mac} {a sid xid : UInt32}
include hidle

theorem scan_idle (mac : Mac) (a : UInt32) : (lookupScan s.clients mac a).pMyClient = none ∧
    (lookupScan s.clients mac a).ipUnavailable = false ∧
    (∀ i, (lookupScan s.clients mac a).pReqClient = some i → (s.clients i).ipAddr = a) ∧
    ((lookupScan s.clients mac a).pReqClient = none → ∀ i, (s.clients i).ipAddr ≠ a) := by
  have hl := lookupScan_ok s.clients mac a
  generalize lookupScan s.clients mac a = l at *
  refine ⟨?_, ?_, fun i hi => (hl.req.some i hi).2, fun hn i hi => ?_⟩
  · cases hm : l.pMyClient with
    | none => rfl
    | some i => exact absurd (hidle i) (hl.my.some i hm).1
  · cases hu : l.ipUnavailable with
    | false => rfl
    | true =>
      obtain ⟨i, -, hi, -⟩ := hl.taken.mp hu
      exact absurd (hidle i) hi
  · exact hl.req.none hn i (List.mem_finRange i) ⟨hidle i, hi⟩

theorem discover_idle (ha : ∃ i, (s.clients i).ipAddr = a) :
    ((dhcpsHandle s ⟨mac, dhcpMsgDiscover, a, sid, xid⟩ true).2.map DhcpReply.yiaddr) = some a := by
  obtain ⟨h1, -, h3, h4⟩ := scan_idle hidle mac a
  cases hr : (lookupScan s.clients mac a).pReqClient with
  | none =>
    obtain ⟨i, hi⟩ := ha
    exact absurd hi (h4 hr i)
  | some i =>
    have hlook : clientTableLookup s mac dhcpMsgDiscover a sid = (s.setMac i mac, some i) := by
      unfold clientTableLookup lookupSwitch
      simp only [h1, hr, if_true, Option.or]
    have hset : (s.setMac i mac).clients i = { s.clients i with macAddr := mac } :=
      setClient_self s i _
    unfold dhcpsHandle dhcpClientSmeHandle
    simp only [hlook, hset, hidle i, if_true, Option.map_some, offerClient, dhcpOfferGen,
      dhcpGrantGen, DhcpServer.setState, setClient_self, h3 i hr]

theorem request_idle :
    ((dhcpsHandle s ⟨mac, dhcpMsgRequest, a, sid, xid⟩ true).2.map DhcpReply.msgType) =
      some (if (sid = 0 ∨ s.serverIpAddr = sid) ∧ ∃ i, (s.clients i).ipAddr = a then dhcpMsgAck
        else dhcpMsgNak) := by
  obtain ⟨h1, h2, h3, h4⟩ := scan_idle hidle mac a
  have hne : dhcpMsgRequest ≠ dhcpMsgDiscover := by decide
  have hset : ∀ i, (s.setMac i mac).clients i = { s.clients i with macAddr := mac } := fun i =>
    setClient_self s i _
  by_cases hm : sid = 0 ∨ s.serverIpAddr = sid
  · simp only [hm, true_and]
    cases hr : (lookupScan s.clients mac a).pReqClient with
    | none =>
      have hlook : clientTableLookup s mac dhcpMsgRequest a sid = (s, none) := by
        unfold clientTableLookup lookupSwitch
        simp only [h1, h2, hr, hne, if_false, Bool.false_eq_true, ite_self]
      rw [if_neg (not_exists.mpr (h4 hr))]
      unfold dhcpsHandle
      rw [hlook]; rfl
    | some i =>
      have hlook : clientTableLookup s mac dhcpMsgRequest a sid = (s.setMac i mac, some i) := by
        unfold clientTableLookup lookupSwitch
        simp only [h1, h2, hr, hm, hne, if_false, if_true, Bool.false_eq_true]
      rw [if_pos ⟨i, h3 i hr⟩]
      unfold dhcpsHandle
      simp only [hlook, dhcpClientSmeHandle, hset, hidle i, hne, if_false, if_true]; rfl
  · have hlook : clientTableLookup s mac dhcpMsgRequest a sid = (s, none) := by
      unfold clientTableLookup lookupSwitch
      simp only [h1, h2, hm, hne, if_false, if_true, Bool.false_eq_true]
    rw [if_neg fun hc => hm hc.1]
    unfold dhcpsHandle
    rw [hlook]; rfl

end

end GizwitsSdk
