import GizwitsSdk.DhcpServer
import GizwitsSdk.Lib.Machine
import Mathlib.Data.List.Induction

/-!
# Lease isolation

What a message can do to the table: it may serve one entry, idle or already of
the same client, it may drop the client's own entry, and it may forget that
client in idle entries. So a client is active in one entry at most, and the
entries of the others stay as they are.
-/

namespace GizwitsSdk

/-! ## The scan -/

/-- `p` is a seen entry with `P`, or none of the seen has it. -/
structure Found (seen : List (Fin 8)) (p : Option (Fin 8)) (P : Fin 8 → Prop) : Prop where
  some : ∀ i, p = some i → P i
  none : p = none → ∀ j ∈ seen, ¬ P j

section
variable {seen : List (Fin 8)} {p : Option (Fin 8)} {P : Fin 8 → Prop} {i : Fin 8}

theorem found_nil : Found [] none P := ⟨nofun, fun _ _ h => nomatch h⟩

theorem found_skip (h : Found seen p P) (hi : ¬ P i) : Found (seen ++ [i]) p P := by
  refine ⟨h.some, fun hn j hj => ?_⟩
  rcases List.mem_append.mp hj with hj | hj
  · exact h.none hn j hj
  · rw [List.mem_singleton.mp hj]; exact hi

theorem found_here (hi : P i) : Found (seen ++ [i]) (some i) P :=
  ⟨fun j hj => by cases hj; exact hi, nofun⟩

theorem found_take {cond : Bool} (h : Found seen p P) (hc : cond = true ↔ P i) :
    Found (seen ++ [i]) (takeFirst p cond i) P := by
  unfold takeFirst
  split
  · rename_i ht; exact found_here (hc.mp ht.2)
  · rename_i ht
    cases p with
    | none => exact found_skip h fun hi => ht ⟨rfl, hc.mpr hi⟩
    | some k => exact ⟨h.some, nofun⟩

end

/-- What the scan knows after the entries `seen`. -/
structure ScanOk (clients : Fin 8 → DhcpClient) (mac : Mac) (ip : UInt32) (seen : List (Fin 8))
    (l : LookupSt) : Prop where
  my : Found seen l.pMyClient fun i => (clients i).state ≠ .idle ∧ (clients i).macAddr = mac
  req : Found seen l.pReqClient fun i => (clients i).state = .idle ∧ (clients i).ipAddr = ip
  myHistory : Found seen l.pMyHistoryClient fun i =>
    (clients i).state = .idle ∧ (clients i).macAddr = mac
  free : Found seen l.pFreeClient fun i => (clients i).state = .idle ∧ (clients i).macAddr = zeroMac
  history : Found seen l.pHistoryClient fun i =>
    (clients i).state = .idle ∧ (clients i).macAddr ≠ zeroMac
  taken : l.ipUnavailable = true ↔
    ∃ i ∈ seen, (clients i).state ≠ .idle ∧ (clients i).macAddr ≠ mac ∧ (clients i).ipAddr = ip

section
variable {clients : Fin 8 → DhcpClient} {mac : Mac} {ip : UInt32} {seen : List (Fin 8)}
  {l : LookupSt} {i : Fin 8}

theorem scanOk_step (h : ScanOk clients mac ip seen l) :
    ScanOk clients mac ip (seen ++ [i]) (lookupStep clients mac ip l i) := by
  have htaken : ∀ Q : Fin 8 → Prop, (∃ j ∈ seen ++ [i], Q j) ↔ (∃ j ∈ seen, Q j) ∨ Q i := by
    intro Q; simp [or_and_right, exists_or]
  obtain ⟨h1, h2, h3, h4, h5, h6⟩ := h
  unfold lookupStep
  by_cases hs : (clients i).state = .idle
  · simp only [hs, if_true]
    refine ⟨found_skip h1 (by simp [hs]), found_take h2 (by simp [hs]), found_take h3 (by simp [hs]),
      found_take h4 (by simp [hs]), found_take h5 (by simp [hs]), ?_⟩
    rw [htaken, h6]; simp [hs]
  · simp only [hs, if_false]
    by_cases hm : (clients i).macAddr = mac
    · simp only [hm, if_true]
      refine ⟨found_here ⟨hs, hm⟩, found_skip h2 (by simp [hs]), found_skip h3 (by simp [hs]),
        found_skip h4 (by simp [hs]), found_skip h5 (by simp [hs]), ?_⟩
      rw [htaken, h6]; simp [hm]
    · simp only [hm, if_false]
      have hc : ScanOk clients mac ip (seen ++ [i])
          { l with ipUnavailable := l.ipUnavailable || decide ((clients i).ipAddr = ip) } := by
        refine ⟨found_skip h1 (by simp [hm]), found_skip h2 (by simp [hs]),
          found_skip h3 (by simp [hs]), found_skip h4 (by simp [hs]), found_skip h5 (by simp [hs]), ?_⟩
        rw [htaken, Bool.or_eq_true, h6]; simp [hs, hm]
      split
      · rename_i he; simpa [he] using hc
      · rename_i he; simpa [he] using hc

variable (clients mac ip) in
theorem lookupScan_ok : ScanOk clients mac ip (List.finRange 8) (lookupScan clients mac ip) := by
  have key : ∀ seen : List (Fin 8), ScanOk clients mac ip seen
      (seen.foldl (lookupStep clients mac ip) ⟨false, none, none, none, none, none⟩) := by
    intro seen
    induction seen using List.reverseRecOn with
    | nil => exact ⟨found_nil, found_nil, found_nil, found_nil, found_nil, by simp⟩
    | append_singleton seen i ih => rw [List.foldl_append]; exact scanOk_step ih
  exact key _

end

/-! ## The server after an update -/

section
variable (s : DhcpServer) (i j : Fin 8)

@[simp] theorem setClient_self (c : DhcpClient) : (s.setClient i c).clients i = c := by
  simp [DhcpServer.setClient]

theorem setClient_other (c : DhcpClient) (h : j ≠ i) : (s.setClient i c).clients j = s.clients j := by
  simp [DhcpServer.setClient, h]

theorem dropClient_self : ((dropClient s i).clients i).state = .idle ∧
    ((dropClient s i).clients i).ipAddr = (s.clients i).ipAddr := by
  unfold dropClient DhcpServer.setState DhcpServer.setMac
  split <;> simp

theorem dropClient_other (h : j ≠ i) : (dropClient s i).clients j = s.clients j := by
  unfold dropClient DhcpServer.setState DhcpServer.setMac
  split <;> simp [setClient_other, h]

theorem dropClient_eq : dropClient s i = { s with clients := (dropClient s i).clients } := by
  unfold dropClient DhcpServer.setState DhcpServer.setMac DhcpServer.setClient
  split <;> rfl

end

inductive Switched (s : DhcpServer) (l : LookupSt) (msgType : UInt8) (serverId : UInt32) :
    DhcpServer → Option (Fin 8) → Prop
  | discover (ht : msgType = dhcpMsgDiscover) (hmy : l.pMyClient = none) :
      Switched s l msgType serverId s
        (l.pReqClient.or (l.pMyHistoryClient.or (l.pFreeClient.or l.pHistoryClient)))
  | discoverMine {my : Fin 8} (ht : msgType = dhcpMsgDiscover) (hmy : l.pMyClient = some my)
      (hreq : l.pReqClient = none) : Switched s l msgType serverId (s.setState my .idle) (some my)
  | discoverMoved {my req : Fin 8} (ht : msgType = dhcpMsgDiscover) (hmy : l.pMyClient = some my)
      (hreq : l.pReqClient = some req) :
      Switched s l msgType serverId ((s.setState my .idle).setMac my zeroMac) (some req)
  | request (ht : msgType = dhcpMsgRequest) (hmy : l.pMyClient = none) :
      Switched s l msgType serverId s
        (if l.ipUnavailable then none
          else if serverId = 0 ∨ s.serverIpAddr = serverId then l.pReqClient else none)
  | requestTaken {my : Fin 8} (ht : msgType = dhcpMsgRequest) (hmy : l.pMyClient = some my)
      (hu : l.ipUnavailable = true) : Switched s l msgType serverId (dropClient s my) none
  | requestMine {my : Fin 8} (ht : msgType = dhcpMsgRequest) (hmy : l.pMyClient = some my)
      (hu : l.ipUnavailable = false) (hreq : l.pReqClient = none) :
      Switched s l msgType serverId s (if serverId = 0 ∨ s.serverIpAddr = serverId then some my else none)
  | requestMoved {my req : Fin 8} (ht : msgType = dhcpMsgRequest) (hmy : l.pMyClient = some my)
      (hu : l.ipUnavailable = false) (hreq : l.pReqClient = some req) :
      Switched s l msgType serverId (dropClient s my)
        (if serverId = 0 ∨ s.serverIpAddr = serverId then some req else none)
  | released {my : Fin 8} (ht : msgType = dhcpMsgRelease ∨ msgType = dhcpMsgDecline)
      (hmy : l.pMyClient = some my) : Switched s l msgType serverId (dropClient s my) none
  | ignored (hd : msgType ≠ dhcpMsgDiscover) (hr : msgType ≠ dhcpMsgRequest) :
      Switched s l msgType serverId s none

theorem lookupSwitch_cases (s : DhcpServer) (l : LookupSt) (msgType : UInt8) (serverId : UInt32) :
    Switched s l msgType serverId (lookupSwitch s l msgType serverId).1 (lookupSwitch s l msgType serverId).2 := by
  unfold lookupSwitch
  simp only
  by_cases hd : msgType = dhcpMsgDiscover
  · rw [if_pos hd]
    cases hmy : l.pMyClient with
    | none => exact .discover hd hmy
    | some my =>
      cases hreq : l.pReqClient with
      | none => exact .discoverMine hd hmy hreq
      | some req =>
        have hidle : ((s.setState my .idle).clients my).state ≠ .bind := by
          rw [DhcpServer.setState, setClient_self]
          exact nofun
        simp only [if_pos hidle]
        exact .discoverMoved hd hmy hreq
  rw [if_neg hd]
  by_cases hr : msgType = dhcpMsgRequest
  · rw [if_pos hr]
    cases hmy : l.pMyClient with
    | none => exact .request hr hmy
    | some my =>
      simp only
      by_cases hu : l.ipUnavailable = true
      · rw [if_pos hu]
        exact .requestTaken hr hmy hu
      · rw [if_neg hu]
        cases hreq : l.pReqClient with
        | none => exact .requestMine hr hmy (Bool.not_eq_true _ ▸ hu) hreq
        | some req => exact .requestMoved hr hmy (Bool.not_eq_true _ ▸ hu) hreq
  rw [if_neg hr]
  by_cases he : msgType = dhcpMsgRelease ∨ msgType = dhcpMsgDecline
  · rw [if_pos he]
    cases hmy : l.pMyClient with
    | none => exact .ignored hd hr
    | some my => exact .released he hmy
  · rw [if_neg he]
    exact .ignored hd hr

/-- What the `switch` does: at most the client's own entry is dropped, and the
entry chosen is that one or an idle one, the own one dropped then. -/
structure SwitchOk (s : DhcpServer) (my : Option (Fin 8)) (s' : DhcpServer) (r : Option (Fin 8)) :
    Prop where
  server : s' = { s with clients := s'.clients }
  other : ∀ j, my ≠ some j → s'.clients j = s.clients j
  mine : ∀ j, my = some j → s'.clients j = s.clients j ∨
    (s'.clients j).state = .idle ∧ (s'.clients j).ipAddr = (s.clients j).ipAddr
  chosen : ∀ i, r = some i → my = some i ∨
    (s.clients i).state = .idle ∧ ∀ j, my = some j → (s'.clients j).state = .idle

section
variable {s : DhcpServer} {my : Fin 8} {r : Option (Fin 8)}

theorem switchOk_none (h : ∀ i, r = some i → (s.clients i).state = .idle) : SwitchOk s none s r :=
  ⟨rfl, fun _ _ => rfl, nofun, fun i hi => .inr ⟨h i hi, nofun⟩⟩

theorem switchOk_keep (h : ∀ i, r = some i → i = my) : SwitchOk s (some my) s r :=
  ⟨rfl, fun _ _ => rfl, fun _ _ => .inl rfl, fun i hi => .inl (by rw [h i hi])⟩

theorem switchOk_drop (h : ∀ i, r = some i → (s.clients i).state = .idle) :
    SwitchOk s (some my) (dropClient s my) r := by
  refine ⟨dropClient_eq s my, fun j hj => dropClient_other s my j fun e => hj (by rw [e]),
    fun j hj => .inr ?_, fun i hi => .inr ⟨h i hi, fun j hj => ?_⟩⟩
  · cases hj; exact dropClient_self s my
  · cases hj; exact (dropClient_self s my).1

theorem or_some {p q : Option (Fin 8)} {i : Fin 8} (h : p.or q = some i) : p = some i ∨ q = some i := by
  cases p with
  | none => exact .inr (by simpa using h)
  | some k => exact .inl (by simpa using h)

theorem lookupSwitch_ok {mac : Mac} {ip : UInt32} {l : LookupSt} (msgType : UInt8) (serverId : UInt32)
    (hl : ScanOk s.clients mac ip (List.finRange 8) l) :
    SwitchOk s l.pMyClient (lookupSwitch s l msgType serverId).1
      (lookupSwitch s l msgType serverId).2 := by
  have hreq : ∀ i, l.pReqClient = some i → (s.clients i).state = .idle := fun i h => (hl.req.some i h).1
  have hif : ∀ (c : Prop) [Decidable c] (q : Option (Fin 8)) (P : Fin 8 → Prop),
      (∀ i, q = some i → P i) → ∀ i, (if c then q else none) = some i → P i := by
    intro c _ q P h i hi
    split at hi
    · exact h i hi
    · cases hi
  generalize hs' : (lookupSwitch s l msgType serverId).1 = s'
  generalize hr : (lookupSwitch s l msgType serverId).2 = r
  have hsw := lookupSwitch_cases s l msgType serverId
  rw [hs', hr] at hsw
  cases hsw with
  | discover ht hmy =>
    rw [hmy]
    refine switchOk_none fun i hi => ?_
    rcases or_some hi with h | h
    · exact hreq i h
    rcases or_some h with h | h
    · exact (hl.myHistory.some i h).1
    rcases or_some h with h | h
    · exact (hl.free.some i h).1
    · exact (hl.history.some i h).1
  | @discoverMine my ht hmy hnone =>
    rw [hmy]
    refine ⟨rfl, fun j hj => setClient_other s my j _ fun e => hj (by rw [e]), fun j hj => ?_, fun i hi => .inl hi⟩
    cases hj
    exact .inr (by simp [DhcpServer.setState])
  | @discoverMoved my req ht hmy hsome =>
    rw [hmy]
    refine ⟨rfl, fun j hj => ?_, fun j hj => .inr ?_, fun i hi => .inr ⟨hreq i (hsome.trans hi), fun j hj => ?_⟩⟩
    · have hne : j ≠ my := fun e => hj (by rw [e])
      simp [DhcpServer.setState, DhcpServer.setMac, setClient_other _ _ _ _ hne]
    · cases hj; simp [DhcpServer.setState, DhcpServer.setMac]
    · cases hj; simp [DhcpServer.setState, DhcpServer.setMac]
  | request ht hmy =>
    rw [hmy]
    refine switchOk_none fun i hi => ?_
    split at hi
    · cases hi
    · exact hif _ _ (fun i => (s.clients i).state = .idle) hreq i hi
  | requestTaken ht hmy => rw [hmy]; exact switchOk_drop nofun
  | requestMine ht hmy => rw [hmy]; exact switchOk_keep (hif _ _ _ fun i h => by cases h; rfl)
  | requestMoved ht hmy hu hsome =>
    rw [hmy]
    exact switchOk_drop (hif _ _ _ fun i hi => hreq i (hsome.trans hi))
  | released ht hmy => rw [hmy]; exact switchOk_drop nofun
  | ignored =>
    cases l.pMyClient with
    | none => exact switchOk_none nofun
    | some my => exact switchOk_keep nofun

end

/-! ## A message -/

def DhcpClient.Active (c : DhcpClient) : Prop := c.state = .request ∨ c.state = .bind

/-- What the state machine does with entry `i`: it becomes active, and idle
entries may forget their address. -/
structure SmeOk (s : DhcpServer) (i : Fin 8) (s' : DhcpServer) : Prop where
  server : s' = { s with clients := s'.clients }
  self : (s'.clients i).Active ∧ (s'.clients i).macAddr = (s.clients i).macAddr ∧
    (s'.clients i).ipAddr = (s.clients i).ipAddr
  other : ∀ j, j ≠ i → s'.clients j = s.clients j ∨
    (s'.clients j).state = .idle ∧ (s.clients j).state = .idle ∧
      (s'.clients j).ipAddr = (s.clients j).ipAddr

section
variable (s : DhcpServer) (i : Fin 8) (xid : UInt32)

theorem ackClient_ok : SmeOk s i (ackClient s i xid).1 := by
  refine ⟨rfl, ?_, fun j hj => ?_⟩
  · simp [ackClient, cleanClientHistory, DhcpClient.Active]
  · simp only [ackClient, cleanClientHistory, setClient_other _ _ _ _ hj]
    split
    · rename_i h; exact .inr ⟨h.1, h.1, rfl⟩
    · exact .inl rfl

theorem offerClient_ok : SmeOk s i (offerClient s i xid).1 :=
  ⟨rfl, by simp [offerClient, DhcpClient.Active], fun j hj => .inl (setClient_other s i j _ hj)⟩

theorem dhcpClientSmeHandle_ok (msgType : UInt8) :
    SmeOk s i (dhcpClientSmeHandle s i msgType xid).1 := by
  unfold dhcpClientSmeHandle
  cases (s.clients i).state with
  | idle =>
    simp only
    split
    · obtain ⟨-, h2, h3⟩ := offerClient_ok (s.setState i .select) i xid
      refine ⟨rfl, by simpa [DhcpServer.setState] using h2, fun j hj => ?_⟩
      have := h3 j hj
      rwa [DhcpServer.setState, setClient_other _ _ _ _ hj] at this
    split
    · exact ackClient_ok s i xid
    · exact offerClient_ok s i xid
  | select => exact offerClient_ok s i xid
  | request => exact ackClient_ok s i xid
  | bind => exact ackClient_ok s i xid

end

/-- What a message of client `mac` does to the table, `r` the entry served. -/
structure HandleOk (s : DhcpServer) (mac : Mac) (s' : DhcpServer) (r : Option (Fin 8)) : Prop where
  server : s' = { s with clients := s'.clients }
  ip : ∀ j, (s'.clients j).ipAddr = (s.clients j).ipAddr
  other : ∀ j, r ≠ some j → s'.clients j = s.clients j ∨ (s'.clients j).state = .idle ∧
    ((s.clients j).state = .idle ∨ (s.clients j).macAddr = mac)
  served : ∀ i, r = some i → ((s.clients i).state = .idle ∨ (s.clients i).macAddr = mac) ∧
    (s'.clients i).Active ∧ (s'.clients i).macAddr = mac

/-- No two entries in use have one client, and none is between states. -/
structure TableOk (s : DhcpServer) : Prop where
  noSelect : ∀ i, (s.clients i).state ≠ .select
  unique : ∀ i j, (s.clients i).state ≠ .idle → (s.clients j).state ≠ .idle →
    (s.clients i).macAddr = (s.clients j).macAddr → i = j

section
variable {s s' : DhcpServer}

theorem active_iff (h : TableOk s) {i : Fin 8} :
    (s.clients i).Active ↔ (s.clients i).state ≠ .idle := by
  have := h.noSelect i
  unfold DhcpClient.Active
  cases hs : (s.clients i).state <;> simp_all

variable {s₁ : DhcpServer} {my r : Option (Fin 8)} {mac : Mac} {i j : Fin 8}

theorem SwitchOk.dropped (h : SwitchOk s my s₁ r) (hmy : ∀ i, my = some i → (s.clients i).macAddr = mac)
    (j : Fin 8) : s₁.clients j = s.clients j ∨ (s₁.clients j).state = .idle ∧
      (s.clients j).macAddr = mac ∧ (s₁.clients j).ipAddr = (s.clients j).ipAddr := by
  by_cases hj : my = some j
  · rcases h.mine j hj with hs | hs
    · exact .inl hs
    · exact .inr ⟨hs.1, hmy j hj, hs.2⟩
  · exact .inl (h.other j hj)

theorem SwitchOk.ip (h : SwitchOk s my s₁ r) (j : Fin 8) : (s₁.clients j).ipAddr = (s.clients j).ipAddr := by
  by_cases hj : my = some j
  · rcases h.mine j hj with hs | hs
    · rw [hs]
    · exact hs.2
  · rw [h.other j hj]

/-- The client's own entry is the chosen one, or it was dropped. -/
theorem SwitchOk.not_mine (h : SwitchOk s my s₁ (some i)) (hmy : Found (List.finRange 8) my fun j =>
    (s.clients j).state ≠ .idle ∧ (s.clients j).macAddr = mac) (ht : TableOk s) (hj : j ≠ i)
    (hs₁ : (s₁.clients j).state ≠ .idle) : (s.clients j).macAddr ≠ mac := by
  intro hmac
  have hs : (s.clients j).state ≠ .idle := by
    intro he
    rcases h.dropped (fun k hk => (hmy.some k hk).2) j with hd | hd
    · exact hs₁ (by rw [hd, he])
    · exact hs₁ hd.1
  cases hk : my with
  | none => exact hmy.none hk j (List.mem_finRange j) ⟨hs, hmac⟩
  | some k =>
    obtain ⟨hk1, hk2⟩ := hmy.some k hk
    have hjk : j = k := ht.unique j k hs hk1 (by rw [hmac, hk2])
    subst hjk
    rcases h.chosen i rfl with hc | hc
    · rw [hk] at hc; exact hj (Option.some.inj hc)
    · exact hs₁ (hc.2 j hk)

/-- The entry that is served has its client written in first. -/
theorem smeHandle_setMac (s : DhcpServer) (i : Fin 8) (mac : Mac) (xid : UInt32) (msgType : UInt8) :
    let s' := (dhcpClientSmeHandle (s.setMac i mac) i msgType xid).1
    s' = { s with clients := s'.clients } ∧ (∀ j, (s'.clients j).ipAddr = (s.clients j).ipAddr) ∧
      (∀ j, j ≠ i → s'.clients j = s.clients j ∨
        (s'.clients j).state = .idle ∧ (s.clients j).state = .idle) ∧
      (s'.clients i).Active ∧ (s'.clients i).macAddr = mac := by
  obtain ⟨k1, ⟨ha, hm, hi⟩, k3⟩ := dhcpClientSmeHandle_ok (s.setMac i mac) i xid msgType
  have hself : (s.setMac i mac).clients i = { s.clients i with macAddr := mac } := setClient_self s i _
  refine ⟨k1, fun j => ?_, fun j hj => ?_, ha, by rw [hm, hself]⟩
  · by_cases hj : j = i
    · rw [hj, hi, hself]
    · have hk := k3 j hj
      rw [DhcpServer.setMac, setClient_other s i j _ hj] at hk
      rcases hk with hk | hk
      · exact congrArg _ hk
      · exact hk.2.2
  · have hk := k3 j hj
    rw [DhcpServer.setMac, setClient_other s i j _ hj] at hk
    rcases hk with hk | hk
    · exact .inl hk
    · exact .inr ⟨hk.1, hk.2.1⟩

/-- The message handler on a table: which entry it serves, and that the
client is in no other entry afterwards. -/
theorem dhcpsHandle_ok (s : DhcpServer) (m : DhcpRequest) (pbufAlloc : Bool) :
    ∃ r, HandleOk s m.mac (dhcpsHandle s m pbufAlloc).1 r ∧
      (TableOk s → ∀ i, r = some i → ∀ j, j ≠ i →
        ((dhcpsHandle s m pbufAlloc).1.clients j).state ≠ .idle → (s.clients j).macAddr ≠ m.mac) := by
  have hl := lookupScan_ok s.clients m.mac m.reqIpAddr
  have hw := lookupSwitch_ok m.msgType m.serverId hl
  unfold dhcpsHandle clientTableLookup
  generalize lookupScan s.clients m.mac m.reqIpAddr = l at *
  generalize lookupSwitch s l m.msgType m.serverId = sw at *
  obtain ⟨s₁, r⟩ := sw
  simp only at hw ⊢
  have hdrop := hw.dropped fun i hi => (hl.my.some i hi).2
  cases r with
  | none =>
    refine ⟨none, ⟨hw.server, hw.ip, fun j _ => ?_, nofun⟩, fun _ i h => nomatch h⟩
    rcases hdrop j with h | h
    · exact .inl h
    · exact .inr ⟨h.1, .inr h.2.1⟩
  | some i =>
    obtain ⟨k1, k2, k3, k4, k5⟩ := smeHandle_setMac s₁ i m.mac m.xid m.msgType
    generalize (dhcpClientSmeHandle (s₁.setMac i m.mac) i m.msgType m.xid).1 = s₂ at *
    refine ⟨some i, ⟨?_, fun j => (k2 j).trans (hw.ip j), fun j hj => ?_, fun k hk => ?_⟩,
      fun ht k hk j hj hs => ?_⟩
    · exact k1.trans (congrArg (fun t : DhcpServer => { t with clients := s₂.clients }) hw.server)
    · rcases k3 j fun e => hj (by rw [e]) with hk | ⟨hk, hk'⟩
      · rw [hk]
        rcases hdrop j with h | h
        · exact .inl h
        · exact .inr ⟨h.1, .inr h.2.1⟩
      · refine .inr ⟨hk, ?_⟩
        rcases hdrop j with h | h
        · exact .inl (h ▸ hk')
        · exact .inr h.2.1
    · cases hk
      refine ⟨?_, k4, k5⟩
      rcases hw.chosen i rfl with h | h
      · exact .inr (hl.my.some i h).2
      · exact .inl h.1
    · cases hk
      refine hw.not_mine hl.my ht hj fun he => ?_
      rcases k3 j hj with h | h
      · rw [h] at hs; exact hs he
      · exact hs h.1

/-! ## The invariant -/

/-- Entries that stay active keep their client. -/
theorem tableOk_mono (h : TableOk s) (hm : ∀ j, (s'.clients j).state ≠ .idle →
    (s'.clients j).state = (s.clients j).state ∧ (s'.clients j).macAddr = (s.clients j).macAddr) :
    TableOk s' := by
  refine ⟨fun i hi => ?_, fun i j hi hj he => ?_⟩
  · have := (hm i (by rw [hi]; decide)).1
    exact h.noSelect i (by rw [← this, hi])
  · obtain ⟨hi1, hi2⟩ := hm i hi
    obtain ⟨hj1, hj2⟩ := hm j hj
    exact h.unique i j (hi1 ▸ hi) (hj1 ▸ hj) (by rw [← hi2, ← hj2, he])

theorem tickClient_ok (station : Bool) (c : DhcpClient) :
    (tickClient station c).ipAddr = c.ipAddr ∧ ((tickClient station c).state ≠ .idle →
      (tickClient station c).state = c.state ∧ (tickClient station c).macAddr = c.macAddr) := by
  unfold tickClient
  split <;> rename_i h
  · split
    · split <;> simp [h]
    · simp
  · split
    · simp
    · cases station <;> simp [h]
  · simp

theorem tableOk_handle (h : TableOk s) (m : DhcpRequest) (pbufAlloc : Bool) :
    TableOk (dhcpsHandle s m pbufAlloc).1 := by
  obtain ⟨r, ⟨-, -, hother, hserved⟩, hsole⟩ := dhcpsHandle_ok s m pbufAlloc
  generalize (dhcpsHandle s m pbufAlloc).1 = s' at *
  -- an entry in use that is not the served one is as it was
  have hkeep : ∀ j, r ≠ some j → (s'.clients j).state ≠ .idle → s'.clients j = s.clients j := by
    intro j hj hs
    rcases hother j hj with h | h
    · exact h
    · exact absurd h.1 hs
  have hne : ∀ i j, r = some i → r ≠ some j → (s'.clients j).state ≠ .idle →
      (s'.clients i).macAddr ≠ (s'.clients j).macAddr := by
    intro i j hi hj hs he
    have hji : j ≠ i := fun e => hj (by rw [hi, e])
    refine hsole h i hi j hji hs ?_
    rw [← hkeep j hj hs, ← he, (hserved i hi).2.2]
  refine ⟨fun i hi => ?_, fun i j hi hj he => ?_⟩
  · by_cases hr : r = some i
    · rcases (hserved i hr).2.1 with h | h <;> rw [hi] at h <;> cases h
    · exact h.noSelect i (by rw [← hkeep i hr (by rw [hi]; decide), hi])
  · by_cases hri : r = some i
    · by_cases hrj : r = some j
      · exact Option.some.inj (hri.symm.trans hrj)
      · exact absurd he (hne i j hri hrj hj)
    · by_cases hrj : r = some j
      · exact absurd he.symm (hne j i hrj hri hi)
      · have hki := hkeep i hri hi
        have hkj := hkeep j hrj hj
        rw [hki] at hi he
        rw [hkj] at hj he
        exact h.unique i j hi hj he

theorem dhcpsClientDelete_ok (s : DhcpServer) (mac : Mac) :
    (dhcpsClientDelete s mac).1 = s ∨ ∃ i, (s.clients i).state = .bind ∧
      (dhcpsClientDelete s mac).1 = s.setState i .idle := by
  unfold dhcpsClientDelete
  split
  · exact .inl rfl
  split
  · exact .inl rfl
  · rename_i i _
    split
    · exact .inl rfl
    · rename_i hb; exact .inr ⟨i, by simpa using hb, rfl⟩

theorem tableOk_step (h : TableOk s) (e : DhcpEvent) : TableOk (dhcpStep s e) := by
  cases e with
  | message m pbufAlloc => exact tableOk_handle h m pbufAlloc
  | tick station =>
    refine tableOk_mono h fun j hj => ?_
    simp only [dhcpStep, dhcpTickHandle] at hj ⊢
    split at hj
    · rename_i he
      simp only [he, if_true]
      exact (tickClient_ok (station j) (s.clients j)).2 hj
    · rename_i he
      simp only [he]; exact ⟨rfl, rfl⟩
  | clientDelete mac =>
    refine tableOk_mono h fun j hj => ?_
    simp only [dhcpStep] at hj ⊢
    rcases dhcpsClientDelete_ok s mac with he | ⟨i, -, he⟩
    · rw [he]; exact ⟨rfl, rfl⟩
    · rw [he] at hj ⊢
      by_cases hji : j = i
      · subst hji; simp [DhcpServer.setState] at hj
      · rw [DhcpServer.setState, setClient_other _ _ _ _ hji]; exact ⟨rfl, rfl⟩

theorem tableOk_run (h : TableOk s) (es : List DhcpEvent) : TableOk (dhcpRun s es) :=
  Lib.run_inv h fun _ e ht => tableOk_step ht e

theorem dhcpsStart_ok {s₀ : DhcpServer} {netifIsUp udpNew : Bool} {ip netmask : UInt32}
    (h : dhcpsStart s₀ netifIsUp ip netmask udpNew = (s, .success)) :
    TableOk s ∧ s.enable = true ∧ ∀ i, (s.clients i).state = .idle := by
  unfold dhcpsStart at h
  split at h
  · cases h
  split at h
  · simp only [Prod.mk.injEq, and_true] at h
    subst h
    exact ⟨⟨fun i => by simp, fun i j hi => absurd rfl hi⟩, rfl, fun i => rfl⟩
  · cases h

/-- **Lease isolation.** In every run of a started server a client is active in
one entry at most, and a message changes no entry that is active for another. -/
theorem lease_isolation {s₀ : DhcpServer} {netifIsUp udpNew : Bool} {ip netmask : UInt32}
    (hs : dhcpsStart s₀ netifIsUp ip netmask udpNew = (s, .success)) (es : List DhcpEvent) :
    (∀ i j, ((dhcpRun s es).clients i).Active → ((dhcpRun s es).clients j).Active →
      ((dhcpRun s es).clients i).macAddr = ((dhcpRun s es).clients j).macAddr → i = j) ∧
    ∀ m pbufAlloc i, ((dhcpRun s es).clients i).Active → ((dhcpRun s es).clients i).macAddr ≠ m.mac →
      (dhcpsHandle (dhcpRun s es) m pbufAlloc).1.clients i = (dhcpRun s es).clients i := by
  have ht := tableOk_run (dhcpsStart_ok hs).1 es
  generalize dhcpRun s es = t at *
  refine ⟨fun i j hi hj he => ht.unique i j ((active_iff ht).mp hi) ((active_iff ht).mp hj) he,
    fun m pbufAlloc i hi hne => ?_⟩
  obtain ⟨r, ⟨-, -, hother, hserved⟩, -⟩ := dhcpsHandle_ok t m pbufAlloc
  have hidle := (active_iff ht).mp hi
  have hr : r ≠ some i := fun h => (hserved i h).1.elim hidle hne
  rcases hother i hr with h | ⟨-, h⟩
  · exact h
  · exact absurd h (not_or.mpr ⟨hidle, hne⟩)

end

def bootServer : DhcpServer := ⟨false, 0, 0, 0, 0, 0, 0, fun _ => ⟨.idle, 0, 0, zeroMac, 0⟩⟩

/-- A server started on 192.168.0.1/24 that has offered an address to one client. -/
theorem lease_isolation_offer :
    let s := (dhcpsStart bootServer true 0x0100a8c0 0x00ffffff true).1
    let es := [DhcpEvent.message ⟨Vector.replicate 6 1, dhcpMsgDiscover, 0, 0, 7⟩ true]
    (∀ i j, ((dhcpRun s es).clients i).Active → ((dhcpRun s es).clients j).Active →
      ((dhcpRun s es).clients i).macAddr = ((dhcpRun s es).clients j).macAddr → i = j) ∧
    ∀ m pbufAlloc i, ((dhcpRun s es).clients i).Active → ((dhcpRun s es).clients i).macAddr ≠ m.mac →
      (dhcpsHandle (dhcpRun s es) m pbufAlloc).1.clients i = (dhcpRun s es).clients i :=
  @lease_isolation _ bootServer true true 0x0100a8c0 0x00ffffff rfl _

end GizwitsSdk
