import GizwitsSdk.DhcpTable

/-!
# What the table remembers

An idle entry keeps the hardware address of its last client. A message writes its
client into the entry that it is served with, and may forget that client
elsewhere; no client is remembered by two idle entries, nor beside its lease.
-/

namespace GizwitsSdk

def servedEntry (s : DhcpServer) (m : DhcpRequest) : Option (Fin 8) :=
  (clientTableLookup s m.mac m.msgType m.reqIpAddr m.serverId).2

def IdleAt (s : DhcpServer) (ip : UInt32) : Prop :=
  ∃ k, (s.clients k).state = .idle ∧ (s.clients k).ipAddr = ip

def TakenFrom (s : DhcpServer) (mac : Mac) (ip : UInt32) : Prop :=
  ∃ k, (s.clients k).state ≠ .idle ∧ (s.clients k).macAddr ≠ mac ∧ (s.clients k).ipAddr = ip

/-- The message ends the negotiation of its client in entry `j`, or asks with a
`DISCOVER` for an idle address instead of the one it has there. -/
def GivesUp (s : DhcpServer) (m : DhcpRequest) (j : Fin 8) : Prop :=
  (s.clients j).state ≠ .idle ∧ (s.clients j).macAddr = m.mac ∧
    (m.msgType = dhcpMsgDiscover ∧ IdleAt s m.reqIpAddr ∨
      (s.clients j).state ≠ .bind ∧ (m.msgType = dhcpMsgRelease ∨ m.msgType = dhcpMsgDecline ∨
        m.msgType = dhcpMsgRequest ∧ (IdleAt s m.reqIpAddr ∨ TakenFrom s m.mac m.reqIpAddr)))

instance (s : DhcpServer) (ip : UInt32) : Decidable (IdleAt s ip) := inferInstanceAs (Decidable (∃ _, _))

instance (s : DhcpServer) (mac : Mac) (ip : UInt32) : Decidable (TakenFrom s mac ip) :=
  inferInstanceAs (Decidable (∃ _, _))

instance (s : DhcpServer) (m : DhcpRequest) (j : Fin 8) : Decidable (GivesUp s m j) :=
  inferInstanceAs (Decidable (_ ∧ _))

/-! ## An entry that is not served -/

/-- What becomes of an entry that the message is not served with. -/
inductive EntryAfter (s : DhcpServer) (m : DhcpRequest) (bound : Prop) (j : Fin 8) (c : DhcpClient) : Prop
  | same (h : c = s.clients j)
  /-- a lease that ends -/
  | kept (hb : (s.clients j).state = .bind) (hm : (s.clients j).macAddr = m.mac)
      (h : c = { s.clients j with state := .idle })
  | gaveUp (hg : GivesUp s m j) (hs : c.state = .idle) (h : c.macAddr = zeroMac)
  /-- the client is bound now, and forgotten here -/
  | forgotten (hb : bound) (hm : (s.clients j).macAddr = m.mac) (hs : c.state = .idle) (h : c.macAddr = zeroMac)

section
variable {s : DhcpServer} {m : DhcpRequest} {my j : Fin 8}

theorem dropClient_entry (hm : (s.clients my).macAddr = m.mac)
    (hg : (s.clients my).state ≠ .bind → GivesUp s m my) (j : Fin 8) :
    EntryAfter s m False j ((dropClient s my).clients j) := by
  by_cases hj : j = my
  · subst hj
    unfold dropClient DhcpServer.setState DhcpServer.setMac
    by_cases hb : (s.clients j).state = .bind
    · rw [if_neg (not_not.mpr hb), setClient_self]
      exact .kept hb hm rfl
    · rw [if_pos hb, setClient_self, setClient_self]
      exact .gaveUp (hg hb) rfl rfl
  · exact .same (dropClient_other s my j hj)

theorem lookupSwitch_entry (m : DhcpRequest) (j : Fin 8)
    (hj : (lookupSwitch s (lookupScan s.clients m.mac m.reqIpAddr) m.msgType m.serverId).2 ≠ some j) :
    EntryAfter s m False j
      ((lookupSwitch s (lookupScan s.clients m.mac m.reqIpAddr) m.msgType m.serverId).1.clients j) := by
  have hl := lookupScan_ok s.clients m.mac m.reqIpAddr
  generalize lookupScan s.clients m.mac m.reqIpAddr = l at *
  have hreq (k : Fin 8) (hk : l.pReqClient = some k) : IdleAt s m.reqIpAddr := ⟨k, hl.req.some k hk⟩
  have hdrop (my : Fin 8) (hmy : l.pMyClient = some my)
      (h : m.msgType = dhcpMsgRelease ∨ m.msgType = dhcpMsgDecline ∨
        m.msgType = dhcpMsgRequest ∧ (IdleAt s m.reqIpAddr ∨ TakenFrom s m.mac m.reqIpAddr)) :
      EntryAfter s m False j ((dropClient s my).clients j) := by
    obtain ⟨hs, hm⟩ := hl.my.some my hmy
    exact dropClient_entry hm (fun hb => ⟨hs, hm, .inr ⟨hb, h⟩⟩) j
  generalize hs' : (lookupSwitch s l m.msgType m.serverId).1 = s'
  generalize hr : (lookupSwitch s l m.msgType m.serverId).2 = r at hj
  have hsw := lookupSwitch_cases s l m.msgType m.serverId
  rw [hs', hr] at hsw
  cases hsw with
  | discover => exact .same rfl
  | @discoverMine my => exact .same (setClient_other s my j _ fun e => hj (by rw [e]))
  | @discoverMoved my k ht hmy hk =>
    obtain ⟨hs, hm⟩ := hl.my.some my hmy
    simp only [DhcpServer.setState, DhcpServer.setMac, setClient_self]
    by_cases hjm : j = my
    · subst hjm
      rw [setClient_self]
      exact .gaveUp ⟨hs, hm, .inl ⟨ht, hreq k hk⟩⟩ rfl rfl
    · rw [setClient_other _ my j _ hjm, setClient_other s my j _ hjm]
      exact .same rfl
  | request => exact .same rfl
  | requestTaken ht hmy hu =>
    obtain ⟨k, -, hk⟩ := hl.taken.mp hu
    exact hdrop _ hmy (.inr (.inr ⟨ht, .inr ⟨k, hk⟩⟩))
  | requestMine => exact .same rfl
  | @requestMoved my k ht hmy hu hk => exact hdrop _ hmy (.inr (.inr ⟨ht, .inl (hreq k hk)⟩))
  | released ht hmy => exact hdrop _ hmy (or_assoc.mp (.inl ht))
  | ignored => exact .same rfl

/-! ## A message -/

variable {t : DhcpServer} {i : Fin 8} {xid : UInt32}

/-- Entry `i` is bound, and its client forgotten in the idle entries. -/
structure AckSent (t : DhcpServer) (i : Fin 8) (s' : DhcpServer) : Prop where
  state : (s'.clients i).state = .bind
  cleaned : ∀ j, (s'.clients j).state = .idle → (s'.clients j).macAddr = (t.clients i).macAddr →
    (t.clients i).macAddr = zeroMac
  other : ∀ j, j ≠ i → s'.clients j = t.clients j ∨
    (t.clients j).macAddr = (t.clients i).macAddr ∧ (s'.clients j).state = .idle ∧
      (s'.clients j).macAddr = zeroMac

theorem ackClient_acked : AckSent t i (ackClient t i xid).1 := by
  refine ⟨?_, fun j hs hm => ?_, fun j hj => ?_⟩
  · simp [ackClient, cleanClientHistory]
  · revert hs hm
    simp only [ackClient, cleanClientHistory, setClient_self]
    split
    · exact fun _ hm => hm.symm
    · next hn => exact fun hs hm => absurd ⟨hs, hm⟩ hn
  · simp only [ackClient, cleanClientHistory, setClient_self, setClient_other _ _ _ _ hj]
    split
    · next h => exact .inr ⟨h.2, h.1, rfl⟩
    · exact .inl rfl

/-- The state machine acknowledges the entry, or offers it and leaves the others alone. -/
theorem smeHandle_acked (msgType : UInt8) :
    AckSent t i (dhcpClientSmeHandle t i msgType xid).1 ∨
      ((dhcpClientSmeHandle t i msgType xid).1.clients i).state = .request ∧
        ∀ j, j ≠ i → (dhcpClientSmeHandle t i msgType xid).1.clients j = t.clients j := by
  have hoffer (u : DhcpServer) (hu : ∀ j, j ≠ i → u.clients j = t.clients j) :
      ((offerClient u i xid).1.clients i).state = .request ∧
        ∀ j, j ≠ i → (offerClient u i xid).1.clients j = t.clients j := by
    refine ⟨by simp [offerClient], fun j hj => ?_⟩
    rw [← hu j hj]
    exact setClient_other u i j _ hj
  unfold dhcpClientSmeHandle
  cases (t.clients i).state with
  | idle =>
    dsimp only
    split
    · exact .inr (hoffer _ fun j hj => setClient_other t i j _ hj)
    split
    · exact .inl ackClient_acked
    · exact .inr (hoffer t fun _ _ => rfl)
  | select => exact .inr (hoffer t fun _ _ => rfl)
  | request => exact .inl ackClient_acked
  | bind => exact .inl ackClient_acked

structure MessageOk (s : DhcpServer) (m : DhcpRequest) (s' : DhcpServer) : Prop where
  served : ∀ i, servedEntry s m = some i → (s'.clients i).macAddr = m.mac ∧ (s'.clients i).Active ∧
    ((s.clients i).state = .idle ∨ (s.clients i).macAddr = m.mac)
  cleaned : ∀ i, servedEntry s m = some i → (s'.clients i).state = .bind → ∀ j,
    (s'.clients j).state = .idle → (s'.clients j).macAddr = m.mac → m.mac = zeroMac
  other : ∀ j, servedEntry s m ≠ some j → EntryAfter s m
    (∃ i, servedEntry s m = some i ∧ (s'.clients i).state = .bind) j (s'.clients j)

theorem EntryAfter.mono {p q : Prop} {c : DhcpClient} (h : EntryAfter s m p j c) (hpq : p → q) :
    EntryAfter s m q j c := by
  cases h with
  | same h => exact .same h
  | kept hb hm h => exact .kept hb hm h
  | gaveUp hg hs h => exact .gaveUp hg hs h
  | forgotten hb hm hs h => exact .forgotten (hpq hb) hm hs h

theorem EntryAfter.mac_of {p : Prop} {c : DhcpClient} (h : EntryAfter s m p j c)
    (hm : c.macAddr = m.mac) : (s.clients j).macAddr = m.mac := by
  cases h with
  | same h => rw [← h, hm]
  | kept hb hm' h => exact hm'
  | gaveUp hg hs h => exact hg.2.1
  | forgotten hb hm' hs h => exact hm'

theorem servedEntry_eq (s : DhcpServer) (m : DhcpRequest) : servedEntry s m =
    (lookupSwitch s (lookupScan s.clients m.mac m.reqIpAddr) m.msgType m.serverId).2 := by
  unfold servedEntry clientTableLookup
  generalize lookupSwitch s (lookupScan s.clients m.mac m.reqIpAddr) m.msgType m.serverId = sw
  obtain ⟨s₁, r⟩ := sw
  cases r <;> rfl

theorem dhcpsHandle_message (s : DhcpServer) (m : DhcpRequest) (pbufAlloc : Bool) :
    MessageOk s m (dhcpsHandle s m pbufAlloc).1 := by
  have hl := lookupScan_ok s.clients m.mac m.reqIpAddr
  have hw := lookupSwitch_ok m.msgType m.serverId hl
  have hother := lookupSwitch_entry (s := s) m
  have hr := servedEntry_eq s m
  unfold dhcpsHandle clientTableLookup
  generalize lookupSwitch s (lookupScan s.clients m.mac m.reqIpAddr) m.msgType m.serverId = sw at *
  obtain ⟨s₁, r⟩ := sw
  dsimp only at hr
  cases r with
  | none =>
    refine ⟨fun i hi => ?_, fun i hi => ?_, fun j _ => (hother j nofun).mono False.elim⟩ <;>
      exact absurd (hr.symm.trans hi) nofun
  | some i =>
    have hsme := @smeHandle_acked (s₁.setMac i m.mac) i m.xid m.msgType
    obtain ⟨-, -, -, hact, hmac⟩ := smeHandle_setMac s₁ i m.mac m.xid m.msgType
    dsimp only at hother ⊢
    generalize (dhcpClientSmeHandle (s₁.setMac i m.mac) i m.msgType m.xid).1 = s₂ at *
    have hti : ((s₁.setMac i m.mac).clients i).macAddr = m.mac := by
      rw [DhcpServer.setMac, setClient_self]
    have htj (j : Fin 8) (hj : j ≠ i) : (s₁.setMac i m.mac).clients j = s₁.clients j :=
      setClient_other s₁ i j _ hj
    refine ⟨fun k hk => ?_, fun k hk hb j hs hm => ?_, fun j hj => ?_⟩
    · obtain rfl := Option.some.inj (hr.symm.trans hk)
      refine ⟨hmac, hact, ?_⟩
      rcases hw.chosen i rfl with h | h
      · exact .inr (hl.my.some i h).2
      · exact .inl h.1
    · obtain rfl := Option.some.inj (hr.symm.trans hk)
      rcases hsme with ha | ⟨ho, -⟩
      · rw [← hti]
        exact ha.cleaned j hs (by rw [hti, hm])
      · rw [hb] at ho
        cases ho
    · have hji : j ≠ i := fun e => hj (by rw [hr, e])
      have he := hother j fun e => hji (Option.some.inj e).symm
      rcases hsme with ha | ⟨-, ho⟩
      · rcases ha.other j hji with h | ⟨hm, hs, hz⟩
        · rw [h, htj j hji]
          exact he.mono False.elim
        · rw [htj j hji, hti] at hm
          exact .forgotten ⟨i, hr, ha.state⟩ (he.mac_of hm) hs hz
      · rw [ho j hji, htj j hji]
        exact he.mono False.elim

end

/-! ## The invariant -/

/-- No client is remembered twice, nor beside a lease of its own. -/
structure HistoryOk (s : DhcpServer) : Prop where
  table : TableOk s
  idle : ∀ i j, (s.clients i).state = .idle → (s.clients j).state = .idle →
    (s.clients i).macAddr = (s.clients j).macAddr → (s.clients i).macAddr ≠ zeroMac → i = j
  bound : ∀ i j, (s.clients i).state = .bind → (s.clients j).state = .idle →
    (s.clients i).macAddr = (s.clients j).macAddr → (s.clients i).macAddr = zeroMac

section
variable {s s' : DhcpServer}

/-- An entry that stays as it is, ends a lease, or forgets its client. -/
structure Fades (c c' : DhcpClient) : Prop where
  bound : c'.state = .bind → c.state = .bind ∧ c'.macAddr = c.macAddr
  idle : c'.state = .idle → c'.macAddr ≠ zeroMac →
    c'.macAddr = c.macAddr ∧ (c.state = .idle ∨ c.state = .bind)

/-- Entries that fade remember no client twice, nor beside the entry `r` that is served. -/
theorem historyOk_fades {r : Option (Fin 8)} (h : HistoryOk s) (ht : TableOk s')
    (hf : ∀ j, r ≠ some j → Fades (s.clients j) (s'.clients j))
    (hr : ∀ i, r = some i → (s'.clients i).state ≠ .idle ∧ ((s'.clients i).state = .bind → ∀ j,
      (s'.clients j).state = .idle → (s'.clients i).macAddr = (s'.clients j).macAddr →
        (s'.clients i).macAddr = zeroMac)) : HistoryOk s' := by
  have hidle (j : Fin 8) (hj : (s'.clients j).state = .idle) : r ≠ some j := fun e => (hr j e).1 hj
  refine ⟨ht, fun i j hi hj he h0 => ?_, fun i j hi hj he => ?_⟩
  · obtain ⟨hmi, hsi⟩ := (hf i (hidle i hi)).idle hi h0
    obtain ⟨hmj, hsj⟩ := (hf j (hidle j hj)).idle hj (he ▸ h0)
    have hm : (s.clients i).macAddr = (s.clients j).macAddr := by rw [← hmi, ← hmj, he]
    rw [hmi] at h0
    rcases hsi with hsi | hsi <;> rcases hsj with hsj | hsj
    · exact h.idle i j hsi hsj hm h0
    · exact absurd (hm ▸ h.bound j i hsj hsi hm.symm) h0
    · exact absurd (h.bound i j hsi hsj hm) h0
    · exact h.table.unique i j (by rw [hsi]; decide) (by rw [hsj]; decide) hm
  · by_cases hi' : r = some i
    · exact (hr i hi').2 hi j hj he
    · obtain ⟨hsi, hmi⟩ := (hf i hi').bound hi
      by_contra h0
      obtain ⟨hmj, hsj⟩ := (hf j (hidle j hj)).idle hj (he ▸ h0)
      have hm : (s.clients i).macAddr = (s.clients j).macAddr := by rw [← hmi, ← hmj, he]
      rcases hsj with hsj | hsj
      · exact h0 (hmi.trans (h.bound i j hsi hsj hm))
      · obtain rfl := h.table.unique i j (by rw [hsi]; decide) (by rw [hsj]; decide) hm
        rw [hi] at hj
        cases hj

theorem EntryAfter.fades {m : DhcpRequest} {p : Prop} {j : Fin 8} {c : DhcpClient} (h : EntryAfter s m p j c) :
    Fades (s.clients j) c := by
  cases h with
  | same h =>
    rw [h]
    exact ⟨fun h => ⟨h, rfl⟩, fun h _ => ⟨rfl, .inl h⟩⟩
  | kept hb hm h =>
    rw [h]
    exact ⟨nofun, fun _ _ => ⟨rfl, .inr hb⟩⟩
  | gaveUp hg hs hz => exact ⟨fun hb => absurd (hs.symm.trans hb) (by decide), fun _ h0 => absurd hz h0⟩
  | forgotten hb hm hs hz => exact ⟨fun hb => absurd (hs.symm.trans hb) (by decide), fun _ h0 => absurd hz h0⟩

theorem tickClient_fades (station : Bool) (c : DhcpClient) : Fades c (tickClient station c) := by
  unfold tickClient
  split <;> rename_i hc
  · split
    · split
      · exact ⟨nofun, fun _ h0 => absurd rfl h0⟩
      · exact ⟨fun h => absurd (hc.symm.trans h) (by decide), fun h => absurd (hc.symm.trans h) (by decide)⟩
    · exact ⟨fun h => ⟨h, rfl⟩, fun h _ => ⟨rfl, .inl h⟩⟩
  · split
    · exact ⟨nofun, fun _ _ => ⟨rfl, .inr hc⟩⟩
    · cases station
      · exact ⟨nofun, fun _ _ => ⟨rfl, .inr hc⟩⟩
      · exact ⟨fun _ => ⟨hc, rfl⟩, fun h => absurd (hc.symm.trans h) (by decide)⟩
  · exact ⟨fun h => ⟨h, rfl⟩, fun h _ => ⟨rfl, .inl h⟩⟩

theorem historyOk_step (h : HistoryOk s) (e : DhcpEvent) : HistoryOk (dhcpStep s e) := by
  have ht := tableOk_step h.table e
  have hsame (c : DhcpClient) : Fades c c := ⟨fun h => ⟨h, rfl⟩, fun h _ => ⟨rfl, .inl h⟩⟩
  have hnone (hf : ∀ j, Fades (s.clients j) ((dhcpStep s e).clients j)) : HistoryOk (dhcpStep s e) :=
    historyOk_fades (r := none) h ht (fun j _ => hf j) fun i hi => absurd hi (by simp)
  cases e with
  | tick station =>
    refine hnone fun j => ?_
    simp only [dhcpStep, dhcpTickHandle]
    split
    · exact tickClient_fades (station j) (s.clients j)
    · exact hsame _
  | clientDelete mac =>
    refine hnone fun j => ?_
    simp only [dhcpStep]
    rcases dhcpsClientDelete_ok s mac with he | ⟨i, hb, he⟩
    · rw [he]
      exact hsame _
    · rw [he]
      by_cases hj : j = i
      · subst hj
        rw [DhcpServer.setState, setClient_self]
        exact ⟨fun hi => absurd hi (by simp), fun _ _ => ⟨rfl, .inr hb⟩⟩
      · rw [DhcpServer.setState, setClient_other _ _ _ _ hj]
        exact hsame _
  | message m pbufAlloc =>
    have hok : MessageOk s m (dhcpStep s (.message m pbufAlloc)) := dhcpsHandle_message s m pbufAlloc
    refine historyOk_fades h ht (fun j hj => (hok.other j hj).fades) fun i hi => ?_
    obtain ⟨hmac, hact, -⟩ := hok.served i hi
    refine ⟨?_, fun hb j hj he => ?_⟩
    · rcases hact with ha | ha <;> rw [ha] <;> decide
    · rw [hmac] at he ⊢
      exact hok.cleaned i hi hb j hj he.symm

theorem historyOk_run (h : HistoryOk s) (es : List DhcpEvent) : HistoryOk (dhcpRun s es) :=
  Lib.run_inv h fun _ e ht => historyOk_step ht e

end

end GizwitsSdk
