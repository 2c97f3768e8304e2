import GizwitsSdk.Lib.Netmask
import Mathlib.Logic.Function.Basic
import Mathlib.Data.List.FinRange
import Mathlib.Tactic.IntervalCases

/-!
# The DHCP server of `dhcp_server.c`

Eight entries, each with an address of its own, go from `idle` through an
offer (`request`) to a lease (`bind`). A message looks up the entry to serve
it with, then drives that entry. Addresses and identifiers are 32-bit words as
they lie in memory (network order).
-/

namespace GizwitsSdk

abbrev Mac := Vector UInt8 6

def zeroMac : Mac := Vector.replicate 6 0

def htonl (x : UInt32) : UInt32 :=
  (x <<< 24) ||| ((x &&& (0xff00 : UInt32)) <<< 8) ||| ((x >>> 8) &&& (0xff00 : UInt32)) ||| (x >>> 24)

theorem htonl_bit (x : UInt32) {i : Nat} (h : i < 32) :
    (htonl x).toBitVec.getLsbD i = x.toBitVec.getLsbD (i ^^^ 24) := by
  unfold htonl
  simp only [UInt32.toBitVec_or, UInt32.toBitVec_and, UInt32.toBitVec_shiftLeft,
    UInt32.toBitVec_shiftRight, BitVec.getLsbD_or]
  interval_cases i <;> simp

theorem swap_lt {i : Nat} (h : i < 32) : i ^^^ 24 < 32 :=
  Nat.xor_lt_two_pow (n := 5) h (by decide)

@[simp] theorem htonl_htonl (x : UInt32) : htonl (htonl x) = x := by
  apply u32_ext
  intro i hi
  rw [htonl_bit _ hi, htonl_bit _ (swap_lt hi), Nat.xor_assoc, Nat.xor_self, Nat.xor_zero]

theorem htonl_inj {x y : UInt32} : htonl x = htonl y ↔ x = y := by
  refine ⟨fun h => ?_, fun h => by rw [h]⟩
  rw [← htonl_htonl x, h, htonl_htonl]

theorem htonl_and (x y : UInt32) : htonl (x &&& y) = htonl x &&& htonl y := by
  apply u32_ext
  intro i hi
  simp only [UInt32.toBitVec_and, BitVec.getLsbD_and, htonl_bit _ hi]

theorem htonl_or (x y : UInt32) : htonl (x ||| y) = htonl x ||| htonl y := by
  apply u32_ext
  intro i hi
  simp only [UInt32.toBitVec_or, BitVec.getLsbD_or, htonl_bit _ hi]

theorem htonl_not (x : UInt32) : htonl (~~~x) = ~~~htonl x := by
  apply u32_ext
  intro i hi
  simp only [UInt32.toBitVec_not, BitVec.getLsbD_not, htonl_bit _ hi, hi, swap_lt hi]

/-! ## The table -/

inductive DhcpClientState
  | idle
  | select
  | request
  | bind
  deriving DecidableEq, Repr

/-- `DHCP_CLIENT`; `timeout` and `lease` only ever count down from a constant. -/
structure DhcpClient where
  state : DhcpClientState
  timeout : Nat
  ipAddr : UInt32
  macAddr : Mac
  lease : Nat
  deriving DecidableEq

/-- `DHCP_SERVER`, less the UDP socket and the second DNS server, which stay unset. -/
structure DhcpServer where
  enable : Bool
  serverIpAddr : UInt32
  startIpAddr : UInt32
  subnetMask : UInt32
  gateWay : UInt32
  dns1 : UInt32
  leaseTime : Nat
  clients : Fin 8 → DhcpClient

namespace DhcpServer

def setClient (s : DhcpServer) (i : Fin 8) (c : DhcpClient) : DhcpServer :=
  { s with clients := Function.update s.clients i c }

def setState (s : DhcpServer) (i : Fin 8) (st : DhcpClientState) : DhcpServer :=
  s.setClient i { s.clients i with state := st }

def setMac (s : DhcpServer) (i : Fin 8) (mac : Mac) : DhcpServer :=
  s.setClient i { s.clients i with macAddr := mac }

end DhcpServer

def dhcpDefaultLeaseTime : Nat := 3600 * 24 * 365 * 10

def dhcpDeffaultTimeout : Nat := 10

def dhcpMsgDiscover : UInt8 := 1
def dhcpMsgOffer : UInt8 := 2
def dhcpMsgRequest : UInt8 := 3
def dhcpMsgDecline : UInt8 := 4
def dhcpMsgAck : UInt8 := 5
def dhcpMsgNak : UInt8 := 6
def dhcpMsgRelease : UInt8 := 7

/-! ## Start, tick and delete -/

inductive DhcpsErr
  | success
  | linkdown
  | mem
  | notBind
  | notFound
  | inactive
  deriving DecidableEq, Repr

/-- The host part that follows `host` by `i`, 0 skipped. -/
def poolHost (mask host i : UInt32) : UInt32 :=
  if (host + i) % (~~~mask) ≠ 0 then (host + i) % (~~~mask) else 1

/-- The address `i` places after `base` in its subnet. -/
def poolAddr (base netmask i : UInt32) : UInt32 :=
  let val := htonl base
  let mask := htonl netmask
  htonl ((val &&& mask) ||| poolHost mask (val &&& ~~~mask) i)

/-- `DHCPS_Start` on an interface with its address and mask; `udpNew` says
whether a UDP control block could be had. -/
def dhcpsStart (s : DhcpServer) (netifIsUp : Bool) (ipAddr netmask : UInt32) (udpNew : Bool) :
    DhcpServer × DhcpsErr :=
  if !netifIsUp then (s, .linkdown)
  else
    let start := poolAddr ipAddr netmask 1
    let s : DhcpServer :=
      { enable := false
        serverIpAddr := ipAddr
        startIpAddr := start
        subnetMask := netmask
        gateWay := ipAddr
        dns1 := ipAddr
        leaseTime := dhcpDefaultLeaseTime
        clients := fun i =>
          { state := .idle
            timeout := 0
            ipAddr := poolAddr start netmask (UInt32.ofNat i)
            macAddr := zeroMac
            lease := dhcpDefaultLeaseTime } }
    if udpNew then ({ s with enable := true }, .success) else (s, .mem)

/-- `_DhcpTickHandle` on one entry; `station` is what `APGetStationStatus`
answers for its address. -/
def tickClient (station : Bool) (c : DhcpClient) : DhcpClient :=
  match c.state with
  | .request =>
    if c.timeout ≠ 0 then
      if c.timeout - 1 = 0 then { c with timeout := 0, macAddr := zeroMac, state := .idle }
      else { c with timeout := c.timeout - 1 }
    else c
  | .bind =>
    if c.lease ≠ 0 ∧ c.lease - 1 = 0 then { c with lease := 0, state := .idle }
    else
      let c := { c with lease := c.lease - 1 }
      if station then c else { c with state := .idle }
  | _ => c

def dhcpTickHandle (station : Fin 8 → Bool) (s : DhcpServer) : DhcpServer :=
  if s.enable then { s with clients := fun i => tickClient (station i) (s.clients i) } else s

def dhcpsClientDelete (s : DhcpServer) (mac : Mac) : DhcpServer × DhcpsErr :=
  if !s.enable then (s, .inactive)
  else
    match (List.finRange 8).find? fun i =>
        (s.clients i).state ≠ .idle ∧ (s.clients i).macAddr = mac with
    | none => (s, .notFound)
    | some i =>
      if (s.clients i).state ≠ .bind then (s, .notBind) else (s.setState i .idle, .success)

/-! ## The lookup -/

structure LookupSt where
  ipUnavailable : Bool
  pFreeClient : Option (Fin 8)
  pReqClient : Option (Fin 8)
  pMyHistoryClient : Option (Fin 8)
  pHistoryClient : Option (Fin 8)
  pMyClient : Option (Fin 8)

/-- `if(p == NULL && cond) p = pClient;` -/
def takeFirst (p : Option (Fin 8)) (cond : Bool) (i : Fin 8) : Option (Fin 8) :=
  if p = none ∧ cond then some i else p

def lookupStep (clients : Fin 8 → DhcpClient) (mac : Mac) (reqIpAddr : UInt32) (l : LookupSt)
    (i : Fin 8) : LookupSt :=
  let c := clients i
  if c.state = .idle then
    { l with
      pMyHistoryClient := takeFirst l.pMyHistoryClient (c.macAddr = mac) i
      pReqClient := takeFirst l.pReqClient (c.ipAddr = reqIpAddr) i
      pFreeClient := takeFirst l.pFreeClient (c.macAddr = zeroMac) i
      pHistoryClient := takeFirst l.pHistoryClient (c.macAddr ≠ zeroMac) i }
  else if c.macAddr = mac then { l with pMyClient := some i }
  else if c.ipAddr = reqIpAddr then { l with ipUnavailable := true }
  else l

def lookupScan (clients : Fin 8 → DhcpClient) (mac : Mac) (reqIpAddr : UInt32) : LookupSt :=
  (List.finRange 8).foldl (lookupStep clients mac reqIpAddr) ⟨false, none, none, none, none, none⟩

/-- `if(p->State != BIND) memset(p->MacAddr, 0, 6); p->State = IDLE;` -/
def dropClient (s : DhcpServer) (i : Fin 8) : DhcpServer :=
  let s := if (s.clients i).state ≠ .bind then s.setMac i zeroMac else s
  s.setState i .idle

def lookupSwitch (s : DhcpServer) (l : LookupSt) (msgType : UInt8) (serverId : UInt32) :
    DhcpServer × Option (Fin 8) :=
  let mine := serverId = 0 ∨ s.serverIpAddr = serverId
  if msgType = dhcpMsgDiscover then
    match l.pMyClient with
    | some my =>
      -- the state is idle by the time the code asks whether it is `bind`
      let s := s.setState my .idle
      match l.pReqClient with
      | some req => (if (s.clients my).state ≠ .bind then s.setMac my zeroMac else s, some req)
      | none => (s, some my)
    | none =>
      (s, l.pReqClient.or (l.pMyHistoryClient.or (l.pFreeClient.or l.pHistoryClient)))
  else if msgType = dhcpMsgRequest then
    match l.pMyClient with
    | some my =>
      if l.ipUnavailable then (dropClient s my, none)
      else
        match l.pReqClient with
        | some req => (dropClient s my, if mine then some req else none)
        | none => (s, if mine then some my else none)
    | none => (s, if l.ipUnavailable then none else if mine then l.pReqClient else none)
  else if msgType = dhcpMsgRelease ∨ msgType = dhcpMsgDecline then
    match l.pMyClient with
    | some my => (dropClient s my, none)
    | none => (s, none)
  else (s, none)

def clientTableLookup (s : DhcpServer) (mac : Mac) (msgType : UInt8) (reqIpAddr serverId : UInt32) :
    DhcpServer × Option (Fin 8) :=
  match lookupSwitch s (lookupScan s.clients mac reqIpAddr) msgType serverId with
  | (s, some i) => (s.setMac i mac, some i)
  | (s, none) => (s, none)

/-! ## Replies -/

/-- The fields of a reply that are set, and its options in their order; a
four-byte value is given as the word in memory. -/
structure DhcpReply where
  op : UInt8
  hType : UInt8
  hLen : UInt8
  magic : UInt32
  xid : UInt32
  yiaddr : UInt32
  siaddr : UInt32
  chaddr : Mac
  msgType : UInt8
  options : List (UInt8 × UInt32)
  deriving DecidableEq

def dhcpOpReply : UInt8 := 2
def dhcpHwtypeEthernet : UInt8 := 1
def dhcpMagic : UInt32 := 0x63825363

def dhcpOptionSubnetMask : UInt8 := 1
def dhcpOptionDefGw : UInt8 := 3
def dhcpOptionDnsServer : UInt8 := 6
def dhcpOptionLeaseTime : UInt8 := 51
def dhcpOptionServerId : UInt8 := 54

def dhcpNakGen (s : DhcpServer) (mac : Mac) (xid : UInt32) : DhcpReply :=
  { op := dhcpOpReply
    hType := dhcpHwtypeEthernet
    hLen := 6
    magic := htonl dhcpMagic
    xid := htonl xid
    yiaddr := 0
    siaddr := s.serverIpAddr
    chaddr := mac
    msgType := dhcpMsgNak
    options := [] }

/-- `_DHCPAckGenAndSend` and `_DHCPOfferGenAndSend`, which differ in the type alone. -/
def dhcpGrantGen (msgType : UInt8) (s : DhcpServer) (i : Fin 8) (mac : Mac) (xid : UInt32) :
    DhcpReply :=
  { op := dhcpOpReply
    hType := dhcpHwtypeEthernet
    hLen := 6
    magic := htonl dhcpMagic
    xid := htonl xid
    yiaddr := (s.clients i).ipAddr
    siaddr := 0
    chaddr := mac
    msgType
    options :=
      [(dhcpOptionLeaseTime, htonl (UInt32.ofNat dhcpDefaultLeaseTime)),
        (dhcpOptionServerId, s.serverIpAddr), (dhcpOptionSubnetMask, s.subnetMask),
        (dhcpOptionDefGw, s.gateWay), (dhcpOptionDnsServer, s.dns1)] }

def dhcpAckGen := dhcpGrantGen dhcpMsgAck
def dhcpOfferGen := dhcpGrantGen dhcpMsgOffer

/-! ## The state machine -/

def cleanClientHistory (s : DhcpServer) (mac : Mac) : DhcpServer :=
  { s with clients := fun i =>
      if (s.clients i).state = .idle ∧ (s.clients i).macAddr = mac then
        { s.clients i with macAddr := zeroMac }
      else s.clients i }

def ackClient (s : DhcpServer) (i : Fin 8) (xid : UInt32) : DhcpServer × DhcpReply :=
  let reply := dhcpAckGen s i (s.clients i).macAddr xid
  let s := s.setClient i { s.clients i with lease := dhcpDefaultLeaseTime, state := .bind }
  (cleanClientHistory s (s.clients i).macAddr, reply)

def offerClient (s : DhcpServer) (i : Fin 8) (xid : UInt32) : DhcpServer × DhcpReply :=
  let reply := dhcpOfferGen s i (s.clients i).macAddr xid
  (s.setClient i { s.clients i with timeout := dhcpDeffaultTimeout, state := .request }, reply)

/-- `_DhcpClientSMEHandle`; the idle case falls through to the offer. -/
def dhcpClientSmeHandle (s : DhcpServer) (i : Fin 8) (msgType : UInt8) (xid : UInt32) :
    DhcpServer × DhcpReply :=
  match (s.clients i).state with
  | .idle =>
    if msgType = dhcpMsgDiscover then offerClient (s.setState i .select) i xid
    else if msgType = dhcpMsgRequest then ackClient s i xid
    else offerClient s i xid
  | .select => offerClient s i xid
  | .request | .bind => ackClient s i xid

/-- A message that passed the checks of `DHCPS_RecvCb`. -/
structure DhcpRequest where
  mac : Mac
  msgType : UInt8
  reqIpAddr : UInt32
  serverId : UInt32
  xid : UInt32

/-- `DHCPS_RecvCb` from the lookup on; `pbufAlloc` says whether the reply got
a packet buffer. -/
def dhcpsHandle (s : DhcpServer) (m : DhcpRequest) (pbufAlloc : Bool) :
    DhcpServer × Option DhcpReply :=
  match clientTableLookup s m.mac m.msgType m.reqIpAddr m.serverId with
  | (s, none) =>
    (s, if m.msgType ≠ dhcpMsgRelease ∧ m.msgType ≠ dhcpMsgDecline ∧ pbufAlloc then
      some (dhcpNakGen s m.mac m.xid) else none)
  | (s, some i) =>
    let (s, reply) := dhcpClientSmeHandle s i m.msgType m.xid
    (s, if pbufAlloc then some reply else none)

/-! ## Runs -/

inductive DhcpEvent
  | message (m : DhcpRequest) (pbufAlloc : Bool)
  | tick (station : Fin 8 → Bool)
  | clientDelete (mac : Mac)

def dhcpStep (s : DhcpServer) : DhcpEvent → DhcpServer
  | .message m pbufAlloc => (dhcpsHandle s m pbufAlloc).1
  | .tick station => dhcpTickHandle station s
  | .clientDelete mac => (dhcpsClientDelete s mac).1

def dhcpRun (s : DhcpServer) (es : List DhcpEvent) : DhcpServer := es.foldl dhcpStep s

end GizwitsSdk
