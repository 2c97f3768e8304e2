import GizwitsSdk.DhcpServer
import GizwitsSdk.Lib.Memory

/-!
# Datagrams of the DHCP server

`DHCPS_RecvCb` copies a datagram over the static `DhcpMsg`, reads the request
from there and builds the reply in the same place. Memory is counted from the
start of `DhcpMsg`; what lies behind it can be read as well, since an option
near the end of the buffer reaches over it.
-/

namespace GizwitsSdk

open Lib

/-- `sizeof(DHCP_MSG)`: the options start at 240. -/
abbrev dhcpMsgSize : Nat := 548

def dhcpOptionPad : UInt8 := 0
def dhcpOptionReqIpAddr : UInt8 := 50
def dhcpOptionMsgType : UInt8 := 53
def dhcpOptionEnd : UInt8 := 255
def dhcpOpRequest : UInt8 := 1

def wordAt (m : Mem) (a : Nat) : UInt32 := UInt32.ofNat (load32 m a)

def macAt (m : Mem) (a : Nat) : Mac := Vector.ofFn fun i : Fin 6 => m (a + i)

/-! ## Options -/

/-- What `_ParseDhcpOptions` stores for its caller, and its return value. -/
structure DhcpOptions where
  ret : UInt8
  msgType : UInt8
  reqIpAddr : UInt32
  serverId : UInt32

/-- The option at `p`, its code neither pad nor end. -/
def parseOption (m : Mem) (p : Nat) (o : DhcpOptions) : DhcpOptions :=
  if m p = dhcpOptionMsgType then { o with msgType := m (p + 2), ret := o.ret ||| (0x01 : UInt8) }
  else if m p = dhcpOptionReqIpAddr then
    { o with reqIpAddr := wordAt m (p + 2), ret := o.ret ||| (0x02 : UInt8) }
  else if m p = dhcpOptionServerId then
    { o with serverId := wordAt m (p + 2), ret := o.ret ||| (0x04 : UInt8) }
  else o

def optionsLoop (m : Mem) : Nat → Nat → DhcpOptions → DhcpOptions
  | 0, _, o => o
  | fuel + 1, p, o =>
    if m p ≠ dhcpOptionEnd ∧ p < dhcpMsgSize then
      if m p = dhcpOptionPad then optionsLoop m fuel (p + 1) o
      else optionsLoop m fuel (p + 2 + (m (p + 1)).toNat) (parseOption m p o)
    else o

def parseDhcpOptions (m : Mem) : DhcpOptions := optionsLoop m 308 240 ⟨0, 0xff, 0, 0⟩

theorem optionsLoop_end {m : Mem} {p : Nat} (h : dhcpMsgSize ≤ p) (fuel : Nat) (o : DhcpOptions) :
    optionsLoop m fuel p o = o := by
  cases fuel with
  | zero => rfl
  | succ fuel => exact if_neg fun hc => absurd hc.2 (Nat.not_lt.mpr h)

/-- Every turn moves on, so a turn for each byte left is enough. -/
theorem optionsLoop_fuel (m : Mem) (fuel k p : Nat) (o : DhcpOptions) (h : dhcpMsgSize ≤ p + fuel) :
    optionsLoop m (fuel + k) p o = optionsLoop m fuel p o := by
  induction fuel generalizing p o with
  | zero => rw [optionsLoop_end (by omega), optionsLoop_end (by omega)]
  | succ fuel ih =>
    rw [Nat.add_right_comm]
    simp only [optionsLoop]
    rw [ih (p + 1) o (by omega), ih (p + 2 + (m (p + 1)).toNat) (parseOption m p o) (by omega)]

/-! ## The reply in the buffer -/

def wordBytes (x : UInt32) : List UInt8 :=
  [x.toUInt8, (x >>> 8).toUInt8, (x >>> 16).toUInt8, (x >>> 24).toUInt8]

def dhcpReplyBytes (r : DhcpReply) : List UInt8 :=
  [r.op, r.hType, r.hLen, 0] ++ wordBytes r.xid ++ List.replicate 8 0 ++ wordBytes r.yiaddr ++
    wordBytes r.siaddr ++ List.replicate 4 0 ++ r.chaddr.toList ++ List.replicate 202 0 ++
    wordBytes r.magic ++ [dhcpOptionMsgType, 1, r.msgType] ++
    r.options.flatMap (fun o => [o.1, 4] ++ wordBytes o.2) ++ [dhcpOptionEnd]

/-- `DhcpMsg` cleared and filled with a reply. -/
def replyMem (m : Mem) (r : DhcpReply) : Mem :=
  blit (blit m 0 (List.replicate dhcpMsgSize 0)) 0 (dhcpReplyBytes r)

theorem dhcpReplyBytes_length (r : DhcpReply) :
    (dhcpReplyBytes r).length = 244 + 6 * r.options.length := by
  have hword : ∀ x, (wordBytes x).length = 4 := fun _ => rfl
  have hopt : ∀ os : List (UInt8 × UInt32),
      (os.flatMap fun o => [o.1, 4] ++ wordBytes o.2).length = 6 * os.length := by
    intro os
    induction os with
    | nil => rfl
    | cons o os ih =>
      rw [List.flatMap_cons, List.length_append, ih, List.length_cons, List.length_append, hword,
        List.length_cons, List.length_cons, List.length_nil]
      omega
  simp only [dhcpReplyBytes, hword, hopt, List.length_append, List.length_cons, List.length_nil,
    List.length_replicate, Vector.length_toList]
  omega

theorem replyMem_behind (m : Mem) {r : DhcpReply} (h : r.options.length ≤ 50) {k : Nat}
    (hk : dhcpMsgSize ≤ k) : replyMem m r k = m k := by
  have hl := dhcpReplyBytes_length r
  have hsize : dhcpMsgSize = 548 := rfl
  unfold replyMem
  rw [blit, if_neg (by omega), blit, if_neg (by rw [List.length_replicate]; omega)]

/-! ## A datagram -/

structure DhcpsState where
  server : DhcpServer
  mem : Mem

def serveOptions (s : DhcpServer) (mac : Mac) (xid : UInt32) (o : DhcpOptions) (pbufAlloc : Bool) :
    DhcpServer × Option DhcpReply :=
  if o.ret &&& 0x01 = 0 then (s, none)
  else dhcpsHandle s ⟨mac, o.msgType, o.reqIpAddr, o.serverId, xid⟩ pbufAlloc

/-- The frame is a request with the right magic number and hardware type. -/
def headerOk (m : Mem) : Prop :=
  m 0 = dhcpOpRequest ∧ htonl (wordAt m 236) = dhcpMagic ∧ m 1 = dhcpHwtypeEthernet

instance (m : Mem) : Decidable (headerOk m) := by unfold headerOk; infer_instance

def dhcpsRecvCb (t : DhcpsState) (p : List UInt8) (pbufAlloc : Bool) :
    DhcpsState × Option DhcpReply :=
  let m := blit t.mem 0 (p.take dhcpMsgSize)
  if p.length = 0 ∨ ¬ headerOk m then ({ t with mem := m }, none)
  else
    let (s, reply) := serveOptions t.server (macAt m 28) (htonl (wordAt m 4)) (parseDhcpOptions m)
      pbufAlloc
    match reply with
    | some r => (⟨s, replyMem m r⟩, some r)
    | none => (⟨s, m⟩, none)

end GizwitsSdk
